import WcashExplorer.Rpc

/-! Local proof verification, the exact-witness check and the optional parent lookups. -/
namespace WcashExplorer

open Effects

/-- What the pinned consensus crates and the hash crate provide. -/
structure AuxPowCrate where
  Proof : Type
  Target : Type
  Rules : Type
  proofMagic : Bytes
  parentHeaderBytes : Nat
  sha256 : Bytes → Bytes
  /-- `Height::try_from`. -/
  heightTryFrom : Nat → Option Nat
  rulesForCandidateHeight : Nat → Option Nat → Rules
  decode : Bytes → Except String Proof
  targetFromLeBytes : Bytes → Except String Target
  isMetByLeHash : Target → Bytes → Bool
  /-- Validation under parent rules; it yields the parent coinbase transaction's id. -/
  validateWithParentRules : Proof → Bytes → Target → Rules → Except String Bytes
  parentHeader : Proof → Bytes
  parentHeaderHash : Proof → Bytes
  advertisedNBits : Proof → Nat
  parentMerkleDepth : Proof → Nat
  parentCoinbaseIndex : Proof → Nat
  authDataMerkleDepth : Proof → Nat
  authDataCoinbaseIndex : Proof → Nat
  auxiliaryMerkleDepth : Proof → Nat
  auxiliaryIndex : Proof → Nat

/-- The verifier of one network: its parents' labels and its NU7 activation height, if any. -/
structure AuxPowVerifier (lib : AuxPowCrate) where
  parents : List Text
  nu7ActivationHeight : Option Nat

def witnessHashDomain : Bytes :=
  "WcashExplorer/AuxPoW-witness/v1\x00".toList.map fun c => UInt8.ofNat c.toNat

def verifierVersion : Text :=
  "wcash-zcash-aux@9ea02e480d1583dfb26ef2ad46ee3ee7e84d1f8a".toList

def solutionOffset : Nat := 140

def invalidAuxPow {α : Type} (message : String) : Result α := .error (.invalidAuxPow message)

def invalidNodeResponse {α : Type} (message : String) : Result α :=
  .error (.invalidNodeResponse message)

/-- `map_err(|error| ExplorerError::InvalidAuxPow(error.to_string()))`. -/
def asInvalidAuxPow {α : Type} : Except String α → Result α
  | .ok a => .ok a
  | .error message => invalidAuxPow message

variable (lib : AuxPowCrate)

/-- Policy is derived from the block's own height. -/
def parentRulesAtHeight (verifier : AuxPowVerifier lib) (height : Nat) : Result lib.Rules :=
  if height ≤ u32Max then
    match lib.heightTryFrom height with
    | some height => .ok (lib.rulesForCandidateHeight height verifier.nu7ActivationHeight)
    | none => invalidAuxPow "Wcash block height is out of range"
  else invalidAuxPow "Wcash block height is out of range"

/-- `decode_hex` of the verifier. -/
def decodeSolutionHex (label : String) (value : Text) (maximumBytes : Nat) : Result Bytes :=
  if value.len % 2 ≠ 0 || value.len / 2 > maximumBytes then
    invalidAuxPow s!"{label} has an invalid encoded length"
  else
    match hexDecode value with
    | .ok bytes => .ok bytes
    | .error error => invalidAuxPow s!"{label} is not hex: {error}"

/-- A little-endian unsigned integer. -/
def fromLeBytes : Bytes → Nat
  | [] => 0
  | b :: rest => b.toNat + 256 * fromLeBytes rest

/-- The `n` low bytes of a number, least significant first. -/
def toLeBytes : Nat → Nat → Bytes
  | 0, _ => []
  | n + 1, value => UInt8.ofNat (value % 256) :: toLeBytes n (value / 256)

/-- A compact size in `width` bytes after its marker, refused where a shorter form exists. -/
def decodeWideCompactSize (bytes : Bytes) (width least : Nat) : Result (Nat × Nat) :=
  let encoded := (bytes.drop 1).take width
  if encoded.length < width then invalidNodeResponse "truncated compact solution length"
  else if fromLeBytes encoded < least then
    invalidNodeResponse "non-canonical compact solution length"
  else .ok (fromLeBytes encoded, width + 1)

def decodeCompactSize (bytes : Bytes) : Result (Nat × Nat) :=
  match bytes.head? with
  | none => invalidNodeResponse "raw block omitted its solution length"
  | some marker =>
    if marker.toNat ≤ 0xfc then .ok (marker.toNat, 1)
    else if marker.toNat = 0xfd then decodeWideCompactSize bytes 2 0xfd
    else if marker.toNat = 0xfe then decodeWideCompactSize bytes 4 0x10000
    else decodeWideCompactSize bytes 8 0x100000000

def solutionFromRawBlock (rawBlock : Bytes) : Result Bytes :=
  if rawBlock.length < solutionOffset then
    invalidNodeResponse "raw block is shorter than its fixed header"
  else do
    let (length, encodedLength) ← decodeCompactSize (rawBlock.drop solutionOffset)
    if length > 256 * 1024 then
      invalidNodeResponse "raw block solution exceeded its size bound"
    else
      let start := solutionOffset + encodedLength
      if start + length ≤ rawBlock.length then .ok ((rawBlock.drop start).take length)
      else invalidNodeResponse "raw block solution is truncated"

/-- A domain-separated identity for every serialized block witness variant. -/
def blockWitnessHash (rawBlock : Bytes) : Text :=
  hexEncode (lib.sha256 (witnessHashDomain ++ rawBlock))

def parseDisplayHash (value : Text) : Result Bytes :=
  match hexDecodeExact 32 value with
  | .ok bytes => .ok bytes.reverse
  | .error error => invalidAuxPow s!"invalid Wcash block hash: {error}"

def displayHash (raw : Bytes) : Text := hexEncode raw.reverse

/-- The 256-bit little-endian expansion of compact difficulty bits. -/
def compactTargetBytes (compact : Nat) : Result Bytes :=
  let size := compact / 2 ^ 24
  let word := compact % 2 ^ 23
  if word = 0 || compact / 2 ^ 23 % 2 = 1 then
    invalidAuxPow "difficulty target is zero or negative"
  else if size ≤ 3 then
    .ok (toLeBytes 4 (word / 2 ^ (8 * (3 - size))) ++ List.replicate 28 0)
  else if size - 3 + 3 > 32 then invalidAuxPow "difficulty target overflows 256 bits"
  else
    .ok (List.replicate (size - 3) 0 ++ toLeBytes 3 word ++ List.replicate (32 - size) 0)

def compactTarget (bits : Text) : Result lib.Target :=
  if bits.len = 8 && bits.all isHexDigit then do
    let bytes ← asInvalidAuxPow (hexDecode bits)
    let target ← compactTargetBytes (fromLeBytes bytes.reverse)
    asInvalidAuxPow (lib.targetFromLeBytes target)
  else invalidAuxPow "difficulty bits must be exactly four hexadecimal bytes"

/-- Eight lower-case hexadecimal digits, `{:08x}`. -/
def bitsText (n : Nat) : Text := hexEncode (toLeBytes 4 n).reverse

def classifyObservations (observations : List ParentObservation) : ParentLookupState × Bool :=
  match observations with
  | [] => (.notConfigured, false)
  | first :: _ =>
    let sourcesAgree := observations.length ≥ 2 && observations.all fun o => o.state = first.state
    let has := fun state => observations.any fun o => o.state = state
    let classified : ParentLookupState :=
      if has .disagreement || (has .canonical && (has .notFound || has .orphaned)) then
        .disagreement
      else if has .canonical then .canonical
      else if has .orphaned then .orphaned
      else if has .notFound then .notFound
      else .unavailable
    (classified, sourcesAgree)

/-- The two lookups of one parent; the first failure is the result. -/
def parentLookups (parent : Nat) (hash : Text) : Action (ParentBlock × Bytes) := do
  let block ← Parent.parentBlock parent hash
  let raw ← Parent.blockRaw parent hash
  return (block, raw)

def foundObservation (source : Text) (embeddedHeader : Bytes) (checkedAt : Timestamp)
    (block : ParentBlock) (raw : Bytes) : ParentObservation :=
  let headerMatches := lib.parentHeaderBytes ≤ raw.length &&
    raw.take lib.parentHeaderBytes = embeddedHeader
  { source
    state :=
      if !headerMatches then .disagreement
      else if block.confirmations < 0 then .orphaned
      else .canonical
    block := some block
    embeddedHeaderMatches := some headerMatches
    checkedAt }

def failedObservation (source : Text) (checkedAt : Timestamp) (error : ExplorerError) :
    ParentObservation :=
  { source
    state := match error with
      | .rpc code _ => if code = -5 || code = -8 then .notFound else .unavailable
      | _ => .unavailable
    checkedAt }

/-- A failed lookup is an observation too, so observing never fails. -/
def observeParent (parent : Nat) (source : Text) (hash : Text) (embeddedHeader : Bytes) :
    Action ParentObservation := do
  let checkedAt ← utcNow
  Prog.handle
    ((parentLookups parent hash).bind fun (block, raw) =>
      .ret (foundObservation lib source embeddedHeader checkedAt block raw))
    fun error => .ret (failedObservation source checkedAt error)

/-- Observes the configured parents from position `parent` on. -/
def observeParents (hash : Text) (embeddedHeader : Bytes) :
    Nat → List Text → Action (List ParentObservation)
  | _, [] => .ret []
  | parent, source :: rest => do
    let observation ← observeParent lib parent source hash embeddedHeader
    let observations ← observeParents hash embeddedHeader (parent + 1) rest
    return observation :: observations

/-- The evidence a block's proof gives before any node is asked. -/
def localEvidence (verifier : AuxPowVerifier lib) (block : RpcBlock) (rawBlock : Bytes) :
    Result (Option (Bytes × lib.Proof × Bytes)) := do
  let parentRules ← parentRulesAtHeight lib verifier block.height
  let proofBytes ← decodeSolutionHex "Wcash solution" block.solution (256 * 1024)
  let rawSolution ← solutionFromRawBlock rawBlock
  if rawSolution ≠ proofBytes then
    invalidAuxPow "raw block witness does not match the verbose block solution"
  else if !lib.proofMagic.isPrefixOf proofBytes then
    if block.height = 0 then .ok none
    else invalidAuxPow "a non-genesis Wcash block did not carry the WCAZ proof marker"
  else do
    let proof ← asInvalidAuxPow (lib.decode proofBytes)
    let childHash ← parseDisplayHash block.hash
    let requiredTarget ← compactTarget lib block.bits
    let coinbase ← asInvalidAuxPow
      (lib.validateWithParentRules proof childHash requiredTarget parentRules)
    .ok (some (proofBytes, proof, coinbase))

def verifiedAuxPow (rawBlock proofBytes : Bytes) (proof : lib.Proof) (coinbase : Bytes)
    (exactStatus : AuxStatus) (observations : List ParentObservation) : VerifiedAuxPow :=
  let parentHeaderBits := bitsText (lib.advertisedNBits proof)
  { witnessHash := blockWitnessHash lib rawBlock
    proofVersion := (proofBytes.getD lib.proofMagic.length 0).toNat
    proofSize := proofBytes.length
    parentBlockHash := displayHash (lib.parentHeaderHash proof)
    parentHeaderBits
    parentHashMeetsClaimedTarget := match compactTarget lib parentHeaderBits with
      | .ok target => lib.isMetByLeHash target (lib.parentHeaderHash proof)
      | .error _ => false
    parentCoinbaseTxid := displayHash coinbase
    parentMerkleDepth := lib.parentMerkleDepth proof
    parentCoinbaseIndex := lib.parentCoinbaseIndex proof
    authDataMerkleDepth := lib.authDataMerkleDepth proof
    authDataCoinbaseIndex := lib.authDataCoinbaseIndex proof
    auxiliaryMerkleDepth := lib.auxiliaryMerkleDepth proof
    auxiliaryIndex := lib.auxiliaryIndex proof
    verificationState := .auxpowVerified
    verifierVersion
    exactWitnessState := exactStatus.state
    witnessConfirmations := exactStatus.confirmations
    parentObservations := observations
    parentLookupState := (classifyObservations observations).1
    parentSourcesAgree := (classifyObservations observations).2 }

/-- Only a best-chain answer lets verification go on. -/
def ensureBestChain : AuxStatus → Result Unit
  | .bestChain _ => .ok ()
  | status => invalidAuxPow
      s!"Wcash rejected the exact witness as canonical: {status.state.asStr}"

/-- `None` only for the genesis block, whose solution is native genesis work. -/
def verify (verifier : AuxPowVerifier lib) (block : RpcBlock) (rawBlock : Bytes) :
    Action (Option VerifiedAuxPow) := do
  match ← orFail (localEvidence lib verifier block rawBlock) with
  | none => return none
  | some (proofBytes, proof, coinbase) =>
    let exactStatus ← Wcash.auxBlockStatus block.hash block.solution
    orFail (ensureBestChain exactStatus)
    let observations ← observeParents lib (displayHash (lib.parentHeaderHash proof))
      (lib.parentHeader proof) 0 verifier.parents
    return some (verifiedAuxPow lib rawBlock proofBytes proof coinbase exactStatus observations)

end WcashExplorer
