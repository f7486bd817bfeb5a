import Mathlib.Data.List.Sort
import WcashExplorer.AuxPow
import WcashExplorer.Schema

/-! `insert_block`: one block, its witness, transactions, pools and evidence. -/
namespace WcashExplorer

open Relational

/-- `to_i64`. -/
def toI64 (value : Nat) (label : String) : Result Nat :=
  if value ≤ i64Max then .ok value
  else .error (.invalidNodeResponse s!"{label} exceeds the database range")

/-- `i32::try_from` under an error message. -/
def asI32 (value : Nat) (message : String) : Result Nat :=
  if value ≤ i32Max then .ok value else .error (.invalidNodeResponse message)

/-- `to_i32`. -/
def toI32 (value : Nat) (label : String) : Result Nat :=
  asI32 value s!"{label} exceeds the database range"

/-- `ensure_hash`. -/
def ensureHash (label : String) (value : Text) : Result Unit :=
  ensure (isHash value) (.invalidNodeResponse s!"{label} is not a 32-byte hexadecimal identifier")

/-- `decode_hex` of the database. -/
def decodeHex (value : Text) (maximumBytes : Nat) : Result Bytes :=
  if value.len % 2 ≠ 0 || value.len / 2 > maximumBytes then
    .error (.invalidNodeResponse "hexadecimal payload exceeded its size bound")
  else
    match hexDecode value with
    | .ok bytes => .ok bytes
    | .error error => .error (.invalidNodeResponse s!"invalid hexadecimal payload: {error}")

/-- A conversion of an optional value, `transpose`d. -/
def optional {α β : Type} (f : α → Result β) : Option α → Result (Option β)
  | none => .ok none
  | some a => f a >>= fun b => .ok (some b)

/-- A row passes its table's constraints, or the statement fails. -/
def checked (valid : Bool) : Result Unit := ensure valid .database

variable (lib : AuxPowCrate)

def witnessHash (indexed : IndexedBlock) : Text :=
  match indexed.auxpow with
  | some aux => aux.witnessHash
  | none => blockWitnessHash lib indexed.rawBlock

def blockTimestamp (secs : Int) : Result Timestamp :=
  match fromTimestamp secs with
  | some t => .ok t
  | none => invalidNodeResponse "block timestamp is out of range"

/-- The row `insert_block` offers to `blocks`. -/
def blockRow (networkId : Text) (indexed : IndexedBlock) : Result BlockRow := do
  let block := indexed.block
  let blockTime ← blockTimestamp block.time
  let height ← toI64 block.height "block height"
  let sizeBytes ← toI64 block.size "block size"
  let transactionCount ← asI32 block.tx.length "too many transactions in block"
  .ok
    { blockHash := block.hash
      networkId
      height
      previousBlockHash := block.previousblockhash
      merkleRoot := block.merkleroot
      blockCommitments := block.blockcommitments
      blockTime
      sizeBytes
      transactionCount
      bits := block.bits
      difficultyText := scalarText block.difficulty
      nonce := block.nonce
      chainSupplyZat := block.chainSupplyZat
      firstSeenAt := indexed.fetchedAt
      rawRpc := indexed.raw }

/-- The facts of a stored block that a later answer must repeat. -/
def immutableBlockMatches (stored r : BlockRow) : Bool :=
  stored.networkId = r.networkId && stored.height = r.height &&
    stored.previousBlockHash = r.previousBlockHash && stored.merkleRoot = r.merkleRoot &&
    stored.blockCommitments = r.blockCommitments && stored.blockTime = r.blockTime &&
    stored.sizeBytes = r.sizeBytes && stored.transactionCount = r.transactionCount &&
    stored.bits = r.bits && stored.nonce = r.nonce && stored.chainSupplyZat = r.chainSupplyZat

def insertBlockFacts (networkId : Text) (indexed : IndexedBlock) (db : Db) : Result Db := do
  let row ← blockRow networkId indexed
  checked row.valid
  let blocks := db.blocks.insertNew row
  match blocks.find? indexed.block.hash with
  | none => .error .database
  | some stored =>
    ensure (immutableBlockMatches stored row)
      (.invalidNodeResponse s!"immutable block facts changed for {indexed.block.hash.str}")
    .ok { db with blocks }

/-- The row `insert_block` offers to `block_witnesses`. -/
def blockWitnessRow (indexed : IndexedBlock) : Result BlockWitnessRow :=
  match indexed.auxpow with
  | some aux => do
    let auxpowBytes ← decodeHex indexed.block.solution (256 * 1024)
    .ok
      { blockHash := indexed.block.hash
        witnessHash := witnessHash lib indexed
        rawBlock := indexed.rawBlock
        auxpowBytes := some auxpowBytes
        exactWitnessState := aux.exactWitnessState
        witnessConfirmations := aux.witnessConfirmations
        localValidationState := aux.verificationState
        verifierVersion := some aux.verifierVersion
        indexedAt := indexed.fetchedAt }
  | none => .ok
      { blockHash := indexed.block.hash
        witnessHash := witnessHash lib indexed
        rawBlock := indexed.rawBlock
        auxpowBytes := none
        exactWitnessState := .nativeGenesis
        witnessConfirmations := some indexed.block.confirmations.toNat
        localValidationState := .genesis
        verifierVersion := none
        indexedAt := indexed.fetchedAt }

/-- `DO UPDATE` of a stored witness: its observations, never its bytes. -/
def BlockWitnessRow.refreshedBy (excluded stored : BlockWitnessRow) : BlockWitnessRow :=
  { stored with
    exactWitnessState := excluded.exactWitnessState
    witnessConfirmations := excluded.witnessConfirmations
    indexedAt := excluded.indexedAt }

theorem BlockWitnessRow.key_refreshedBy (r s : BlockWitnessRow) : (r.refreshedBy s).key = s.key := rfl

def insertWitness (indexed : IndexedBlock) (db : Db) : Result Db := do
  let row ← blockWitnessRow lib indexed
  checked row.valid
  .ok { db with blockWitnesses := db.blockWitnesses.upsert row row.refreshedBy row.key_refreshedBy }

def rawTxHashDomain : Bytes :=
  "WcashExplorer/raw-transaction/v1\x00".toList.map fun c => UInt8.ofNat c.toNat

/-- `str::as_bytes` of an ASCII identifier. -/
def asciiBytes (t : Text) : Bytes := t.map fun c => UInt8.ofNat c.toNat

def rawTransactionHash (t : RpcTransaction) (raw : Option Bytes) : Text :=
  hexEncode (lib.sha256 (rawTxHashDomain ++ match raw with
    | some raw => raw
    | none => asciiBytes t.txid ++
        if 5 ≤ t.version then (t.authdigest.map asciiBytes).getD [] else []))

def bundleActionCount : Option Json → Nat
  | some (.array actions) => min actions.length i32Max
  | some (.object members) =>
    match Json.get? members "actions".toList with
    | some (.array actions) => if actions.length ≤ i32Max then actions.length else 0
    | some (.number number) =>
      match number.asU64 with
      | some count => if count ≤ i32Max then count else 0
      | none => 0
    | _ => 0
  | _ => 0

/-- The authorization digest of the formats that define one. -/
def authDigest (t : RpcTransaction) : Result (Option Text) :=
  if 5 ≤ t.version then
    match t.authdigest with
    | none => invalidNodeResponse
        s!"version {t.version} transaction {t.txid.str} has no authorization digest"
    | some digest => do
        ensureHash "transaction authorization digest" digest
        .ok (some digest)
  else .ok none

/-- The row `insert_transaction` offers to `transaction_instances`. -/
def transactionInstanceRow (t : RpcTransaction) (id : Nat) : Result TransactionInstanceRow := do
  let raw ← optional (fun value => decodeHex value (4 * 1024 * 1024)) t.hex
  let rawHash := rawTransactionHash lib t raw
  ensureHash "transaction ID" t.txid
  let authDigest ← authDigest t
  let sizeBytes ← toI64 t.size "transaction size"
  let lockTime ← toI64 t.locktime "lock time"
  let expiryHeight ← toI64 t.expiryheight "expiry height"
  let saplingSpendCount ← toI32 t.shieldedSpends.length "Sapling spend count"
  let saplingOutputCount ← toI32 t.shieldedOutputs.length "Sapling output count"
  .ok
    { transactionInstanceId := id
      txid := t.txid
      instanceDigest := authDigest.getD rawHash
      authDigest
      rawHash
      rawTransaction := raw
      version := t.version
      sizeBytes
      lockTime
      expiryHeight
      isCoinbase := t.vin.any fun input => input.coinbase.isSome
      valueBalanceZat := t.valueBalanceZat
      saplingSpendCount
      saplingOutputCount
      orchardActionCount := bundleActionCount t.orchard
      ironwoodActionCount := bundleActionCount t.ironwood
      rawRpc := t.toJson }

/-- The facts of a stored transaction that a later answer must repeat. -/
def immutableTransactionMatches (stored r : TransactionInstanceRow) : Bool :=
  stored.instanceDigest = r.instanceDigest && stored.authDigest = r.authDigest &&
    stored.rawHash = r.rawHash && stored.rawTransaction = r.rawTransaction &&
    stored.version = r.version && stored.sizeBytes = r.sizeBytes &&
    stored.lockTime = r.lockTime && stored.expiryHeight = r.expiryHeight &&
    stored.isCoinbase = r.isCoinbase && stored.valueBalanceZat = r.valueBalanceZat &&
    stored.saplingSpendCount = r.saplingSpendCount &&
    stored.saplingOutputCount = r.saplingOutputCount &&
    stored.orchardActionCount = r.orchardActionCount &&
    stored.ironwoodActionCount = r.ironwoodActionCount

/-- Stores a transaction instance under a fresh id, or finds the stored one. The sequence
moves on either way. -/
def insertInstance (t : RpcTransaction) (db : Db) : Result (TransactionInstanceRow × Db) := do
  let row ← transactionInstanceRow lib t db.nextTransactionInstanceId
  checked row.valid
  let transactionInstances := db.transactionInstances.insertNew row
  match transactionInstances.find? row.key with
  | none => .error .database
  | some stored =>
    ensure (immutableTransactionMatches stored row) (.invalidNodeResponse
      s!"immutable transaction facts changed for {t.txid.str}:{row.instanceDigest.str}")
    .ok (stored, { db with
      transactionInstances
      nextTransactionInstanceId := db.nextTransactionInstanceId + 1 })

def transparentInputRow (id position : Nat) (input : RpcInput) : Result TransparentInputRow := do
  let inputIndex ← toI32 position "input index"
  let previousOutputIndex ← optional
    (fun value => asI32 value "previous output index exceeds the database range") input.vout
  let sequence ← optional (fun value => toI64 value "input sequence") input.sequence
  .ok
    { transactionInstanceId := id
      inputIndex
      previousTxid := input.txid
      previousOutputIndex
      coinbaseData := input.coinbase
      sequence }

def transparentOutputRow (id : Nat) (output : RpcOutput) : Result TransparentOutputRow := do
  let outputIndex ← asI32 output.n "output index overflow"
  .ok
    { transactionInstanceId := id
      outputIndex
      valueZat := output.valueZat
      address := output.scriptPubKey.primaryAddress
      scriptType := output.scriptPubKey.scriptType
      scriptHex := output.scriptPubKey.hex }

/-- Stores the inputs from `position` on and returns the rows offered. -/
def insertInputs (id : Nat) : Nat → List RpcInput → Db → Result (List TransparentInputRow × Db)
  | _, [], db => .ok ([], db)
  | position, input :: rest, db => do
    let row ← transparentInputRow id position input
    checked row.valid
    let (rows, db) ← insertInputs id (position + 1) rest
      { db with transparentInputs := db.transparentInputs.insertNew row }
    .ok (row :: rows, db)

def insertOutputs (id : Nat) : List RpcOutput → Db → Result (List TransparentOutputRow × Db)
  | [], db => .ok ([], db)
  | output :: rest, db => do
    let row ← transparentOutputRow id output
    checked row.valid
    let (rows, db) ← insertOutputs id rest
      { db with transparentOutputs := db.transparentOutputs.insertNew row }
    .ok (row :: rows, db)

/-- `SELECT … WHERE transaction_instance_id = $1 ORDER BY input_index`. -/
def storedInputs (db : Db) (id : Nat) : List TransparentInputRow :=
  (db.transparentInputs.rows.filter fun r => r.transactionInstanceId = id).insertionSort
    fun r s => r.inputIndex ≤ s.inputIndex

/-- `SELECT … WHERE transaction_instance_id = $1 ORDER BY output_index`. -/
def storedOutputs (db : Db) (id : Nat) : List TransparentOutputRow :=
  (db.transparentOutputs.rows.filter fun r => r.transactionInstanceId = id).insertionSort
    fun r s => r.outputIndex ≤ s.outputIndex

/-- Stores one transaction and returns its instance id. What is stored afterwards has to be
exactly what was offered, in the order offered. -/
def insertTransaction (t : RpcTransaction) (db : Db) : Result (Nat × Db) := do
  let (stored, db) ← insertInstance lib t db
  let id := stored.transactionInstanceId
  let (inputs, db) ← insertInputs id 0 t.vin db
  ensure (storedInputs db id = inputs) (.invalidNodeResponse
    s!"immutable transparent inputs changed for {t.txid.str}:{stored.instanceDigest.str}")
  let (outputs, db) ← insertOutputs id t.vout db
  ensure (storedOutputs db id = outputs) (.invalidNodeResponse
    s!"immutable transparent outputs changed for {t.txid.str}:{stored.instanceDigest.str}")
  .ok (id, db)

/-- Places an instance in its block; one instance has one position there. -/
def insertBlockTransaction (row : BlockTransactionRow) (db : Db) : Result Db :=
  match db.blockTransactions.find? row.key with
  | some _ => .ok db
  | none => do
    checked (db.blockTransactions.rows.all fun r => !(r.blockHash = row.blockHash &&
      r.witnessHash = row.witnessHash && r.transactionInstanceId = row.transactionInstanceId))
    .ok { db with blockTransactions := db.blockTransactions.insertNew row }

def insertBlockTransactions (blockHash witnessHash : Text) :
    Nat → List RpcTransaction → Db → Result Db
  | _, [], db => .ok db
  | position, t :: rest, db => do
    let (id, db) ← insertTransaction lib t db
    let txPosition ← asI32 position "transaction position overflow"
    let row : BlockTransactionRow :=
      { blockHash, witnessHash, txPosition, transactionInstanceId := id }
    let db ← insertBlockTransaction row db
    match db.blockTransactions.find? row.key with
    | none => .error .database
    | some stored =>
      ensure (stored.transactionInstanceId = id) (.invalidNodeResponse
        s!"immutable transaction position changed for {blockHash.str}:{position}")
      insertBlockTransactions blockHash witnessHash (position + 1) rest db

def ValuePoolSnapshotRow.refreshedBy (excluded stored : ValuePoolSnapshotRow) :
    ValuePoolSnapshotRow :=
  { stored with
    chainValueZat := excluded.chainValueZat
    valueDeltaZat := excluded.valueDeltaZat
    monitored := excluded.monitored }

theorem ValuePoolSnapshotRow.key_refreshedBy (r s : ValuePoolSnapshotRow) :
    (r.refreshedBy s).key = s.key := rfl

def valuePoolRow (blockHash witnessHash : Text) (pool : ValuePool) : ValuePoolSnapshotRow :=
  { blockHash
    witnessHash
    poolId := pool.id
    chainValueZat := pool.chainValueZat
    valueDeltaZat := pool.valueDeltaZat
    monitored := pool.monitored }

def insertValuePools (blockHash witnessHash : Text) : List ValuePool → Db → Result Db
  | [], db => .ok db
  | pool :: rest, db => do
    let row := valuePoolRow blockHash witnessHash pool
    checked row.valid
    insertValuePools blockHash witnessHash rest { db with
      valuePoolSnapshots := db.valuePoolSnapshots.upsert row row.refreshedBy row.key_refreshedBy }

def auxpowLinkRow (blockHash witnessHash : Text) (fetchedAt : Timestamp) (aux : VerifiedAuxPow) :
    Result AuxpowLinkRow := do
  let proofSize ← toI64 aux.proofSize "proof size"
  let parentMerkleDepth ← asI32 aux.parentMerkleDepth "parent branch depth overflow"
  let authDataMerkleDepth ← asI32 aux.authDataMerkleDepth "auth-data branch depth overflow"
  let auxiliaryMerkleDepth ← asI32 aux.auxiliaryMerkleDepth "auxiliary branch depth overflow"
  .ok
    { blockHash
      witnessHash
      proofVersion := aux.proofVersion
      proofSize
      parentBlockHash := aux.parentBlockHash
      parentHeaderBits := aux.parentHeaderBits
      parentHashMeetsClaimedTarget := aux.parentHashMeetsClaimedTarget
      parentCoinbaseTxid := aux.parentCoinbaseTxid
      parentMerkleDepth
      parentCoinbaseIndex := aux.parentCoinbaseIndex
      authDataMerkleDepth
      authDataCoinbaseIndex := aux.authDataCoinbaseIndex
      auxiliaryMerkleDepth
      auxiliaryIndex := aux.auxiliaryIndex
      parentLookupState := aux.parentLookupState
      parentSourcesAgree := aux.parentSourcesAgree
      verifiedAt := fetchedAt }

/-- `DO UPDATE` of a stored link: the parent verdict and the time, never the proof. -/
def AuxpowLinkRow.refreshedBy (excluded stored : AuxpowLinkRow) : AuxpowLinkRow :=
  { stored with
    parentLookupState := excluded.parentLookupState
    parentSourcesAgree := excluded.parentSourcesAgree
    verifiedAt := excluded.verifiedAt }

theorem AuxpowLinkRow.key_refreshedBy (r s : AuxpowLinkRow) : (r.refreshedBy s).key = s.key := rfl

def parentObservationRow (blockHash witnessHash : Text) (observation : ParentObservation) :
    Result ParentObservationRow := do
  let parentHeight ← optional (fun parent => toI64 parent.height "parent height") observation.block
  .ok
    { blockHash
      witnessHash
      sourceName := observation.source
      observationState := observation.state
      parentHeight
      parentConfirmations := observation.block.map fun parent => parent.confirmations
      parentTime := observation.block.bind fun parent => fromTimestamp parent.time
      parentBits := observation.block.map fun parent => parent.bits
      parentDifficultyText := observation.block.map fun parent => scalarText parent.difficulty
      embeddedHeaderMatches := observation.embeddedHeaderMatches
      checkedAt := observation.checkedAt }

/-- `DO UPDATE` of a stored observation: everything but its key. -/
def ParentObservationRow.refreshedBy (excluded stored : ParentObservationRow) :
    ParentObservationRow :=
  { excluded with
    blockHash := stored.blockHash
    witnessHash := stored.witnessHash
    sourceName := stored.sourceName }

theorem ParentObservationRow.key_refreshedBy (r s : ParentObservationRow) :
    (r.refreshedBy s).key = s.key := rfl

def insertObservations (blockHash witnessHash : Text) :
    List ParentObservation → Db → Result Db
  | [], db => .ok db
  | observation :: rest, db => do
    let row ← parentObservationRow blockHash witnessHash observation
    checked row.valid
    insertObservations blockHash witnessHash rest { db with
      parentChainObservations :=
        db.parentChainObservations.upsert row row.refreshedBy row.key_refreshedBy }

/-- One verification pass replaces all earlier observations of the witness. -/
def insertEvidence (blockHash witnessHash : Text) (fetchedAt : Timestamp) :
    Option VerifiedAuxPow → Db → Result Db
  | none, db => .ok db
  | some aux, db => do
    let row ← auxpowLinkRow blockHash witnessHash fetchedAt aux
    checked row.valid
    insertObservations blockHash witnessHash aux.parentObservations { db with
      auxpowLinks := db.auxpowLinks.upsert row row.refreshedBy row.key_refreshedBy
      parentChainObservations := db.parentChainObservations.deleteWhere fun r =>
        r.blockHash = blockHash && r.witnessHash = witnessHash }

def insertBlock (networkId : Text) (indexed : IndexedBlock) (db : Db) : Result Db := do
  let block := indexed.block
  let witness := witnessHash lib indexed
  let db ← insertBlockFacts networkId indexed db
  let db ← insertWitness lib indexed db
  let db ← insertBlockTransactions lib block.hash witness 0 block.tx db
  let db ← insertValuePools block.hash witness block.valuePools db
  insertEvidence block.hash witness indexed.fetchedAt indexed.auxpow db

end WcashExplorer
