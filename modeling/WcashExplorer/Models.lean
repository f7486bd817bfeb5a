import WcashExplorer.Json

/-! The node's answers and the materialized block that one database transaction stores. -/
namespace WcashExplorer

/-- Node chain summary used by the indexer. -/
structure BlockchainInfo where
  chain : Text
  blocks : Nat

structure ChainValue where
  chainValueZat : Option Int := none
  monitored : Option Bool := none

/-- One public value-pool snapshot. -/
structure ValuePool where
  id : Text
  chainValueZat : Option Int := none
  valueDeltaZat : Option Int := none
  monitored : Option Bool := none
  deriving DecidableEq

/-- Decoded transparent output script. -/
structure ScriptPubKey where
  asm : Option Text := none
  hex : Option Text := none
  scriptType : Option Text := none
  address : Option Text := none
  addresses : List Text := []

/-- The single public address represented by a script when known. -/
def ScriptPubKey.primaryAddress (s : ScriptPubKey) : Option Text :=
  s.address.or (match s.addresses with
    | [a] => some a
    | _ => none)

/-- One transparent output. -/
structure RpcOutput where
  valueZat : Int
  n : Nat
  scriptPubKey : ScriptPubKey
  extra : List (Text × Json) := []

/-- One transparent input, or a coinbase marker. -/
structure RpcInput where
  txid : Option Text := none
  vout : Option Nat := none
  coinbase : Option Text := none
  sequence : Option Nat := none
  scriptSig : Option Json := none
  extra : List (Text × Json) := []

/-- Verbose Wcash transaction response. -/
structure RpcTransaction where
  txid : Text
  authdigest : Option Text := none
  version : Int
  size : Nat
  locktime : Nat := 0
  expiryheight : Nat := 0
  vin : List RpcInput := []
  vout : List RpcOutput := []
  shieldedSpends : List Json := []
  shieldedOutputs : List Json := []
  orchard : Option Json := none
  ironwood : Option Json := none
  valueBalanceZat : Option Int := none
  hex : Option Text := none
  extra : List (Text × Json) := []

namespace ScriptPubKey

def toJson (s : ScriptPubKey) : Json :=
  .ofMembers [("asm".toList, .ofOption .string s.asm), ("hex".toList, .ofOption .string s.hex),
    ("type".toList, .ofOption .string s.scriptType),
    ("address".toList, .ofOption .string s.address),
    ("addresses".toList, .array (s.addresses.map .string))]

end ScriptPubKey

namespace RpcOutput

def toJson (o : RpcOutput) : Json :=
  .ofMembers ([("valueZat".toList, .int o.valueZat), ("n".toList, .nat o.n),
    ("scriptPubKey".toList, o.scriptPubKey.toJson)] ++ o.extra)

end RpcOutput

namespace RpcInput

def toJson (i : RpcInput) : Json :=
  .ofMembers ([("txid".toList, .ofOption .string i.txid), ("vout".toList, .ofOption .nat i.vout),
    ("coinbase".toList, .ofOption .string i.coinbase),
    ("sequence".toList, .ofOption .nat i.sequence),
    ("scriptSig".toList, .ofOption id i.scriptSig)] ++ i.extra)

end RpcInput

namespace RpcTransaction

/-- `serde_json::to_value` of a decoded transaction, its undecoded members flattened in. -/
def toJson (t : RpcTransaction) : Json :=
  .ofMembers ([("txid".toList, .string t.txid),
    ("authdigest".toList, .ofOption .string t.authdigest),
    ("version".toList, .int t.version), ("size".toList, .nat t.size),
    ("locktime".toList, .nat t.locktime), ("expiryheight".toList, .nat t.expiryheight),
    ("vin".toList, .array (t.vin.map RpcInput.toJson)),
    ("vout".toList, .array (t.vout.map RpcOutput.toJson)),
    ("vShieldedSpend".toList, .array t.shieldedSpends),
    ("vShieldedOutput".toList, .array t.shieldedOutputs),
    ("orchard".toList, .ofOption id t.orchard), ("ironwood".toList, .ofOption id t.ironwood),
    ("valueBalanceZat".toList, .ofOption .int t.valueBalanceZat),
    ("hex".toList, .ofOption .string t.hex)] ++ t.extra)

end RpcTransaction

/-- Verbose Wcash block response. -/
structure RpcBlock where
  hash : Text
  height : Nat
  confirmations : Int
  size : Nat
  time : Int
  bits : Text
  difficulty : Json
  nonce : Text
  solution : Text
  merkleroot : Text
  blockcommitments : Option Text := none
  previousblockhash : Option Text := none
  tx : List RpcTransaction := []
  chainSupply : Option ChainValue := none
  valuePools : List ValuePool := []

/-- `block.chain_supply.as_ref().and_then(|value| value.chain_value_zat)`. -/
def RpcBlock.chainSupplyZat (b : RpcBlock) : Option Int :=
  b.chainSupply.bind fun v => v.chainValueZat

/-- Parent-chain block metadata when a hash is known to the configured node. -/
structure ParentBlock where
  height : Nat
  confirmations : Int
  time : Int
  bits : Text
  difficulty : Json

/-- Result of checking the exact parent hash against a canonical parent node. -/
inductive ParentLookupState
  | canonical
  | orphaned
  | notFound
  | unavailable
  | notConfigured
  | disagreement
  deriving DecidableEq, Repr

namespace ParentLookupState

def asStr : ParentLookupState → String
  | canonical => "canonical"
  | orphaned => "orphaned"
  | notFound => "not_found"
  | unavailable => "unavailable"
  | notConfigured => "not_configured"
  | disagreement => "disagreement"

end ParentLookupState

/-- One independent observation of the parent hash. -/
structure ParentObservation where
  source : Text
  state : ParentLookupState
  block : Option ParentBlock := none
  embeddedHeaderMatches : Option Bool := none
  checkedAt : Timestamp

/-- Exact-witness Wcash state returned by `getauxblockstatus`. -/
inductive AuxStatus
  | bestChain (confirmations : Nat)
  | sideChain
  | conflictingWitness
  | pending
  | unknown
  deriving DecidableEq, Repr

/-- The state column of a block witness: the node's own states, or a native genesis. -/
inductive WitnessState
  | bestChain
  | sideChain
  | conflictingWitness
  | pending
  | unknown
  | nativeGenesis
  deriving DecidableEq, Repr

namespace AuxStatus

def state : AuxStatus → WitnessState
  | bestChain _ => .bestChain
  | sideChain => .sideChain
  | conflictingWitness => .conflictingWitness
  | pending => .pending
  | unknown => .unknown

def confirmations : AuxStatus → Option Nat
  | bestChain c => some c
  | _ => none

end AuxStatus

namespace WitnessState

def asStr : WitnessState → String
  | bestChain => "best_chain"
  | sideChain => "side_chain"
  | conflictingWitness => "conflicting_witness"
  | pending => "pending"
  | unknown => "unknown"
  | nativeGenesis => "native_genesis"

end WitnessState

/-- The result of local verification: `auxpow_verified`, or `genesis` for native work. -/
inductive ValidationState
  | auxpowVerified
  | genesis
  deriving DecidableEq, Repr

/-- Result of exact Wcash AuxPoW verification and optional parent lookup. -/
structure VerifiedAuxPow where
  witnessHash : Text
  proofVersion : Nat
  proofSize : Nat
  parentBlockHash : Text
  parentHeaderBits : Text
  parentHashMeetsClaimedTarget : Bool
  parentCoinbaseTxid : Text
  parentMerkleDepth : Nat
  parentCoinbaseIndex : Nat
  authDataMerkleDepth : Nat
  authDataCoinbaseIndex : Nat
  auxiliaryMerkleDepth : Nat
  auxiliaryIndex : Nat
  verificationState : ValidationState
  verifierVersion : Text
  exactWitnessState : WitnessState
  witnessConfirmations : Option Nat
  parentObservations : List ParentObservation
  parentLookupState : ParentLookupState
  parentSourcesAgree : Bool

/-- Fully materialized block ready for one atomic database transaction. -/
structure IndexedBlock where
  block : RpcBlock
  auxpow : Option VerifiedAuxPow
  fetchedAt : Timestamp
  rawBlock : Bytes
  raw : Json

end WcashExplorer
