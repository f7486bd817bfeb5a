import WcashExplorer.Calls
import WcashExplorer.Relational.Table

/-! The tables of the store, their keys and the constraints each row is checked against. -/
namespace WcashExplorer

open Relational

/-- `DateTime::<Utc>::from_timestamp(secs, 0)`. -/
def fromTimestamp (secs : Int) : Option Timestamp :=
  if -8334601228800 ≤ secs ∧ secs ≤ 8210266876799 then some (secs * microsPerSecond) else none

/-- `TIMESTAMPTZ` starts in 4713 BC, later than the clock library's own range. -/
def timestampStorable (t : Timestamp) : Bool := -210866803200 * microsPerSecond ≤ t

/-- A nullable column passes what its type or constraint asks of a value. -/
def nullOr {α : Type} (p : α → Bool) : Option α → Bool
  | some a => p a
  | none => true

@[simp] theorem nullOr_some {α : Type} (p : α → Bool) (a : α) : nullOr p (some a) = p a := rfl

@[simp] theorem nullOr_none {α : Type} (p : α → Bool) : nullOr p none = true := rfl

structure BlockRow where
  blockHash : Text
  networkId : Text
  height : Nat
  previousBlockHash : Option Text
  merkleRoot : Text
  blockCommitments : Option Text
  blockTime : Timestamp
  sizeBytes : Nat
  transactionCount : Nat
  bits : Text
  difficultyText : Text
  nonce : Text
  chainSupplyZat : Option Int
  firstSeenAt : Timestamp
  rawRpc : Json

def BlockRow.valid (r : BlockRow) : Bool :=
  isLowerHex 64 r.blockHash && r.networkId.storable && nullOr (isLowerHex 64) r.previousBlockHash &&
    isLowerHex 64 r.merkleRoot && nullOr (isLowerHex 64) r.blockCommitments &&
    timestampStorable r.blockTime && 0 < r.sizeBytes && isLowerHex 8 r.bits &&
    r.difficultyText.storable && r.nonce.storable && r.rawRpc.storable

structure BlockWitnessRow where
  blockHash : Text
  witnessHash : Text
  rawBlock : Bytes
  auxpowBytes : Option Bytes
  exactWitnessState : WitnessState
  witnessConfirmations : Option Nat
  localValidationState : ValidationState
  verifierVersion : Option Text
  indexedAt : Timestamp

namespace BlockWitnessRow

def key (r : BlockWitnessRow) : Text × Text := (r.blockHash, r.witnessHash)

def valid (r : BlockWitnessRow) : Bool := isLowerHex 64 r.witnessHash && !r.rawBlock.isEmpty

end BlockWitnessRow

structure CanonicalRow where
  networkId : Text
  height : Nat
  blockHash : Text
  witnessHash : Text
  deriving DecidableEq

def CanonicalRow.key (r : CanonicalRow) : Text × Nat := (r.networkId, r.height)

structure TransactionInstanceRow where
  transactionInstanceId : Nat
  txid : Text
  instanceDigest : Text
  authDigest : Option Text
  rawHash : Text
  rawTransaction : Option Bytes
  version : Int
  sizeBytes : Nat
  lockTime : Nat
  expiryHeight : Nat
  isCoinbase : Bool
  valueBalanceZat : Option Int
  saplingSpendCount : Nat
  saplingOutputCount : Nat
  orchardActionCount : Nat
  ironwoodActionCount : Nat
  rawRpc : Json

namespace TransactionInstanceRow

def key (r : TransactionInstanceRow) : Text × Text := (r.txid, r.instanceDigest)

def valid (r : TransactionInstanceRow) : Bool :=
  isLowerHex 64 r.txid && isLowerHex 64 r.instanceDigest && nullOr (isLowerHex 64) r.authDigest &&
    isLowerHex 64 r.rawHash && 0 < r.sizeBytes &&
    (if r.version < 5 then r.authDigest.isNone else r.authDigest.isSome) && r.rawRpc.storable

end TransactionInstanceRow

structure BlockTransactionRow where
  blockHash : Text
  witnessHash : Text
  txPosition : Nat
  transactionInstanceId : Nat
  deriving DecidableEq

def BlockTransactionRow.key (r : BlockTransactionRow) : Text × Text × Nat :=
  (r.blockHash, r.witnessHash, r.txPosition)

structure TransparentOutputRow where
  transactionInstanceId : Nat
  outputIndex : Nat
  valueZat : Int
  address : Option Text
  scriptType : Option Text
  scriptHex : Option Text
  deriving DecidableEq

namespace TransparentOutputRow

def key (r : TransparentOutputRow) : Nat × Nat := (r.transactionInstanceId, r.outputIndex)

def valid (r : TransparentOutputRow) : Bool :=
  0 ≤ r.valueZat && nullOr Text.storable r.address && nullOr Text.storable r.scriptType &&
    nullOr Text.storable r.scriptHex

end TransparentOutputRow

structure TransparentInputRow where
  transactionInstanceId : Nat
  inputIndex : Nat
  previousTxid : Option Text
  previousOutputIndex : Option Nat
  coinbaseData : Option Text
  sequence : Option Nat
  deriving DecidableEq

namespace TransparentInputRow

def key (r : TransparentInputRow) : Nat × Nat := (r.transactionInstanceId, r.inputIndex)

def valid (r : TransparentInputRow) : Bool :=
  nullOr (isLowerHex 64) r.previousTxid && nullOr Text.storable r.coinbaseData &&
    nullOr (fun s => s ≤ u32Max) r.sequence &&
    ((r.coinbaseData.isSome && r.previousTxid.isNone && r.previousOutputIndex.isNone) ||
      (r.coinbaseData.isNone && r.previousTxid.isSome && r.previousOutputIndex.isSome))

end TransparentInputRow

structure ValuePoolSnapshotRow where
  blockHash : Text
  witnessHash : Text
  poolId : Text
  chainValueZat : Option Int
  valueDeltaZat : Option Int
  monitored : Option Bool
  deriving DecidableEq

namespace ValuePoolSnapshotRow

def key (r : ValuePoolSnapshotRow) : Text × Text × Text := (r.blockHash, r.witnessHash, r.poolId)

def valid (r : ValuePoolSnapshotRow) : Bool := r.poolId.storable

end ValuePoolSnapshotRow

structure AuxpowLinkRow where
  blockHash : Text
  witnessHash : Text
  proofVersion : Nat
  proofSize : Nat
  parentBlockHash : Text
  parentHeaderBits : Text
  parentHashMeetsClaimedTarget : Bool
  parentCoinbaseTxid : Text
  parentMerkleDepth : Nat
  parentCoinbaseIndex : Nat
  authDataMerkleDepth : Nat
  authDataCoinbaseIndex : Nat
  auxiliaryMerkleDepth : Nat
  auxiliaryIndex : Nat
  parentLookupState : ParentLookupState
  parentSourcesAgree : Bool
  verifiedAt : Timestamp
  deriving DecidableEq

namespace AuxpowLinkRow

def key (r : AuxpowLinkRow) : Text × Text := (r.blockHash, r.witnessHash)

def valid (r : AuxpowLinkRow) : Bool :=
  0 < r.proofSize && isLowerHex 64 r.parentBlockHash && isLowerHex 8 r.parentHeaderBits &&
    isLowerHex 64 r.parentCoinbaseTxid

end AuxpowLinkRow

structure ParentObservationRow where
  blockHash : Text
  witnessHash : Text
  sourceName : Text
  observationState : ParentLookupState
  parentHeight : Option Nat
  parentConfirmations : Option Int
  parentTime : Option Timestamp
  parentBits : Option Text
  parentDifficultyText : Option Text
  embeddedHeaderMatches : Option Bool
  checkedAt : Timestamp
  deriving DecidableEq

namespace ParentObservationRow

def key (r : ParentObservationRow) : Text × Text × Text :=
  (r.blockHash, r.witnessHash, r.sourceName)

def valid (r : ParentObservationRow) : Bool :=
  r.sourceName.storable && nullOr timestampStorable r.parentTime &&
    nullOr Text.storable r.parentBits && nullOr Text.storable r.parentDifficultyText

end ParentObservationRow

structure ChainStateRow where
  networkId : Text
  indexedHeight : Option Nat := none
  indexedHash : Option Text := none
  indexedWitnessHash : Option Text := none
  nodeHeight : Option Nat := none
  nodeHash : Option Text := none
  status : ChainStatus := .starting
  lastError : Option Text := none
  updatedAt : Timestamp
  deriving DecidableEq

structure ReorgEventRow where
  eventId : Nat
  networkId : Text
  oldTipHeight : Nat
  oldTipHash : Text
  commonAncestorHeight : Option Nat
  commonAncestorHash : Option Text
  detectedAt : Timestamp
  completedAt : Option Timestamp
  deriving DecidableEq

/-- The store. Foreign keys hold by construction: no statement inserts a row before the rows
it refers to, and none deletes a row that others refer to. -/
structure Db where
  blocks : Table BlockRow BlockRow.blockHash := .empty
  blockWitnesses : Table BlockWitnessRow BlockWitnessRow.key := .empty
  canonicalChain : Table CanonicalRow CanonicalRow.key := .empty
  transactionInstances : Table TransactionInstanceRow TransactionInstanceRow.key := .empty
  nextTransactionInstanceId : Nat := 1
  blockTransactions : Table BlockTransactionRow BlockTransactionRow.key := .empty
  transparentOutputs : Table TransparentOutputRow TransparentOutputRow.key := .empty
  transparentInputs : Table TransparentInputRow TransparentInputRow.key := .empty
  valuePoolSnapshots : Table ValuePoolSnapshotRow ValuePoolSnapshotRow.key := .empty
  auxpowLinks : Table AuxpowLinkRow AuxpowLinkRow.key := .empty
  parentChainObservations : Table ParentObservationRow ParentObservationRow.key := .empty
  chainState : Table ChainStateRow ChainStateRow.networkId := .empty
  reorgEvents : Table ReorgEventRow ReorgEventRow.eventId := .empty

end WcashExplorer
