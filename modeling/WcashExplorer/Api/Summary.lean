import Mathlib.Data.Prod.Lex
import WcashExplorer.Db.Database
import WcashExplorer.Indexer
import WcashExplorer.Relational.Keyset

/-! The block and transaction lists of the API: their queries and the rows they present. -/
namespace WcashExplorer

open Relational

/-- A configured network with its presentation settings. -/
structure NetworkProfile extends NetworkConfig where
  symbol : Text
  decimals : Nat
  coinbaseMaturity : Nat

structure AmountView where
  zatoshi : Text
  decimal : Text
  symbol : Text

/-- `amount`: an exact decimal string. -/
def amount (network : NetworkProfile) (zatoshi : Int) : AmountView :=
  let divisor := 10 ^ network.decimals
  let sign : Text := if zatoshi < 0 then ['-'] else []
  let fractional := Nat.toDigits 10 (zatoshi.natAbs % divisor)
  { zatoshi := sign ++ Nat.toDigits 10 zatoshi.natAbs
    decimal := sign ++ Nat.toDigits 10 (zatoshi.natAbs / divisor) ++ '.' ::
      (List.replicate (network.decimals - fractional.length) '0' ++ fractional)
    symbol := network.symbol }

/-- The range of a `BIGINT`. -/
def InBigint (z : Int) : Prop := -(2 : Int) ^ 63 ≤ z ∧ z ≤ i64Max

instance (z : Int) : Decidable (InBigint z) := inferInstanceAs (Decidable (_ ∧ _))

/-- `z::BIGINT`. A statement that leaves the range fails as a whole. -/
def asBigint (z : Int) : Result Int := if InBigint z then .ok z else .error .database

theorem asBigint_eq_ok {z : Int} (h : InBigint z) : asBigint z = .ok z := if_pos h

/-- The row of a primary key. -/
def instanceById (db : Db) (id : Nat) : Option TransactionInstanceRow :=
  db.transactionInstances.rows.find? fun r => r.transactionInstanceId = id

/-- The outputs of an instance, in storage order. -/
def instanceOutputs (db : Db) (id : Nat) : List TransparentOutputRow :=
  db.transparentOutputs.rows.filter fun o => o.transactionInstanceId = id

/-- The placements of a witness, in storage order. -/
def witnessPlacements (db : Db) (c : CanonicalRow) : List BlockTransactionRow :=
  db.blockTransactions.rows.filter fun r =>
    r.blockHash = c.blockHash && r.witnessHash = c.witnessHash

section Blocks

/-- The supply at the end of the canonical predecessor. -/
def previousSupply (db : Db) (c : CanonicalRow) : Option Int :=
  match c.height with
  | 0 => none
  | below + 1 => do
    let previous ← db.canonicalChain.find? (c.networkId, below)
    let block ← db.blocks.find? previous.blockHash
    block.chainSupplyZat

/-- The values of the outputs of a witness's coinbase transactions. -/
def coinbaseValues (db : Db) (c : CanonicalRow) : List Int :=
  (witnessPlacements db c).flatMap fun r =>
    match instanceById db r.transactionInstanceId with
    | some t => if t.isCoinbase then (instanceOutputs db t.transactionInstanceId).map
        TransparentOutputRow.valueZat else []
    | none => []

/-- The new supply, or what the coinbase pays where the node reported no supply. -/
def rewardZat (db : Db) (c : CanonicalRow) (b : BlockRow) : Int :=
  match b.chainSupplyZat with
  | some supply => supply - (previousSupply db c).getD 0
  | none => (coinbaseValues db c).sum

/-- Confirmations on the canonical chain; the row's own height is at most its tip's. -/
def chainConfirmations (db : Db) (c : CanonicalRow) : Int :=
  (((tipRow db c.networkId).map CanonicalRow.height).getD c.height : Int) - c.height + 1

/-- The observations that found the parent on the best chain. -/
def canonicalObservations (db : Db) (c : CanonicalRow) : List ParentObservationRow :=
  db.parentChainObservations.rows.filter fun p =>
    p.blockHash = c.blockHash && p.witnessHash = c.witnessHash && p.observationState = .canonical

structure BlockSummaryRow where
  height : Nat
  hash : Text
  witnessHash : Text
  blockTime : Timestamp
  sizeBytes : Nat
  transactionCount : Nat
  bits : Text
  difficultyText : Text
  rewardZat : Int
  exactWitnessState : WitnessState
  witnessConfirmations : Option Int
  localValidationState : ValidationState
  parentBlockHash : Option Text
  parentLookupState : Option ParentLookupState
  parentSourcesAgree : Option Bool
  parentHeight : Option Nat
  parentConfirmations : Option Int

/-- The row of one canonical block with its witness, and its proof if it has one. -/
def blockSummaryRow (db : Db) (c : CanonicalRow) (b : BlockRow) (w : BlockWitnessRow) :
    Result BlockSummaryRow := do
  let reward ← asBigint (rewardZat db c b)
  let confirmations ← asBigint (chainConfirmations db c)
  let a := db.auxpowLinks.find? (c.blockHash, c.witnessHash)
  let observations := canonicalObservations db c
  .ok
    { height := c.height
      hash := c.blockHash
      witnessHash := c.witnessHash
      blockTime := b.blockTime
      sizeBytes := b.sizeBytes
      transactionCount := b.transactionCount
      bits := b.bits
      difficultyText := b.difficultyText
      rewardZat := reward
      exactWitnessState := w.exactWitnessState
      witnessConfirmations := some confirmations
      localValidationState := w.localValidationState
      parentBlockHash := a.map AuxpowLinkRow.parentBlockHash
      parentLookupState := a.map AuxpowLinkRow.parentLookupState
      parentSourcesAgree := a.map AuxpowLinkRow.parentSourcesAgree
      parentHeight := (observations.filterMap ParentObservationRow.parentHeight).max?
      parentConfirmations := (observations.filterMap ParentObservationRow.parentConfirmations).max? }

/-- A block where the canonical chain selects it, with its witness. -/
abbrev ChainBlock : Type := CanonicalRow × BlockRow × BlockWitnessRow

/-- `canonical_chain JOIN blocks JOIN block_witnesses`. -/
def chainBlocks (db : Db) (networkId : Text) : List ChainBlock :=
  (canonicalRows db networkId).filterMap fun c => do
    let b ← db.blocks.find? c.blockHash
    let w ← db.blockWitnesses.find? (c.blockHash, c.witnessHash)
    some (c, b, w)

/-- `BLOCK_SUMMARY_QUERY`. -/
def blockSummaryQuery (db : Db) (networkId : Text) (before : Option Nat) (limit : Nat) :
    Result (List BlockSummaryRow) :=
  ((below (fun x => x.1.height) before (chainBlocks db networkId)).take limit).mapM
    fun (c, b, w) => blockSummaryRow db c b w

structure MergeMiningSummary where
  exactWitnessState : WitnessState
  localValidationState : ValidationState
  parentBlockHash : Option Text
  parentLookupState : Text
  parentSourcesAgree : Bool
  parentHeight : Option Nat
  parentConfirmations : Option Nat

structure BlockSummary where
  height : Nat
  hash : Text
  witnessHash : Text
  time : Timestamp
  sizeBytes : Nat
  transactionCount : Nat
  bits : Text
  difficulty : Text
  reward : AmountView
  confirmations : Nat
  mergeMining : MergeMiningSummary

/-- `BlockSummary::from_row`. -/
def BlockSummary.fromRow (network : NetworkProfile) (row : BlockSummaryRow) : BlockSummary where
  height := row.height
  hash := row.hash
  witnessHash := row.witnessHash
  time := row.blockTime
  sizeBytes := row.sizeBytes
  transactionCount := row.transactionCount
  bits := row.bits
  difficulty := row.difficultyText
  reward := amount network row.rewardZat
  confirmations := (row.witnessConfirmations.getD 0).toNat
  mergeMining :=
    { exactWitnessState := row.exactWitnessState
      localValidationState := row.localValidationState
      parentBlockHash := row.parentBlockHash
      parentLookupState := ((row.parentLookupState.map ParentLookupState.asStr).getD
        "genesis").toList
      parentSourcesAgree := row.parentSourcesAgree.getD false
      parentHeight := row.parentHeight
      parentConfirmations := row.parentConfirmations.bind fun c =>
        if 0 ≤ c then some c.toNat else none }

end Blocks

section Transactions

/-- A transaction where the canonical chain places it. -/
structure ChainTransaction where
  selector : CanonicalRow
  block : BlockRow
  placement : BlockTransactionRow
  stored : TransactionInstanceRow

/-- The transactions under one selected row. -/
def selectedTransactions (db : Db) (c : CanonicalRow) : List ChainTransaction :=
  match db.blocks.find? c.blockHash with
  | some b => (witnessPlacements db c).filterMap fun r =>
      (instanceById db r.transactionInstanceId).map fun t => ⟨c, b, r, t⟩
  | none => []

/-- `canonical_chain JOIN blocks JOIN block_transactions JOIN transaction_instances`. -/
def chainTransactions (db : Db) (networkId : Text) : List ChainTransaction :=
  (canonicalRows db networkId).flatMap (selectedTransactions db)

/-- Chain order: by height, and within a block by position. -/
def ChainTransaction.order (x : ChainTransaction) : Lex (Nat × Nat) :=
  toLex (x.selector.height, x.placement.txPosition)

/-- The values the public outputs of an instance add up to. -/
def publicOutputZat (db : Db) (id : Nat) : Int :=
  ((instanceOutputs db id).map TransparentOutputRow.valueZat).sum

structure TransactionSummaryRow where
  transactionInstanceId : Nat
  txid : Text
  instanceDigest : Text
  authDigest : Option Text
  version : Int
  sizeBytes : Nat
  isCoinbase : Bool
  feeZat : Option Int
  valueBalanceZat : Option Int
  saplingSpendCount : Nat
  saplingOutputCount : Nat
  orchardActionCount : Nat
  ironwoodActionCount : Nat
  blockHeight : Nat
  blockHash : Text
  blockTime : Timestamp
  txPosition : Nat
  transparentInputCount : Nat
  transparentOutputCount : Nat
  publicOutputZat : Int

/-- The row of one canonical transaction. No statement writes the fee column. -/
def transactionSummaryRow (db : Db) (x : ChainTransaction) : Result TransactionSummaryRow := do
  let t := x.stored
  let publicOutputZat ← asBigint (publicOutputZat db t.transactionInstanceId)
  .ok
    { transactionInstanceId := t.transactionInstanceId
      txid := t.txid
      instanceDigest := t.instanceDigest
      authDigest := t.authDigest
      version := t.version
      sizeBytes := t.sizeBytes
      isCoinbase := t.isCoinbase
      feeZat := none
      valueBalanceZat := t.valueBalanceZat
      saplingSpendCount := t.saplingSpendCount
      saplingOutputCount := t.saplingOutputCount
      orchardActionCount := t.orchardActionCount
      ironwoodActionCount := t.ironwoodActionCount
      blockHeight := x.selector.height
      blockHash := x.selector.blockHash
      blockTime := x.block.blockTime
      txPosition := x.placement.txPosition
      transparentInputCount := (db.transparentInputs.rows.filter fun i =>
        i.transactionInstanceId = t.transactionInstanceId).length
      transparentOutputCount := (instanceOutputs db t.transactionInstanceId).length
      publicOutputZat }

/-- `TRANSACTION_SUMMARY_QUERY`; the keyset predicate is the strict lexicographic order. -/
def transactionSummaryQuery (db : Db) (networkId : Text) (before : Option (Nat × Nat))
    (limit : Nat) : Result (List TransactionSummaryRow) :=
  ((below ChainTransaction.order (before.map toLex) (chainTransactions db networkId)).take
    limit).mapM (transactionSummaryRow db)

inductive TransactionKind
  | coinbase
  | mixed
  | shielded
  | transparent
  deriving DecidableEq, Repr

/-- What the instance digest of a transaction is: `consensus-auth-digest` or
`explorer-raw-hash`. -/
inductive InstanceDigestKind
  | consensusAuthDigest
  | explorerRawHash
  deriving DecidableEq, Repr

structure TransactionSummary where
  txid : Text
  instanceDigest : Text
  instanceDigestKind : InstanceDigestKind
  authDigest : Option Text
  version : Int
  sizeBytes : Nat
  isCoinbase : Bool
  kind : TransactionKind
  fee : Option AmountView
  publicOutputValue : AmountView
  valueBalance : Option AmountView
  transparentInputCount : Nat
  transparentOutputCount : Nat
  saplingSpendCount : Nat
  saplingOutputCount : Nat
  orchardActionCount : Nat
  ironwoodActionCount : Nat
  blockHeight : Nat
  blockHash : Text
  blockTime : Timestamp
  position : Nat

/-- `TransactionSummary::from_row`. -/
def TransactionSummary.fromRow (network : NetworkProfile) (row : TransactionSummaryRow) :
    TransactionSummary :=
  let hasTransparent := 0 < row.transparentInputCount || 0 < row.transparentOutputCount
  let hasShielded := 0 < row.saplingSpendCount || 0 < row.saplingOutputCount ||
    0 < row.orchardActionCount || 0 < row.ironwoodActionCount
  { txid := row.txid
    instanceDigest := row.instanceDigest
    instanceDigestKind := if 5 ≤ row.version then .consensusAuthDigest else .explorerRawHash
    authDigest := row.authDigest
    version := row.version
    sizeBytes := row.sizeBytes
    isCoinbase := row.isCoinbase
    kind :=
      if row.isCoinbase then .coinbase
      else if hasTransparent && hasShielded then .mixed
      else if hasShielded then .shielded
      else .transparent
    fee := row.feeZat.map (amount network)
    publicOutputValue := amount network row.publicOutputZat
    valueBalance := row.valueBalanceZat.map (amount network)
    transparentInputCount := row.transparentInputCount
    transparentOutputCount := row.transparentOutputCount
    saplingSpendCount := row.saplingSpendCount
    saplingOutputCount := row.saplingOutputCount
    orchardActionCount := row.orchardActionCount
    ironwoodActionCount := row.ironwoodActionCount
    blockHeight := row.blockHeight
    blockHash := row.blockHash
    blockTime := row.blockTime
    position := row.txPosition }

end Transactions

end WcashExplorer
