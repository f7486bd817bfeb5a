import Mathlib.Data.Char
import Mathlib.Data.List.Lex
import WcashExplorer.Api.Summary
import WcashExplorer.Relational.Grouping

/-! The two queries of the address page: the balances, and the activity with its running balance. -/
namespace WcashExplorer

open Relational

/-- The rows of a selection a column of which is cast to `BIGINT`. -/
def castBigint {ρ : Type} (column : ρ → Int) (rows : List ρ) : Result (List ρ) :=
  if ∀ r ∈ rows, InBigint (column r) then .ok rows else .error .database

theorem castBigint_eq_ok_iff {ρ : Type} {column : ρ → Int} {rows rows' : List ρ} :
    castBigint column rows = .ok rows' ↔ (∀ r ∈ rows, InBigint (column r)) ∧ rows = rows' := by
  unfold castBigint
  split <;> simp_all

theorem asBigint_eq_ok_iff {z w : Int} : asBigint z = .ok w ↔ InBigint z ∧ z = w := by
  unfold asBigint
  split <;> simp_all

/-- `NUMERIC::TEXT` of a whole number. -/
def numericText (z : Int) : Text :=
  (if z < 0 then ['-'] else []) ++ Nat.toDigits 10 z.natAbs

section Rows

/-- The inputs of an instance, in storage order. -/
def instanceInputs (db : Db) (id : Nat) : List TransparentInputRow :=
  db.transparentInputs.rows.filter fun i => i.transactionInstanceId = id

/-- What an input spends. A null column joins nothing. -/
def TransparentInputRow.prevout (i : TransparentInputRow) : Option (Text × Nat) :=
  match i.previousTxid, i.previousOutputIndex with
  | some txid, some index => some (txid, index)
  | _, _ => none

/-- An output, and the canonical transaction that makes it. -/
structure ChainOutput where
  maker : ChainTransaction
  output : TransparentOutputRow

/-- What spends an output joins on its transaction id, not on the instance. -/
def ChainOutput.outpoint (y : ChainOutput) : Text × Nat :=
  (y.maker.stored.txid, y.output.outputIndex)

def ChainOutput.value (y : ChainOutput) : Int := y.output.valueZat

/-- `transparent_outputs` joined with the canonical transactions. -/
def chainOutputs (db : Db) (networkId : Text) : List ChainOutput :=
  (chainTransactions db networkId).flatMap fun x =>
    (instanceOutputs db x.stored.transactionInstanceId).map fun o => ⟨x, o⟩

/-- `owned_outputs`. -/
def ownedOutputs (db : Db) (networkId address : Text) : List ChainOutput :=
  (chainOutputs db networkId).filter fun y => y.output.address = some address

end Rows

section Balance

/-- An input, where the canonical chain places its transaction. -/
structure PlacedInput where
  selector : CanonicalRow
  placement : BlockTransactionRow
  input : TransparentInputRow

/-- `transparent_inputs JOIN block_transactions JOIN canonical_chain`. -/
def placedInputs (db : Db) (networkId : Text) : List PlacedInput :=
  (canonicalRows db networkId).flatMap fun c => (witnessPlacements db c).flatMap fun r =>
    (instanceInputs db r.transactionInstanceId).map fun i => ⟨c, r, i⟩

/-- `owned_outputs` joined with the canonical inputs that spend them. -/
def ownedSpends (db : Db) (networkId address : Text) : List (ChainOutput × PlacedInput) :=
  join (fun y z => z.input.prevout = some y.outpoint) (ownedOutputs db networkId address)
    (placedInputs db networkId)

/-- `COALESCE(spend_count, 0)`, the size of the output's group in `canonical_spends`. -/
def spendCount (db : Db) (networkId address : Text) (y : ChainOutput) : Nat :=
  (group (fun s => s.1.outpoint) y.outpoint (ownedSpends db networkId address)).length

structure EventKey where
  blockHash : Text
  witnessHash : Text
  txPosition : Nat
  height : Nat
  blockTime : Timestamp
  deriving DecidableEq

def eventKey (c : CanonicalRow) (b : BlockRow) (r : BlockTransactionRow) : EventKey where
  blockHash := c.blockHash
  witnessHash := c.witnessHash
  txPosition := r.txPosition
  height := c.height
  blockTime := b.blockTime

/-- `event_keys`; a `UNION` holds each row once. -/
def eventKeys (db : Db) (networkId address : Text) : List EventKey :=
  ((ownedOutputs db networkId address).map (fun y =>
      eventKey y.maker.selector y.maker.block y.maker.placement) ++
    (ownedSpends db networkId address).filterMap fun (_, z) =>
      (db.blocks.find? z.selector.blockHash).map fun b =>
        eventKey z.selector b z.placement).dedup

/-- The order of the first and last event. -/
def EventKey.order (k : EventKey) : Lex (Nat × Lex (Nat × Text)) :=
  toLex (k.height, toLex (k.txPosition, k.blockHash))

structure AddressBalanceRow where
  addressExists : Bool
  totalReceivedZat : Text
  totalSpentZat : Text
  balanceZat : Int
  immatureCoinbaseZat : Int
  matureCoinbaseZat : Int
  nonCoinbaseUnspentZat : Int
  utxoCount : Nat
  minedOutputCount : Nat
  minedTransactionCount : Nat
  transactionCount : Nat
  firstSeenHeight : Option Nat
  lastSeenHeight : Option Nat
  firstSeenAt : Option Timestamp
  lastSeenAt : Option Timestamp
  canonicalDoubleSpendAnomalies : Int

/-- `SUM(value_zat) FILTER (WHERE p)`, zero for no row. -/
def sumWhere (p : ChainOutput → Bool) (rows : List ChainOutput) : Int :=
  ((rows.filter p).map ChainOutput.value).sum

/-- `ADDRESS_BALANCE_QUERY`. -/
def addressBalanceQuery (db : Db) (networkId address : Text) (tip coinbaseMaturity : Nat) :
    Result AddressBalanceRow := do
  let owned := ownedOutputs db networkId address
  let spends := spendCount db networkId address
  let keys := eventKeys db networkId address
  let unspent (y : ChainOutput) : Bool := spends y = 0
  let isCoinbase (y : ChainOutput) : Bool := y.maker.stored.isCoinbase
  let confirmations (y : ChainOutput) : Int := (tip : Int) - y.maker.selector.height + 1
  let first := (orderBy EventKey.order keys).head?
  let last := (orderBy (fun k => OrderDual.toDual k.order) keys).head?
  let _ ← castBigint confirmations (owned.filter fun y => unspent y && isCoinbase y)
  let balanceZat ← asBigint (sumWhere unspent owned)
  let immatureCoinbaseZat ← asBigint (sumWhere (fun y =>
    unspent y && isCoinbase y && confirmations y < coinbaseMaturity) owned)
  let matureCoinbaseZat ← asBigint (sumWhere (fun y =>
    unspent y && isCoinbase y && (coinbaseMaturity : Int) ≤ confirmations y) owned)
  let nonCoinbaseUnspentZat ← asBigint (sumWhere (fun y => unspent y && !isCoinbase y) owned)
  let canonicalDoubleSpendAnomalies ← asBigint
    (owned.map fun y => max ((spends y : Int) - 1) 0).sum
  .ok
    { addressExists := 0 < owned.length
      totalReceivedZat := numericText (owned.map ChainOutput.value).sum
      totalSpentZat := numericText (sumWhere (fun y => 0 < spends y) owned)
      balanceZat
      immatureCoinbaseZat
      matureCoinbaseZat
      nonCoinbaseUnspentZat
      utxoCount := (owned.filter unspent).length
      minedOutputCount := (owned.filter isCoinbase).length
      minedTransactionCount := ((owned.filter isCoinbase).map fun y =>
        (y.maker.selector.blockHash, y.maker.selector.witnessHash,
          y.maker.placement.txPosition)).dedup.length
      transactionCount := keys.length
      firstSeenHeight := first.map EventKey.height
      lastSeenHeight := last.map EventKey.height
      firstSeenAt := first.map EventKey.blockTime
      lastSeenAt := last.map EventKey.blockTime
      canonicalDoubleSpendAnomalies }

end Balance

section Activity

/-- An input, and the canonical transaction it belongs to. -/
structure ChainInput where
  spender : ChainTransaction
  input : TransparentInputRow

/-- `transparent_inputs` joined with the canonical transactions. -/
def chainInputs (db : Db) (networkId : Text) : List ChainInput :=
  (chainTransactions db networkId).flatMap fun x =>
    (instanceInputs db x.stored.transactionInstanceId).map fun i => ⟨x, i⟩

/-- `owned_outputs` joined with the canonical transactions that spend them, once per input. -/
def ownedSpenders (db : Db) (networkId address : Text) : List (ChainOutput × ChainInput) :=
  join (fun y z => z.input.prevout = some y.outpoint) (ownedOutputs db networkId address)
    (chainInputs db networkId)

/-- The columns `activity` is grouped by. -/
structure ActivityKey where
  height : Nat
  blockHash : Text
  witnessHash : Text
  blockTime : Timestamp
  txPosition : Nat
  txid : Text
  instanceDigest : Text
  authDigest : Option Text
  deriving DecidableEq

def ChainTransaction.activityKey (x : ChainTransaction) : ActivityKey where
  height := x.selector.height
  blockHash := x.selector.blockHash
  witnessHash := x.selector.witnessHash
  blockTime := x.block.blockTime
  txPosition := x.placement.txPosition
  txid := x.stored.txid
  instanceDigest := x.stored.instanceDigest
  authDigest := x.stored.authDigest

/-- A row of `deltas`, and of `activity`. -/
structure DeltaRow where
  key : ActivityKey
  isCoinbase : Bool
  receivedZat : Int
  spentZat : Int

/-- What each transaction pays the address. -/
def receipts (db : Db) (networkId address : Text) : List DeltaRow :=
  (groupBy (fun y => (y.maker.activityKey, y.maker.stored.isCoinbase))
    (ownedOutputs db networkId address)).map fun g =>
      ⟨g.1.1, g.1.2, (g.2.map ChainOutput.value).sum, 0⟩

/-- What each transaction spends of the address. -/
def expenses (db : Db) (networkId address : Text) : List DeltaRow :=
  (groupBy (fun s => (s.2.spender.activityKey, s.2.spender.stored.isCoinbase))
    (ownedSpenders db networkId address)).map fun g =>
      ⟨g.1.1, g.1.2, 0, (g.2.map fun s => s.1.value).sum⟩

/-- `deltas`. -/
def deltas (db : Db) (networkId address : Text) : List DeltaRow :=
  receipts db networkId address ++ expenses db networkId address

/-- `activity`: the deltas of each transaction together. -/
def activity (rows : List DeltaRow) : List DeltaRow :=
  (groupBy DeltaRow.key rows).map fun g =>
    { key := g.1
      isCoinbase := g.2.any DeltaRow.isCoinbase
      receivedZat := (g.2.map DeltaRow.receivedZat).sum
      spentZat := (g.2.map DeltaRow.spentZat).sum }

def DeltaRow.netZat (r : DeltaRow) : Int := r.receivedZat - r.spentZat

/-- The order of the running sum. -/
def ActivityKey.order (k : ActivityKey) : Lex (Nat × Lex (Nat × Lex (Text × Text))) :=
  toLex (k.height, toLex (k.txPosition, toLex (k.txid, k.instanceDigest)))

/-- The sum of the net columns up to a row, with its peers. -/
def balanceAfter (rows : List DeltaRow) (r : DeltaRow) : Int :=
  ((rows.filter fun s => s.key.order ≤ r.key.order).map DeltaRow.netZat).sum

/-- Chain order. -/
def ActivityKey.place (k : ActivityKey) : Lex (Nat × Nat) := toLex (k.height, k.txPosition)

structure AddressActivityRow where
  key : ActivityKey
  isCoinbase : Bool
  receivedZat : Int
  spentZat : Int
  netZat : Int
  balanceAfterZat : Int

/-- `running`. -/
def running (rows : List DeltaRow) : List AddressActivityRow :=
  rows.map fun r =>
    { key := r.key
      isCoinbase := r.isCoinbase
      receivedZat := r.receivedZat
      spentZat := r.spentZat
      netZat := r.netZat
      balanceAfterZat := balanceAfter rows r }

/-- The rows of `ADDRESS_ACTIVITY_QUERY` before its limit, newest first. -/
def addressActivityRows (db : Db) (networkId address : Text) :
    Result (List AddressActivityRow) := do
  let deltas ← castBigint DeltaRow.receivedZat (deltas db networkId address)
  let deltas ← castBigint DeltaRow.spentZat deltas
  let activity ← castBigint DeltaRow.receivedZat (activity deltas)
  let activity ← castBigint DeltaRow.spentZat activity
  let running ← castBigint AddressActivityRow.netZat (running activity)
  let running ← castBigint AddressActivityRow.balanceAfterZat running
  .ok (orderBy (fun r => OrderDual.toDual r.key.place) running)

/-- `ADDRESS_ACTIVITY_QUERY`. -/
def addressActivityQuery (db : Db) (networkId address : Text) :
    Result (List AddressActivityRow) :=
  (addressActivityRows db networkId address).map fun rows => rows.take 100

end Activity

end WcashExplorer
