import WcashExplorer.Api.Address

/-! The rich list and the current address statistics. -/
namespace WcashExplorer

open Relational

section Outputs

/-- An output that pays an address, and the transaction that makes it. -/
structure AddressedOutput where
  address : Text
  tx : TransactionInstanceRow
  output : TransparentOutputRow

def AddressedOutput.value (y : AddressedOutput) : Int := y.output.valueZat

/-- The condition `spent_prevouts` is joined on. -/
def AddressedOutput.spentBy (y : AddressedOutput) (s : Text × Option Nat) : Bool :=
  s.1 = y.tx.txid && s.2 = some y.output.outputIndex

/-- `canonical_tx JOIN transparent_outputs`, where an address was decoded. -/
def addressedOutputs (db : Db) (txs : List TransactionInstanceRow) : List AddressedOutput :=
  txs.flatMap fun t => (instanceOutputs db t.transactionInstanceId).filterMap fun o =>
    o.address.map fun a => ⟨a, t, o⟩

/-- `spent_prevouts`. -/
def spentPrevouts (db : Db) (txs : List TransactionInstanceRow) : List (Text × Option Nat) :=
  ((txs.flatMap fun t => instanceInputs db t.transactionInstanceId).filterMap fun i =>
    i.previousTxid.map fun txid => (txid, i.previousOutputIndex)).dedup

/-- What a group of outputs is worth. -/
def groupValue (g : Text × List AddressedOutput) : Int := (g.2.map AddressedOutput.value).sum

/-- The groups of `utxos` of the rich list and of `balances` of the statistics: the outputs of an
address that no row of `spent_prevouts` joins, where they are worth something. -/
def utxos (db : Db) (txs : List TransactionInstanceRow) : List (Text × List AddressedOutput) :=
  (groupBy AddressedOutput.address ((addressedOutputs db txs).filter fun y =>
    !(spentPrevouts db txs).any y.spentBy)).filter fun g => 0 < groupValue g

end Outputs

section RichList

structure ActivityEvent where
  address : Text
  height : Nat
  blockTime : Timestamp
  txPosition : Nat
  transactionInstanceId : Nat
  deriving DecidableEq

def ChainTransaction.activityEvent (x : ChainTransaction) (address : Text) : ActivityEvent where
  address
  height := x.selector.height
  blockTime := x.block.blockTime
  txPosition := x.placement.txPosition
  transactionInstanceId := x.stored.transactionInstanceId

/-- The outputs an input of a canonical transaction spends, with their decoded addresses. -/
def previousAddresses (db : Db) (txs : List ChainTransaction) (i : TransparentInputRow) :
    List Text :=
  (txs.filter fun y => i.previousTxid = some y.stored.txid).flatMap fun y =>
    ((instanceOutputs db y.stored.transactionInstanceId).filter fun o =>
      i.previousOutputIndex = some o.outputIndex).filterMap TransparentOutputRow.address

/-- `activity_events`; a `UNION` holds each row once. -/
def activityEvents (db : Db) (txs : List ChainTransaction) : List ActivityEvent :=
  ((txs.flatMap fun x => (instanceOutputs db x.stored.transactionInstanceId).filterMap fun o =>
      o.address.map x.activityEvent) ++
    txs.flatMap fun x => (instanceInputs db x.stored.transactionInstanceId).flatMap fun i =>
      (previousAddresses db txs i).map x.activityEvent).dedup

/-- The order of `ARRAY_AGG`, latest last. -/
def ActivityEvent.order (e : ActivityEvent) : Lex (Nat × Lex (Nat × Nat)) :=
  toLex (e.height, toLex (e.txPosition, e.transactionInstanceId))

/-- A row of `balances`. -/
structure RichBalance where
  address : Text
  balanceZat : Int
  utxoCount : Nat
  totalReceivedZat : Int
  totalSentZat : Int
  transactionCount : Nat
  firstSeenHeight : Option Nat
  lastSeenHeight : Option Nat
  lastSeenAt : Option Timestamp

/-- `utxos JOIN received LEFT JOIN spent LEFT JOIN activity`, for the given groups of `utxos`. -/
def richBalances (db : Db) (txs : List ChainTransaction) (utxos : List (Text × List AddressedOutput)) :
    List RichBalance :=
  let instances := txs.map ChainTransaction.stored
  let outputs := addressedOutputs db instances
  let received := groupBy AddressedOutput.address outputs
  let spent := groupBy (fun s => s.1.address)
    (join AddressedOutput.spentBy outputs (spentPrevouts db instances))
  let activity := groupBy ActivityEvent.address (activityEvents db txs)
  utxos.filterMap fun u => (received.find? fun r => r.1 = u.1).map fun r =>
    let s := (spent.find? fun s => s.1 = u.1).map Prod.snd
    let a := (activity.find? fun a => a.1 = u.1).map Prod.snd
    { address := u.1
      balanceZat := groupValue u
      utxoCount := u.2.length
      totalReceivedZat := groupValue r
      totalSentZat := (s.map fun rows => (rows.map fun s => s.1.value).sum).getD 0
      transactionCount := (a.map List.length).getD 0
      firstSeenHeight := a.bind fun rows => (rows.map ActivityEvent.height).min?
      lastSeenHeight := a.bind fun rows => (rows.map ActivityEvent.height).max?
      lastSeenAt := a.bind fun rows =>
        (orderBy (fun e => OrderDual.toDual e.order) rows).head?.map ActivityEvent.blockTime }

/-- `ROW_NUMBER() OVER (ORDER BY balance_zat DESC, address)`, addresses in the order of the
database's collation. -/
def ranked (collation : LinearOrder Text) (rows : List RichBalance) : List (RichBalance × Nat) :=
  letI := collation
  (orderBy (fun b => toLex (OrderDual.toDual b.balanceZat, b.address)) rows).zipIdx 1

structure RichListRow where
  rank : Nat
  address : Text
  balanceZat : Int
  totalReceivedZat : Text
  totalSentZat : Text
  utxoCount : Nat
  transactionCount : Nat
  firstSeenHeight : Option Nat
  lastSeenHeight : Option Nat
  lastSeenAt : Option Timestamp
  fundedAddressCount : Nat
  addressedBalanceZat : Int
  top1Zat : Int
  top10Zat : Int
  top100Zat : Int

structure RichListTotals where
  fundedAddressCount : Nat := 0
  addressedBalanceZat : Int := 0
  top1Zat : Int := 0
  top10Zat : Int := 0
  top100Zat : Int := 0

/-- `SUM(balance_zat) FILTER (WHERE rank <= n) OVER ()`. -/
def topZat (n : Nat) (rows : List (RichBalance × Nat)) : Int :=
  ((rows.filter fun r => r.2 ≤ n).map fun r => r.1.balanceZat).sum

/-- The columns over the whole window. -/
def windowTotals (rows : List (RichBalance × Nat)) : Result RichListTotals := do
  let addressedBalanceZat ← asBigint (rows.map fun r => r.1.balanceZat).sum
  let top1Zat ← asBigint (topZat 1 rows)
  let top10Zat ← asBigint (topZat 10 rows)
  let top100Zat ← asBigint (topZat 100 rows)
  .ok { fundedAddressCount := rows.length, addressedBalanceZat, top1Zat, top10Zat, top100Zat }

def richListRow (totals : RichListTotals) (r : RichBalance × Nat) : RichListRow where
  rank := r.2
  address := r.1.address
  balanceZat := r.1.balanceZat
  totalReceivedZat := numericText r.1.totalReceivedZat
  totalSentZat := numericText r.1.totalSentZat
  utxoCount := r.1.utxoCount
  transactionCount := r.1.transactionCount
  firstSeenHeight := r.1.firstSeenHeight
  lastSeenHeight := r.1.lastSeenHeight
  lastSeenAt := r.1.lastSeenAt
  fundedAddressCount := totals.fundedAddressCount
  addressedBalanceZat := totals.addressedBalanceZat
  top1Zat := totals.top1Zat
  top10Zat := totals.top10Zat
  top100Zat := totals.top100Zat

/-- The rows of `RICH_LIST_QUERY` before its limit. -/
def richListRows (collation : LinearOrder Text) (db : Db) (networkId : Text) :
    Result (List RichListRow) := do
  let txs := chainTransactions db networkId
  let utxos ← castBigint groupValue (utxos db (txs.map ChainTransaction.stored))
  let rows := ranked collation (richBalances db txs utxos)
  let totals ← windowTotals rows
  .ok (rows.map (richListRow totals))

/-- `RICH_LIST_QUERY`. -/
def richListQuery (collation : LinearOrder Text) (db : Db) (networkId : Text) (limit : Nat) :
    Result (List RichListRow) :=
  (richListRows collation db networkId).map fun rows => rows.take limit

/-- The totals of `rich_list`, read off its first row. -/
def richListTotals (rows : List RichListRow) : RichListTotals :=
  match rows with
  | [] => {}
  | row :: _ =>
    { fundedAddressCount := row.fundedAddressCount
      addressedBalanceZat := row.addressedBalanceZat
      top1Zat := row.top1Zat
      top10Zat := row.top10Zat
      top100Zat := row.top100Zat }

end RichList

section CurrentStats

/-- The instances the canonical chain places, without a look at the blocks. -/
def placedInstances (db : Db) (networkId : Text) : List TransactionInstanceRow :=
  (canonicalRows db networkId).flatMap fun c => (witnessPlacements db c).filterMap fun r =>
    instanceById db r.transactionInstanceId

structure CurrentAddressStatsRow where
  fundedAddressCount : Nat
  seenAddressCount : Nat
  addressedBalanceZat : Int

/-- `CURRENT_ADDRESS_STATS_QUERY`. -/
def currentAddressStatsQuery (db : Db) (networkId : Text) : Result CurrentAddressStatsRow := do
  let txs := placedInstances db networkId
  let balances ← castBigint groupValue (utxos db txs)
  let addressedBalanceZat ← asBigint (balances.map groupValue).sum
  .ok
    { fundedAddressCount := balances.length
      seenAddressCount := ((addressedOutputs db txs).map AddressedOutput.address).dedup.length
      addressedBalanceZat }

end CurrentStats

end WcashExplorer
