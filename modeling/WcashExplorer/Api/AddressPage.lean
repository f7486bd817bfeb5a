import WcashExplorer.Api.Amounts
import WcashExplorer.Api.Lookup

/-! The page of one address: its balances and its latest activity. -/
namespace WcashExplorer

/-- `self`, `in`, `out` and `neutral`. -/
inductive ActivityDirection
  | self
  | inward
  | outward
  | neutral
  deriving DecidableEq, Repr

structure AddressActivity where
  txid : Text
  instanceDigest : Text
  authDigest : Option Text
  blockHeight : Nat
  blockHash : Text
  blockTime : Timestamp
  position : Nat
  isCoinbase : Bool
  direction : ActivityDirection
  received : AmountView
  sent : AmountView
  net : AmountView
  balanceAfter : AmountView

def AddressActivity.fromRow (network : NetworkProfile) (row : AddressActivityRow) :
    AddressActivity where
  txid := row.key.txid
  instanceDigest := row.key.instanceDigest
  authDigest := row.key.authDigest
  blockHeight := row.key.height
  blockHash := row.key.blockHash
  blockTime := row.key.blockTime
  position := row.key.txPosition
  isCoinbase := row.isCoinbase
  direction :=
    if 0 < row.receivedZat then (if 0 < row.spentZat then .self else .inward)
    else if 0 < row.spentZat then .outward
    else .neutral
  received := amount network row.receivedZat
  sent := amount network row.spentZat
  net := amount network row.netZat
  balanceAfter := amount network row.balanceAfterZat

structure AddressView where
  address : Text
  addressType : Text
  totalReceived : AmountView
  totalSent : AmountView
  unspent : AmountView
  immatureCoinbase : AmountView
  matureCoinbaseMustShield : AmountView
  nonCoinbaseUnspent : AmountView
  utxoCount : Nat
  minedOutputCount : Nat
  minedTransactionCount : Nat
  transactionCount : Nat
  firstSeenHeight : Option Nat
  lastSeenHeight : Option Nat
  firstSeenAt : Option Timestamp
  lastSeenAt : Option Timestamp
  coinbaseMaturity : Nat
  canonicalDoubleSpendAnomalies : Int
  activity : List AddressActivity

/-- `GET /addresses/{address}`, all of it read from one snapshot. -/
def address (lib : AddressCrate) (network : NetworkProfile) (value : Text) (db : Db)
    (now : Timestamp) : Result (ApiEnvelope AddressView) := do
  let address ← validateAddress lib value network.toNetworkConfig
  let chain ← chainStateRow db network
  let tip := chain.indexedHeight.getD 0
  let balances ← addressBalanceQuery db network.id address tip network.coinbaseMaturity
  ensure balances.addressExists .notFound
  let rows ← addressActivityQuery db network.id address
  let activity := rows.map (AddressActivity.fromRow network)
  let totalReceived ← amountFromZatoshiText network balances.totalReceivedZat
  let totalSent ← amountFromZatoshiText network balances.totalSpentZat
  .ok (envelope network
    { address
      addressType := "transparent".toList
      totalReceived
      totalSent
      unspent := amount network balances.balanceZat
      immatureCoinbase := amount network balances.immatureCoinbaseZat
      matureCoinbaseMustShield := amount network balances.matureCoinbaseZat
      nonCoinbaseUnspent := amount network balances.nonCoinbaseUnspentZat
      utxoCount := balances.utxoCount
      minedOutputCount := balances.minedOutputCount
      minedTransactionCount := balances.minedTransactionCount
      transactionCount := balances.transactionCount
      firstSeenHeight := balances.firstSeenHeight
      lastSeenHeight := balances.lastSeenHeight
      firstSeenAt := balances.firstSeenAt
      lastSeenAt := balances.lastSeenAt
      coinbaseMaturity := network.coinbaseMaturity
      canonicalDoubleSpendAnomalies := balances.canonicalDoubleSpendAnomalies
      activity } none chain now)

end WcashExplorer
