import WcashExplorer.Api.NetworkHistory

/-! The history of the value pools, and the pools the explorer does not know. -/
namespace WcashExplorer

open Relational

def transparentPool : Text := "transparent".toList

def ironwoodPool : Text := "ironwood".toList

/-- The columns of one pool, aggregated over its rows. -/
structure PoolColumns where
  chainValueZat : Option Int
  valueDeltaZat : Option Int
  monitored : Option Bool

structure ValuePoolHistoryRow where
  height : Nat
  hash : Text
  blockTime : Timestamp
  chainSupplyZat : Option Int
  transparent : PoolColumns
  ironwood : PoolColumns

structure PoolSnapshotView where
  id : Text
  chainValue : Option AmountView
  valueDelta : Option AmountView
  reported : Bool
  monitored : Option Bool

/-- `pool_snapshot`. -/
def poolSnapshot (network : NetworkProfile) (id : Text) (pool : PoolColumns) : PoolSnapshotView where
  id
  chainValue := pool.chainValueZat.map (amount network)
  valueDelta := pool.valueDeltaZat.map (amount network)
  reported := pool.chainValueZat.isSome
  monitored := pool.monitored

structure ValuePoolHistoryPoint where
  height : Nat
  hash : Text
  time : Timestamp
  totalIssued : Option AmountView
  transparent : PoolSnapshotView
  ironwood : PoolSnapshotView

def ValuePoolHistoryPoint.fromRow (network : NetworkProfile) (row : ValuePoolHistoryRow) :
    ValuePoolHistoryPoint where
  height := row.height
  hash := row.hash
  time := row.blockTime
  totalIssued := row.chainSupplyZat.map (amount network)
  transparent := poolSnapshot network transparentPool row.transparent
  ironwood := poolSnapshot network ironwoodPool row.ironwood

end WcashExplorer
