import WcashExplorer.Api.Summary
import WcashExplorer.AuxPow.LittleEndian
import WcashExplorer.Codec.Base64
import WcashExplorer.Db.Complete
import WcashExplorer.Indexer.Vetted

/-! The paged lists, and what a client collects by following their cursors. -/
namespace WcashExplorer

open Effects Relational

def defaultPageSize : Nat := 20

def maxPageSize : Nat := 100

/-- `bounded_limit`. -/
def boundedLimit (limit : Option Nat) : Nat := max 1 (min (limit.getD defaultPageSize) maxPageSize)

/-- `to_i64` of the API. -/
def requestToI64 (value : Nat) (label : String) : Result Nat :=
  if value ≤ i64Max then .ok value
  else .error (.invalidRequest s!"{label} exceeds the supported range")

def invalidCursor {α : Type} : Result α := .error (.invalidRequest "invalid pagination cursor")

/-- `to_be_bytes` at a width. -/
def toBeBytes (width n : Nat) : Bytes := (toLeBytes width n).reverse

def fromBeBytes (bytes : Bytes) : Nat := fromLeBytes bytes.reverse

def encodeCursor (height : Nat) : Text := Codec.encode (toBeBytes 8 height)

def decodeCursor (value : Text) : Result Nat :=
  match Codec.decode value with
  | none => invalidCursor
  | some bytes =>
    if bytes.length = 8 then requestToI64 (fromBeBytes bytes) "cursor" else invalidCursor

def encodeTxCursor (height position : Nat) : Text :=
  Codec.encode (toBeBytes 8 height ++ toBeBytes 4 position)

/-- The position is refused where its sign bit is set. -/
def decodeTxCursor (value : Text) : Result (Nat × Nat) :=
  match Codec.decode value with
  | none => invalidCursor
  | some bytes =>
    if bytes.length ≠ 12 then invalidCursor
    else
      let height := fromBeBytes (bytes.take 8)
      let position := fromBeBytes (bytes.drop 8)
      if i32Max < position then invalidCursor else .ok (height, position)

structure PageQuery where
  cursor : Option Text
  limit : Option Nat

structure PageMeta where
  nextCursor : Option Text
  indexedHeight : Option Nat
  nodeHeight : Option Nat
  freshnessSeconds : Option Int
  network : Text

structure ApiEnvelope (α : Type) where
  data : α
  pageMeta : PageMeta

/-- `chain_state`: a network without a row is an error. -/
def chainStateRow (db : Db) (network : NetworkProfile) : Result ChainStateRow :=
  match db.chainState.find? network.id with
  | some row => .ok row
  | none => .error .database

def envelope {α : Type} (network : NetworkProfile) (data : α) (nextCursor : Option Text)
    (chain : ChainStateRow) (now : Timestamp) : ApiEnvelope α where
  data
  pageMeta :=
    { nextCursor
      indexedHeight := chain.indexedHeight
      nodeHeight := chain.nodeHeight
      freshnessSeconds := some (max ((now - chain.updatedAt).tdiv microsPerSecond) 0)
      network := network.id }

/-- `GET /blocks`: its two statements, each on the state it sees. -/
def blocks (network : NetworkProfile) (query : PageQuery) (atState atPage : Db)
    (now : Timestamp) : Result (ApiEnvelope (List BlockSummary)) := do
  let chain ← chainStateRow atState network
  let before ← optional decodeCursor query.cursor
  let limit := boundedLimit query.limit
  let rows ← blockSummaryQuery atPage network.id before (limit + 1)
  let hasMore := limit < rows.length
  let data := (rows.take limit).map (BlockSummary.fromRow network)
  let nextCursor := if hasMore then data.getLast?.map fun block => encodeCursor block.height
    else none
  .ok (envelope network data nextCursor chain now)

/-- The cursor as it is bound to the query. -/
def boundTxCursor (cursor : Nat × Nat) : Result (Nat × Nat) := do
  let height ← requestToI64 cursor.1 "transaction cursor height"
  .ok (height, cursor.2)

/-- `GET /transactions`. -/
def transactions (network : NetworkProfile) (query : PageQuery) (atState atPage : Db)
    (now : Timestamp) : Result (ApiEnvelope (List TransactionSummary)) := do
  let chain ← chainStateRow atState network
  let before ← optional decodeTxCursor query.cursor
  let limit := boundedLimit query.limit
  let before ← optional boundTxCursor before
  let rows ← transactionSummaryQuery atPage network.id before (limit + 1)
  let hasMore := limit < rows.length
  let data := (rows.take limit).map (TransactionSummary.fromRow network)
  let nextCursor := if hasMore then
      data.getLast?.map fun tx => encodeTxCursor tx.blockHeight tx.position
    else none
  .ok (envelope network data nextCursor chain now)

section Cursors

theorem fromBeBytes_toBeBytes {width n : Nat} (h : n < 256 ^ width) :
    fromBeBytes (toBeBytes width n) = n := by
  rw [fromBeBytes, toBeBytes, List.reverse_reverse, fromLeBytes_toLeBytes, Nat.mod_eq_of_lt h]

theorem decodeCursor_encodeCursor {height : Nat} (h : height ≤ i64Max) :
    decodeCursor (encodeCursor height) = .ok height := by
  have hlt : height < 256 ^ 8 := by
    simp only [i64Max] at h
    omega
  have hlen : (toBeBytes 8 height).length = 8 := by
    rw [toBeBytes, List.length_reverse, length_toLeBytes]
  simp only [decodeCursor, encodeCursor, Codec.decode_encode, hlen, if_true,
    fromBeBytes_toBeBytes hlt, requestToI64, h]

theorem decodeTxCursor_encodeTxCursor {height position : Nat} (h : height ≤ i64Max)
    (hp : position ≤ i32Max) :
    decodeTxCursor (encodeTxCursor height position) = .ok (height, position) := by
  have hlt : height < 256 ^ 8 := by
    simp only [i64Max] at h
    omega
  have hlt' : position < 256 ^ 4 := by
    simp only [i32Max] at hp
    omega
  have hlen : (toBeBytes 8 height).length = 8 := by
    rw [toBeBytes, List.length_reverse, length_toLeBytes]
  have hlen' : (toBeBytes 4 position).length = 4 := by
    rw [toBeBytes, List.length_reverse, length_toLeBytes]
  have htotal : ¬ (toBeBytes 8 height ++ toBeBytes 4 position).length ≠ 12 := by
    rw [List.length_append, hlen, hlen']
    decide
  simp only [decodeTxCursor, encodeTxCursor, Codec.decode_encode, if_neg htotal]
  rw [List.take_left' hlen, List.drop_left' hlen, fromBeBytes_toBeBytes hlt,
    fromBeBytes_toBeBytes hlt', if_neg (by omega)]

end Cursors

end WcashExplorer
