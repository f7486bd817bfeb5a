import Mathlib.Data.List.Forall2
import WcashExplorer.Db.Evidence
import WcashExplorer.Relational.Ordered

/-! The immutable facts of a block: what it states, and what the store reads back. -/
namespace WcashExplorer

open Relational

/-- An input row without the identifier its transaction was stored under. -/
def TransparentInputRow.anonymous (r : TransparentInputRow) : TransparentInputRow :=
  { r with transactionInstanceId := 0 }

def TransparentOutputRow.anonymous (r : TransparentOutputRow) : TransparentOutputRow :=
  { r with transactionInstanceId := 0 }

/-- The columns of a transaction that are compared, without the identifier of its row. -/
def TransactionInstanceRow.anonymous (r : TransactionInstanceRow) : TransactionInstanceRow :=
  { r with transactionInstanceId := 0, rawRpc := .null }

/-- The columns of a block that are compared. -/
def BlockRow.compared (r : BlockRow) : BlockRow :=
  { r with difficultyText := [], firstSeenAt := 0, rawRpc := .null }

/-- The immutable facts of a transaction. -/
structure TransactionFacts where
  columns : TransactionInstanceRow
  inputs : List TransparentInputRow
  outputs : List TransparentOutputRow

/-- The immutable facts of a block. -/
structure BlockFacts where
  header : BlockRow
  transactions : List TransactionFacts

section Stated

variable (lib : AuxPowCrate)

/-- The rows a transaction's inputs are stored as, the first of them at `position`. -/
def inputRows (id : Nat) : Nat → List RpcInput → Result (List TransparentInputRow)
  | _, [] => .ok []
  | position, input :: rest => do
    let row ← transparentInputRow id position input
    checked row.valid
    let rows ← inputRows id (position + 1) rest
    .ok (row :: rows)

def outputRows (id : Nat) : List RpcOutput → Result (List TransparentOutputRow)
  | [] => .ok []
  | output :: rest => do
    let row ← transparentOutputRow id output
    checked row.valid
    let rows ← outputRows id rest
    .ok (row :: rows)

/-- The facts a transaction states, if all of them fit their columns. -/
def transactionFacts (t : RpcTransaction) : Result TransactionFacts := do
  let row ← transactionInstanceRow lib t 0
  checked row.valid
  let inputs ← inputRows 0 0 t.vin
  let outputs ← outputRows 0 t.vout
  .ok { columns := row.anonymous, inputs, outputs }

/-- The facts a materialized block states. -/
def blockFacts (networkId : Text) (indexed : IndexedBlock) : Result BlockFacts := do
  let row ← blockRow networkId indexed
  checked row.valid
  let transactions ← indexed.block.tx.mapM (transactionFacts lib)
  .ok { header := row.compared, transactions }

end Stated

section Passed

variable {lib : AuxPowCrate} {networkId : Text} {indexed : IndexedBlock} {id position : Nat}
  {t : RpcTransaction} {f : TransactionFacts}

theorem inputRows_length {inputs : List RpcInput} {rows : List TransparentInputRow}
    (h : inputRows id position inputs = .ok rows) : rows.length = inputs.length := by
  induction inputs generalizing position rows with
  | nil =>
    cases h
    rfl
  | cons input rest ih =>
    simp only [inputRows, Result.bind_eq_ok] at h
    obtain ⟨row, -, -, -, rows, hrest, h⟩ := h
    cases h
    rw [List.length_cons, List.length_cons, ih hrest]

/-- The offered outputs carry their own numbers. -/
theorem outputRows_indices {outputs : List RpcOutput} {rows : List TransparentOutputRow}
    (h : outputRows id outputs = .ok rows) :
    rows.map (fun r => r.outputIndex) = outputs.map fun o => o.n := by
  induction outputs generalizing rows with
  | nil =>
    cases h
    rfl
  | cons output rest ih =>
    simp only [outputRows, transparentOutputRow, Result.bind_eq_ok, asI32_eq_ok] at h
    obtain ⟨row, ⟨_, ⟨-, rfl⟩, hrow⟩, -, -, rows', hrest, h⟩ := h
    cases hrow
    cases h
    rw [List.map_cons, List.map_cons, ih hrest]

/-- What a transaction that states its facts passes. -/
theorem transactionFacts_ok (h : transactionFacts lib t = .ok f) :
    ∃ row, transactionInstanceRow lib t 0 = .ok row ∧ row.valid = true ∧
      f.columns = row.anonymous ∧ inputRows 0 0 t.vin = .ok f.inputs ∧
      outputRows 0 t.vout = .ok f.outputs := by
  simp only [transactionFacts, Result.bind_eq_ok, checked, ensure_eq_ok] at h
  obtain ⟨row, hrow, -, hvalid, inputs, hin, outputs, hout, h⟩ := h
  cases h
  exact ⟨row, hrow, hvalid, rfl, hin, hout⟩

/-- A transaction's facts list what it lists. -/
theorem transactionFacts_lengths (h : transactionFacts lib t = .ok f) :
    f.inputs.length = t.vin.length ∧ f.outputs.length = t.vout.length := by
  obtain ⟨row, -, -, -, hin, hout⟩ := transactionFacts_ok h
  have hindices := congrArg List.length (outputRows_indices hout)
  rw [List.length_map, List.length_map] at hindices
  exact ⟨inputRows_length hin, hindices⟩

/-- The facts a block states are those of its row and of its transactions. -/
theorem blockFacts_ok {facts : BlockFacts} (h : blockFacts lib networkId indexed = .ok facts) :
    ∃ row, blockRow networkId indexed = .ok row ∧ row.valid = true ∧ facts.header = row.compared ∧
      indexed.block.tx.mapM (transactionFacts lib) = .ok facts.transactions := by
  simp only [blockFacts, Result.bind_eq_ok, checked, ensure_eq_ok] at h
  obtain ⟨row, hrow, -, hvalid, transactions, htransactions, h⟩ := h
  cases h
  exact ⟨row, hrow, hvalid, rfl, htransactions⟩

end Passed

section Stored

/-- The facts stored for a transaction row. -/
def storedFacts (db : Db) (r : TransactionInstanceRow) : TransactionFacts where
  columns := r.anonymous
  inputs := (storedInputs db r.transactionInstanceId).map TransparentInputRow.anonymous
  outputs := (storedOutputs db r.transactionInstanceId).map TransparentOutputRow.anonymous

/-- The facts stored under an instance id. -/
def readInstance (db : Db) (id : Nat) : Option TransactionFacts :=
  (db.transactionInstances.rows.find? fun r => r.transactionInstanceId = id).map (storedFacts db)

/-- The compared columns stored for a block hash. -/
def readHeader (db : Db) (blockHash : Text) : Option BlockRow :=
  (db.blocks.find? blockHash).map BlockRow.compared

/-- `SELECT … WHERE block_hash = $1 AND witness_hash = $2 ORDER BY tx_position`. -/
def storedPlacements (db : Db) (blockHash witness : Text) : List BlockTransactionRow :=
  orderBy (fun r => r.txPosition) (db.blockTransactions.rows.filter fun r =>
    r.blockHash = blockHash && r.witnessHash = witness)

/-- The transactions stored under a witness, with their positions. -/
def readTransactions (db : Db) (blockHash witness : Text) : List (Nat × Option TransactionFacts) :=
  (storedPlacements db blockHash witness).map fun r =>
    (r.txPosition, readInstance db r.transactionInstanceId)

end Stored

/-- Reading the store back gives exactly the block: its compared header columns, and under its
witness the list of its transactions with their inputs and outputs, and nothing else. -/
def ReadsBack (lib : AuxPowCrate) (networkId : Text) (db : Db) (indexed : IndexedBlock) : Prop :=
  ∃ facts, blockFacts lib networkId indexed = .ok facts ∧
    readHeader db indexed.block.hash = some facts.header ∧
    readTransactions db indexed.block.hash (witnessHash lib indexed) =
      facts.transactions.mapIdx fun i f => (i, some f)

/-- The columns a `blocks` row is compared in determine what is compared. -/
theorem immutableBlockMatches_iff {stored row : BlockRow} (hk : stored.blockHash = row.blockHash) :
    immutableBlockMatches stored row = true ↔ stored.compared = row.compared := by
  cases stored
  cases row
  simp only at hk
  simp only [immutableBlockMatches, Bool.and_eq_true, decide_eq_true_eq, BlockRow.compared,
    BlockRow.mk.injEq, and_assoc]
  tauto

theorem immutableTransactionMatches_iff {stored row : TransactionInstanceRow}
    (hk : stored.txid = row.txid) :
    immutableTransactionMatches stored row = true ↔ stored.anonymous = row.anonymous := by
  cases stored
  cases row
  simp only at hk
  simp only [immutableTransactionMatches, Bool.and_eq_true, decide_eq_true_eq,
    TransactionInstanceRow.anonymous, TransactionInstanceRow.mk.injEq, and_assoc]
  tauto

end WcashExplorer
