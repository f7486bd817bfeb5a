import WcashExplorer.Db.InsertBlock

/-! What inserting blocks leaves alone: the selection, and every fact already stored. -/
namespace WcashExplorer

open Relational

/-- A later state of the store between which and an earlier one only blocks were inserted. -/
structure Inserts (db db' : Db) : Prop where
  canonicalChain : db'.canonicalChain = db.canonicalChain
  chainState : db'.chainState = db.chainState
  reorgEvents : db'.reorgEvents = db.reorgEvents
  blocks : db.blocks.rows <+: db'.blocks.rows
  transactionInstances : db.transactionInstances.rows <+: db'.transactionInstances.rows
  blockTransactions : db.blockTransactions.rows <+: db'.blockTransactions.rows
  transparentInputs : db.transparentInputs.rows <+: db'.transparentInputs.rows
  transparentOutputs : db.transparentOutputs.rows <+: db'.transparentOutputs.rows

namespace Inserts

variable {db db₁ db₂ : Db}

theorem refl (db : Db) : Inserts db db :=
  ⟨rfl, rfl, rfl, List.prefix_rfl, List.prefix_rfl, List.prefix_rfl, List.prefix_rfl,
    List.prefix_rfl⟩

theorem trans (h : Inserts db db₁) (h' : Inserts db₁ db₂) : Inserts db db₂ where
  canonicalChain := h'.canonicalChain.trans h.canonicalChain
  chainState := h'.chainState.trans h.chainState
  reorgEvents := h'.reorgEvents.trans h.reorgEvents
  blocks := h.blocks.trans h'.blocks
  transactionInstances := h.transactionInstances.trans h'.transactionInstances
  blockTransactions := h.blockTransactions.trans h'.blockTransactions
  transparentInputs := h.transparentInputs.trans h'.transparentInputs
  transparentOutputs := h.transparentOutputs.trans h'.transparentOutputs

end Inserts

variable {lib : AuxPowCrate} {networkId blockHash witness : Text} {indexed : IndexedBlock}
  {db db' : Db}

/-- What a successful `INSERT INTO blocks` and its read-back establish. -/
theorem insertBlockFacts_ok (h : insertBlockFacts networkId indexed db = .ok db') :
    ∃ row stored, blockRow networkId indexed = .ok row ∧ row.valid = true ∧
      db' = { db with blocks := db.blocks.insertNew row } ∧
      db'.blocks.find? indexed.block.hash = some stored ∧
      immutableBlockMatches stored row = true := by
  simp only [insertBlockFacts, Result.bind_eq_ok, checked, ensure_eq_ok] at h
  obtain ⟨row, hrow, -, hvalid, h⟩ := h
  split at h
  · cases h
  · rename_i stored hstored
    simp only [Result.bind_eq_ok, ensure_eq_ok] at h
    obtain ⟨-, hm, h⟩ := h
    cases h
    exact ⟨row, stored, hrow, hvalid, rfl, hstored, hm⟩

theorem insertBlockFacts_inserts (h : insertBlockFacts networkId indexed db = .ok db') :
    Inserts db db' := by
  obtain ⟨row, -, -, -, rfl, -⟩ := insertBlockFacts_ok h
  exact { Inserts.refl db with blocks := Table.rows_prefix_insertNew _ _ }

theorem insertWitness_ok (h : insertWitness lib indexed db = .ok db') :
    ∃ row, blockWitnessRow lib indexed = .ok row ∧ row.valid = true ∧
      db' = { db with
        blockWitnesses := db.blockWitnesses.upsert row row.refreshedBy row.key_refreshedBy } := by
  simp only [insertWitness, Result.bind_eq_ok, checked, ensure_eq_ok] at h
  obtain ⟨row, hrow, -, hvalid, h⟩ := h
  cases h
  exact ⟨row, hrow, hvalid, rfl⟩

theorem insertWitness_inserts (h : insertWitness lib indexed db = .ok db') : Inserts db db' := by
  obtain ⟨row, -, -, rfl⟩ := insertWitness_ok h
  exact { Inserts.refl db with }

theorem insertInstance_ok {t : RpcTransaction} {stored : TransactionInstanceRow}
    (h : insertInstance lib t db = .ok (stored, db')) :
    ∃ row, transactionInstanceRow lib t db.nextTransactionInstanceId = .ok row ∧
      row.valid = true ∧ db' = { db with
        transactionInstances := db.transactionInstances.insertNew row
        nextTransactionInstanceId := db.nextTransactionInstanceId + 1 } ∧
      db'.transactionInstances.find? row.key = some stored ∧
      immutableTransactionMatches stored row = true := by
  simp only [insertInstance, Result.bind_eq_ok, checked, ensure_eq_ok] at h
  obtain ⟨row, hrow, -, hvalid, h⟩ := h
  split at h
  · cases h
  · rename_i s hs
    simp only [Result.bind_eq_ok, ensure_eq_ok] at h
    obtain ⟨-, hm, h⟩ := h
    cases h
    exact ⟨row, hrow, hvalid, rfl, hs, hm⟩

theorem insertInputs_inserts {id position : Nat} {inputs : List RpcInput}
    {rows : List TransparentInputRow} (h : insertInputs id position inputs db = .ok (rows, db')) :
    Inserts db db' := by
  induction inputs generalizing position db rows with
  | nil =>
    cases h
    exact .refl _
  | cons input rest ih =>
    simp only [insertInputs, Result.bind_eq_ok, checked, ensure_eq_ok] at h
    obtain ⟨row, hrow, -, hvalid, ⟨rows', db₁⟩, hrest, h⟩ := h
    cases h
    refine Inserts.trans ?_ (ih hrest)
    exact { Inserts.refl db with transparentInputs := Table.rows_prefix_insertNew _ _ }

theorem insertOutputs_inserts {id : Nat} {outputs : List RpcOutput}
    {rows : List TransparentOutputRow} (h : insertOutputs id outputs db = .ok (rows, db')) :
    Inserts db db' := by
  induction outputs generalizing db rows with
  | nil =>
    cases h
    exact .refl _
  | cons output rest ih =>
    simp only [insertOutputs, Result.bind_eq_ok, checked, ensure_eq_ok] at h
    obtain ⟨row, hrow, -, hvalid, ⟨rows', db₁⟩, hrest, h⟩ := h
    cases h
    refine Inserts.trans ?_ (ih hrest)
    exact { Inserts.refl db with transparentOutputs := Table.rows_prefix_insertNew _ _ }

/-- The three stages of `insert_transaction`. -/
theorem insertTransaction_ok {t : RpcTransaction} {id : Nat}
    (h : insertTransaction lib t db = .ok (id, db')) :
    ∃ stored db₁ inputs db₂ outputs, insertInstance lib t db = .ok (stored, db₁) ∧
      id = stored.transactionInstanceId ∧
      insertInputs id 0 t.vin db₁ = .ok (inputs, db₂) ∧ storedInputs db₂ id = inputs ∧
      insertOutputs id t.vout db₂ = .ok (outputs, db') ∧ storedOutputs db' id = outputs := by
  simp only [insertTransaction, Result.bind_eq_ok, ensure_eq_ok] at h
  obtain ⟨⟨stored, db₁⟩, hinst, ⟨inputs, db₂⟩, hin, -, hstin, ⟨outputs, db₃⟩, hout, -, hstout, h⟩ := h
  cases h
  exact ⟨stored, db₁, inputs, db₂, outputs, hinst, rfl, hin, by simpa using hstin, hout,
    by simpa using hstout⟩

theorem insertTransaction_inserts {t : RpcTransaction} {id : Nat}
    (h : insertTransaction lib t db = .ok (id, db')) : Inserts db db' := by
  obtain ⟨stored, db₁, inputs, db₂, outputs, hinst, -, hin, -, hout, -⟩ := insertTransaction_ok h
  obtain ⟨row, -, -, rfl, -⟩ := insertInstance_ok hinst
  have h₁ : Inserts db { db with
      transactionInstances := db.transactionInstances.insertNew row
      nextTransactionInstanceId := db.nextTransactionInstanceId + 1 } :=
    { Inserts.refl db with transactionInstances := Table.rows_prefix_insertNew _ _ }
  exact h₁.trans ((insertInputs_inserts hin).trans (insertOutputs_inserts hout))

theorem insertBlockTransaction_inserts {row : BlockTransactionRow}
    (h : insertBlockTransaction row db = .ok db') : Inserts db db' := by
  unfold insertBlockTransaction at h
  split at h
  · cases h
    exact .refl _
  · simp only [Result.bind_eq_ok, checked, ensure_eq_ok] at h
    obtain ⟨-, -, h⟩ := h
    cases h
    exact { Inserts.refl db with blockTransactions := Table.rows_prefix_insertNew _ _ }

/-- One step of the transaction loop: store the transaction, place it, read the place back. -/
theorem insertBlockTransactions_cons {position : Nat} {t : RpcTransaction}
    {rest : List RpcTransaction}
    (h : insertBlockTransactions lib blockHash witness position (t :: rest) db = .ok db') :
    ∃ id db₁ db₂ stored, insertTransaction lib t db = .ok (id, db₁) ∧ position ≤ i32Max ∧
      insertBlockTransaction ⟨blockHash, witness, position, id⟩ db₁ = .ok db₂ ∧
      db₂.blockTransactions.find? (blockHash, witness, position) = some stored ∧
      stored.transactionInstanceId = id ∧
      insertBlockTransactions lib blockHash witness (position + 1) rest db₂ = .ok db' := by
  simp only [insertBlockTransactions, Result.bind_eq_ok] at h
  obtain ⟨⟨id, db₁⟩, ht, pos, hpos, db₂, hbt, h⟩ := h
  obtain ⟨hle, rfl⟩ : position ≤ i32Max ∧ position = pos := by
    unfold asI32 at hpos
    split at hpos
    · exact ⟨‹_›, Except.ok.inj hpos⟩
    · cases hpos
  split at h
  · cases h
  · rename_i stored hst
    simp only [Result.bind_eq_ok, ensure_eq_ok] at h
    obtain ⟨-, hid, h⟩ := h
    exact ⟨id, db₁, db₂, stored, ht, hle, hbt, hst, by simpa using hid, h⟩

theorem insertBlockTransactions_inserts {position : Nat} {txs : List RpcTransaction}
    (h : insertBlockTransactions lib blockHash witness position txs db = .ok db') :
    Inserts db db' := by
  induction txs generalizing position db with
  | nil =>
    cases h
    exact .refl _
  | cons t rest ih =>
    obtain ⟨id, db₁, db₂, stored, ht, -, hbt, -, -, hrest⟩ := insertBlockTransactions_cons h
    exact (insertTransaction_inserts ht).trans
      ((insertBlockTransaction_inserts hbt).trans (ih hrest))

theorem insertValuePools_inserts {pools : List ValuePool}
    (h : insertValuePools blockHash witness pools db = .ok db') : Inserts db db' := by
  induction pools generalizing db with
  | nil =>
    cases h
    exact .refl _
  | cons pool rest ih =>
    simp only [insertValuePools, Result.bind_eq_ok] at h
    obtain ⟨-, -, h⟩ := h
    refine Inserts.trans ?_ (ih h)
    exact { Inserts.refl db with }

theorem insertObservations_inserts {observations : List ParentObservation}
    (h : insertObservations blockHash witness observations db = .ok db') : Inserts db db' := by
  induction observations generalizing db with
  | nil =>
    cases h
    exact .refl _
  | cons observation rest ih =>
    simp only [insertObservations, Result.bind_eq_ok] at h
    obtain ⟨row, -, -, -, h⟩ := h
    refine Inserts.trans ?_ (ih h)
    exact { Inserts.refl db with }

theorem insertEvidence_inserts {fetchedAt : Timestamp} {auxpow : Option VerifiedAuxPow}
    (h : insertEvidence blockHash witness fetchedAt auxpow db = .ok db') : Inserts db db' := by
  cases auxpow with
  | none =>
    cases h
    exact .refl _
  | some aux =>
    simp only [insertEvidence, Result.bind_eq_ok] at h
    obtain ⟨row, -, -, -, h⟩ := h
    refine Inserts.trans ?_ (insertObservations_inserts h)
    exact { Inserts.refl db with }

/-- The five stages of `insert_block`. -/
theorem insertBlock_ok (h : insertBlock lib networkId indexed db = .ok db') :
    ∃ db₁ db₂ db₃ db₄, insertBlockFacts networkId indexed db = .ok db₁ ∧
      insertWitness lib indexed db₁ = .ok db₂ ∧
      insertBlockTransactions lib indexed.block.hash (witnessHash lib indexed) 0
        indexed.block.tx db₂ = .ok db₃ ∧
      insertValuePools indexed.block.hash (witnessHash lib indexed) indexed.block.valuePools db₃ =
        .ok db₄ ∧
      insertEvidence indexed.block.hash (witnessHash lib indexed) indexed.fetchedAt
        indexed.auxpow db₄ = .ok db' := by
  simp only [insertBlock, Result.bind_eq_ok] at h
  exact h.imp fun db₁ ⟨h₁, db₂, h₂, db₃, h₃, db₄, h₄, h₅⟩ => ⟨db₂, db₃, db₄, h₁, h₂, h₃, h₄, h₅⟩

/-- `insert_block` never touches the selection and only appends facts. -/
theorem insertBlock_inserts (h : insertBlock lib networkId indexed db = .ok db') :
    Inserts db db' := by
  obtain ⟨db₁, db₂, db₃, db₄, h₁, h₂, h₃, h₄, h₅⟩ := insertBlock_ok h
  have h₁₂ := (insertBlockFacts_inserts h₁).trans (insertWitness_inserts h₂)
  have h₃₄ := (insertBlockTransactions_inserts h₃).trans (insertValuePools_inserts h₄)
  exact (h₁₂.trans h₃₄).trans (insertEvidence_inserts h₅)

end WcashExplorer
