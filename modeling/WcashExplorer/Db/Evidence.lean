import WcashExplorer.Db.Transitions

/-! The evidence of a witness: which rows `insert_block` writes, and which ones are due. -/
namespace WcashExplorer

open Relational

variable {lib : AuxPowCrate} {networkId blockHash witness : Text} {indexed : IndexedBlock}
  {db db₁ db₂ db' : Db} {r : CanonicalRow}

section Frame

/-- Two states between which only transactions were stored. -/
def TransactionsOnly (db db' : Db) : Prop :=
  db' = { db with
    transactionInstances := db'.transactionInstances
    nextTransactionInstanceId := db'.nextTransactionInstanceId
    blockTransactions := db'.blockTransactions
    transparentOutputs := db'.transparentOutputs
    transparentInputs := db'.transparentInputs }

theorem TransactionsOnly.refl (db : Db) : TransactionsOnly db db := rfl

theorem TransactionsOnly.trans (h : TransactionsOnly db db₁) (h' : TransactionsOnly db₁ db₂) :
    TransactionsOnly db db₂ := by
  unfold TransactionsOnly at *
  rw [h'.trans (by rw [h])]

theorem insertInstance_only {t : RpcTransaction} {stored : TransactionInstanceRow}
    (h : insertInstance lib t db = .ok (stored, db')) : TransactionsOnly db db' := by
  obtain ⟨row, -, -, rfl, -⟩ := insertInstance_ok h
  rfl

theorem insertInputs_only {id position : Nat} {inputs : List RpcInput}
    {rows : List TransparentInputRow} (h : insertInputs id position inputs db = .ok (rows, db')) :
    TransactionsOnly db db' := by
  induction inputs generalizing position db rows with
  | nil =>
    cases h
    exact .refl _
  | cons input rest ih =>
    simp only [insertInputs, Result.bind_eq_ok] at h
    obtain ⟨row, -, -, -, ⟨rows', db₁⟩, hrest, h⟩ := h
    cases h
    have hstored : TransactionsOnly db { db with
      transparentInputs := db.transparentInputs.insertNew row } := rfl
    exact hstored.trans (ih hrest)

theorem insertOutputs_only {id : Nat} {outputs : List RpcOutput}
    {rows : List TransparentOutputRow} (h : insertOutputs id outputs db = .ok (rows, db')) :
    TransactionsOnly db db' := by
  induction outputs generalizing db rows with
  | nil =>
    cases h
    exact .refl _
  | cons output rest ih =>
    simp only [insertOutputs, Result.bind_eq_ok] at h
    obtain ⟨row, -, -, -, ⟨rows', db₁⟩, hrest, h⟩ := h
    cases h
    have hstored : TransactionsOnly db { db with
      transparentOutputs := db.transparentOutputs.insertNew row } := rfl
    exact hstored.trans (ih hrest)

theorem insertTransaction_only {t : RpcTransaction} {id : Nat}
    (h : insertTransaction lib t db = .ok (id, db')) : TransactionsOnly db db' := by
  obtain ⟨stored, db₁, inputs, db₂, outputs, hinst, -, hin, -, hout, -⟩ := insertTransaction_ok h
  exact (insertInstance_only hinst).trans ((insertInputs_only hin).trans (insertOutputs_only hout))

theorem insertBlockTransaction_only {row : BlockTransactionRow}
    (h : insertBlockTransaction row db = .ok db') : TransactionsOnly db db' := by
  unfold insertBlockTransaction at h
  split at h
  · cases h
    exact .refl _
  · simp only [Result.bind_eq_ok] at h
    obtain ⟨-, -, h⟩ := h
    cases h
    rfl

/-- The transaction loop stores transactions and nothing else. -/
theorem insertBlockTransactions_only {position : Nat} {txs : List RpcTransaction}
    (h : insertBlockTransactions lib blockHash witness position txs db = .ok db') :
    TransactionsOnly db db' := by
  induction txs generalizing position db with
  | nil =>
    cases h
    exact .refl _
  | cons t rest ih =>
    obtain ⟨id, db₁, db₂, stored, ht, -, hbt, -, -, hrest⟩ := insertBlockTransactions_cons h
    exact (insertTransaction_only ht).trans ((insertBlockTransaction_only hbt).trans (ih hrest))

theorem insertValuePools_frame {pools : List ValuePool}
    (h : insertValuePools blockHash witness pools db = .ok db') :
    db' = { db with valuePoolSnapshots := db'.valuePoolSnapshots } := by
  induction pools generalizing db with
  | nil =>
    cases h
    rfl
  | cons pool rest ih =>
    simp only [insertValuePools, Result.bind_eq_ok] at h
    obtain ⟨-, -, h⟩ := h
    have hframe := ih h
    exact hframe

theorem insertObservations_frame {observations : List ParentObservation}
    (h : insertObservations blockHash witness observations db = .ok db') :
    db' = { db with parentChainObservations := db'.parentChainObservations } := by
  induction observations generalizing db with
  | nil =>
    cases h
    rfl
  | cons observation rest ih =>
    simp only [insertObservations, Result.bind_eq_ok] at h
    obtain ⟨row, -, -, -, h⟩ := h
    have hframe := ih h
    exact hframe

end Frame

section InsertBlock

theorem auxpowLinkRow_ok {fetchedAt : Timestamp} {aux : VerifiedAuxPow} {row : AuxpowLinkRow}
    (h : auxpowLinkRow blockHash witness fetchedAt aux = .ok row) :
    row.key = (blockHash, witness) ∧ row.verifiedAt = fetchedAt := by
  simp only [auxpowLinkRow, Result.bind_eq_ok] at h
  obtain ⟨_, -, _, -, _, -, _, -, h⟩ := h
  cases h
  exact ⟨rfl, rfl⟩

theorem blockWitnessRow_ok {row : BlockWitnessRow} (h : blockWitnessRow lib indexed = .ok row) :
    row.key = (indexed.block.hash, witnessHash lib indexed) ∧ row.indexedAt = indexed.fetchedAt ∧
      ∀ aux ∈ indexed.auxpow, row.exactWitnessState = aux.exactWitnessState ∧
        row.witnessConfirmations = aux.witnessConfirmations := by
  unfold blockWitnessRow at h
  split at h
  · rename_i aux haux
    simp only [Result.bind_eq_ok] at h
    obtain ⟨bytes, -, h⟩ := h
    cases h
    refine ⟨rfl, rfl, ?_⟩
    intro aux' haux'
    obtain rfl := Option.some.inj (haux.symm.trans haux')
    exact ⟨rfl, rfl⟩
  · rename_i hnone
    cases h
    refine ⟨rfl, rfl, ?_⟩
    intro aux haux
    rw [hnone] at haux
    cases haux

/-- `insert_block` offers one row to `block_witnesses`. -/
theorem insertBlock_witnesses (h : insertBlock lib networkId indexed db = .ok db') :
    ∃ row, blockWitnessRow lib indexed = .ok row ∧
      db'.blockWitnesses = db.blockWitnesses.upsert row row.refreshedBy row.key_refreshedBy := by
  obtain ⟨db₁, db₂, db₃, db₄, h₁, h₂, h₃, h₄, h₅⟩ := insertBlock_ok h
  obtain ⟨block, stored, -, -, rfl, -⟩ := insertBlockFacts_ok h₁
  obtain ⟨row, hrow, -, rfl⟩ := insertWitness_ok h₂
  refine ⟨row, hrow, ?_⟩
  have h₃₄ : db₄.blockWitnesses = db.blockWitnesses.upsert row row.refreshedBy row.key_refreshedBy := by
    rw [insertValuePools_frame h₄, insertBlockTransactions_only h₃]
  cases haux : indexed.auxpow with
  | none =>
    rw [haux] at h₅
    cases h₅
    exact h₃₄
  | some aux =>
    rw [haux] at h₅
    simp only [insertEvidence, Result.bind_eq_ok] at h₅
    obtain ⟨_, -, -, -, h₅⟩ := h₅
    rw [insertObservations_frame h₅]
    exact h₃₄

/-- It offers one row to `auxpow_links` for a block with a proof, and none for one without. -/
theorem insertBlock_links (h : insertBlock lib networkId indexed db = .ok db') :
    (indexed.auxpow = none ∧ db'.auxpowLinks = db.auxpowLinks) ∨
      ∃ aux row, indexed.auxpow = some aux ∧
        auxpowLinkRow indexed.block.hash (witnessHash lib indexed) indexed.fetchedAt aux = .ok row ∧
        db'.auxpowLinks = db.auxpowLinks.upsert row row.refreshedBy row.key_refreshedBy := by
  obtain ⟨db₁, db₂, db₃, db₄, h₁, h₂, h₃, h₄, h₅⟩ := insertBlock_ok h
  obtain ⟨block, stored, -, -, rfl, -⟩ := insertBlockFacts_ok h₁
  obtain ⟨row, -, -, rfl⟩ := insertWitness_ok h₂
  have h₃₄ : db₄.auxpowLinks = db.auxpowLinks := by
    rw [insertValuePools_frame h₄, insertBlockTransactions_only h₃]
  cases haux : indexed.auxpow with
  | none =>
    rw [haux] at h₅
    cases h₅
    exact .inl ⟨rfl, h₃₄⟩
  | some aux =>
    rw [haux] at h₅
    simp only [insertEvidence, Result.bind_eq_ok] at h₅
    obtain ⟨row, hrow, -, -, h₅⟩ := h₅
    refine .inr ⟨aux, row, rfl, hrow, ?_⟩
    rw [insertObservations_frame h₅, h₃₄]

/-- The rows of other witnesses stay as they are. -/
theorem insertBlock_other_links {key : Text × Text}
    (h : insertBlock lib networkId indexed db = .ok db')
    (hkey : key ≠ (indexed.block.hash, witnessHash lib indexed)) :
    db'.auxpowLinks.find? key = db.auxpowLinks.find? key := by
  rcases insertBlock_links h with ⟨-, heq⟩ | ⟨aux, row, -, hrow, heq⟩
  · rw [heq]
  · rw [heq, Table.find?_upsert_of_ne]
    rw [(auxpowLinkRow_ok hrow).1]
    exact hkey.symm

/-- The link of the block's own witness carries the time it was fetched at. -/
theorem insertBlock_own_link {aux : VerifiedAuxPow}
    (h : insertBlock lib networkId indexed db = .ok db') (haux : indexed.auxpow = some aux) :
    ∃ a, db'.auxpowLinks.find? (indexed.block.hash, witnessHash lib indexed) = some a ∧
      a.verifiedAt = indexed.fetchedAt := by
  rcases insertBlock_links h with ⟨hnone, -⟩ | ⟨aux', row, -, hrow, heq⟩
  · rw [haux] at hnone
    cases hnone
  · obtain ⟨hkey, htime⟩ := auxpowLinkRow_ok hrow
    rw [heq, ← hkey, Table.find?_upsert_self]
    refine ⟨_, rfl, ?_⟩
    cases db.auxpowLinks.find? row.key <;> exact htime

/-- The witness row of the block's own witness carries what the node said about it. -/
theorem insertBlock_own_witness {aux : VerifiedAuxPow}
    (h : insertBlock lib networkId indexed db = .ok db') (haux : indexed.auxpow = some aux) :
    ∃ b, db'.blockWitnesses.find? (indexed.block.hash, witnessHash lib indexed) = some b ∧
      b.indexedAt = indexed.fetchedAt ∧ b.exactWitnessState = aux.exactWitnessState ∧
      b.witnessConfirmations = aux.witnessConfirmations := by
  obtain ⟨row, hrow, heq⟩ := insertBlock_witnesses h
  obtain ⟨hkey, htime, hnode⟩ := blockWitnessRow_ok hrow
  obtain ⟨hstate, hconfirmations⟩ := hnode aux haux
  rw [heq, ← hkey, Table.find?_upsert_self]
  refine ⟨_, rfl, ?_⟩
  cases db.blockWitnesses.find? row.key <;> exact ⟨htime, hstate, hconfirmations⟩

end InsertBlock

section Queue

/-- A selected row is due if its link is old and it is within the depth below the tip. -/
theorem mem_staleEvidence {depth : Nat} {now at_ : Timestamp} :
    (r, at_) ∈ staleEvidence db networkId depth now ↔ r ∈ canonicalRows db networkId ∧
      max 1 (((tipRow db networkId).map fun r => r.height).getD 0 - depth) ≤ r.height ∧
      at_ < now - parentEvidenceRefreshIntervalSeconds * microsPerSecond ∧
      ∃ a, db.auxpowLinks.find? (r.blockHash, r.witnessHash) = some a ∧ a.verifiedAt = at_ := by
  simp only [staleEvidence, List.mem_filterMap]
  constructor
  · rintro ⟨c, hc, h⟩
    split at h
    · rename_i a ha
      split at h
      · rename_i hdue
        cases h
        simp only [Bool.and_eq_true, decide_eq_true_eq] at hdue
        exact ⟨hc, hdue.1, hdue.2, a, ha, rfl⟩
      · cases h
    · cases h
  · rintro ⟨hr, hdepth, hold, a, ha, rfl⟩
    refine ⟨r, hr, ?_⟩
    simp only [ha]
    rw [if_pos (by simp [hdepth, hold])]

/-- What the refresh queue yields is a selected row that is due. -/
theorem evidenceRefreshCandidate_ok {depth height : Nat} {hash : Text} {w : World}
    (h : evidenceRefreshCandidate db networkId depth w = .ok (some (height, hash))) :
    ∃ r at_, (r, at_) ∈ staleEvidence db networkId depth w.now ∧ r.height = height ∧
      r.blockHash = hash := by
  simp only [evidenceRefreshCandidate, Result.bind_eq_ok, toI64_eq_ok] at h
  obtain ⟨_, ⟨-, rfl⟩, h⟩ := h
  obtain ⟨x, hx, hpair⟩ := Option.map_eq_some_iff.mp (Except.ok.inj h)
  have hmem := List.mem_of_getElem? hx
  obtain ⟨rfl, rfl⟩ := Prod.mk.inj hpair
  exact ⟨x.1, x.2, (List.mem_filter.mp hmem).1, rfl, rfl⟩

end Queue

end WcashExplorer
