import WcashExplorer.Db.AppendOnly
import WcashExplorer.Db.WitnessEvidence

/-! References between the tables: what a stored row names is stored, and stored completely. -/
namespace WcashExplorer

open Effects Relational

variable {lib : AuxPowCrate} {networkId : Text} {indexed : IndexedBlock} {start db db₁ db' : Db}
  {log : List DbCall} {P : Db → DbCall → Prop} {k : Text × Text}

/-- A witness with its block, and a placement for each transaction the block counts. -/
structure WitnessComplete (db : Db) (k : Text × Text) : Prop where
  stored : (db.blockWitnesses.find? k).isSome
  block : ∃ b, db.blocks.find? k.1 = some b ∧ b.transactionCount ≤ i32Max ∧
    ∀ i < b.transactionCount, (db.blockTransactions.find? (k.1, k.2, i)).isSome

/-- Every reference of the store is to a stored row. -/
structure StoreSound (db : Db) : Prop where
  facts : FactsSound db
  witnesses : ∀ k, (db.blockWitnesses.find? k).isSome → WitnessComplete db k
  canonical : ∀ c ∈ db.canonicalChain.rows,
    (db.blockWitnesses.find? (c.blockHash, c.witnessHash)).isSome
  placements : ∀ r ∈ db.blockTransactions.rows,
    (db.blockWitnesses.find? (r.blockHash, r.witnessHash)).isSome ∧
      (readInstance db r.transactionInstanceId).isSome

/-- The tables under the selector are empty. -/
structure NoBlocks (db : Db) : Prop extends NoFacts db where
  blockWitnesses : db.blockWitnesses.rows = []
  canonicalChain : db.canonicalChain.rows = []
  auxpowLinks : db.auxpowLinks.rows = []
  parentChainObservations : db.parentChainObservations.rows = []

theorem NoBlocks.sound (h : NoBlocks db) : StoreSound db where
  facts := h.toNoFacts.factsSound
  witnesses := by
    intro k hk
    simp [Table.find?, h.blockWitnesses] at hk
  canonical := by simp [h.canonicalChain]
  placements := by simp [h.blockTransactions]

section InsertBlock

theorem isSome_of_prefix {ρ κ : Type} [DecidableEq κ] {key : ρ → κ} {t u : Table ρ key} {x : κ}
    (h : t.rows <+: u.rows) (hx : (t.find? x).isSome) : (u.find? x).isSome := by
  obtain ⟨r, hr⟩ := Option.isSome_iff_exists.mp hx
  rw [Table.find?_of_prefix h hr]
  rfl

theorem readInstance_isSome_of_prefix {id : Nat}
    (h : db.transactionInstances.rows <+: db'.transactionInstances.rows)
    (hid : (readInstance db id).isSome) : (readInstance db' id).isSome := by
  simp only [readInstance, Option.isSome_map] at hid ⊢
  obtain ⟨added, hadded⟩ := h
  rw [← hadded, List.find?_append, Option.isSome_or, hid]
  rfl

theorem insertBlock_witness_isSome (h : insertBlock lib networkId indexed db = .ok db') :
    (db'.blockWitnesses.find? k).isSome ↔
      k = (indexed.block.hash, witnessHash lib indexed) ∨ (db.blockWitnesses.find? k).isSome := by
  by_cases hk : k = (indexed.block.hash, witnessHash lib indexed)
  · obtain ⟨row, hrow, heq⟩ := insertBlock_witnesses h
    have hkey : row.key = k := (blockWitnessRow_ok hrow).1.trans hk.symm
    rw [heq, ← hkey, Table.find?_upsert_self]
    simp [hkey, hk]
  · rw [insertBlock_other_witnesses h hk]
    simp [hk]

theorem WitnessComplete.of_inserts (hc : WitnessComplete db k) (hi : Inserts db db')
    (hk : (db'.blockWitnesses.find? k).isSome) : WitnessComplete db' k where
  stored := hk
  block := by
    obtain ⟨b, hb, hcount, hall⟩ := hc.block
    exact ⟨b, Table.find?_of_prefix hi.blocks hb, hcount, fun i hlt =>
      isSome_of_prefix hi.blockTransactions (hall i hlt)⟩

/-- The block's own witness is complete as soon as the block is recorded. -/
theorem Recorded.complete {ids : List Nat} (hr : Recorded lib networkId db indexed ids)
    (hk : (db.blockWitnesses.find? (indexed.block.hash, witnessHash lib indexed)).isSome) :
    WitnessComplete db (indexed.block.hash, witnessHash lib indexed) where
  stored := hk
  block := by
    obtain ⟨row, stored, hrow, -, hstored, hsame⟩ := hr.header
    have hcount : stored.transactionCount = row.transactionCount := by
      have hcounts : stored.compared.transactionCount = row.compared.transactionCount :=
        congrArg _ hsame
      exact hcounts
    have hlen : stored.transactionCount = ids.length := by
      rw [hcount, blockRow_count hrow, hr.reads.length_eq]
    refine ⟨stored, hstored, ?_, fun i hlt => ?_⟩
    · rw [hcount]
      simp only [blockRow, Result.bind_eq_ok, asI32_eq_ok] at hrow
      obtain ⟨t, -, height, -, size, -, count, ⟨hle, rfl⟩, hrow⟩ := hrow
      cases hrow
      exact hle
    · rw [hlen] at hlt
      rw [hr.found i _ (List.getElem?_eq_getElem hlt)]
      rfl

/-- A block adds placements to its own witness only. -/
theorem insertBlock_placements (hs : FactsSound db)
    (h : insertBlock lib networkId indexed db = .ok db') {r : BlockTransactionRow}
    (hr : r ∈ db'.blockTransactions.rows) : r ∈ db.blockTransactions.rows ∨
      (r.blockHash = indexed.block.hash ∧ r.witnessHash = witnessHash lib indexed) := by
  obtain ⟨row, stored, db₂, db₃, -, -, -, -, hdb₂, hloop, hdb'⟩ := insertBlock_loop h
  have hplaced₂ : db₂.blockTransactions = db.blockTransactions := by rw [hdb₂]
  have hs₂ : InstancesSound db₂ := by
    rw [hdb₂]
    exact ⟨hs.instances.ids_nodup, hs.instances.ids_lt, hs.instances.inputs_refer,
      hs.instances.outputs_refer⟩
  have hu₂ : PlacedOnce db₂ := by
    rw [PlacedOnce, hplaced₂]
    exact hs.placements.once
  obtain ⟨-, -, ids, hids⟩ := insertBlockTransactions_reads hs₂ hu₂ hloop
  rw [hdb'] at hr
  rcases hids.others r hr with hold | ⟨hb, hw, -⟩
  · exact .inl (hplaced₂ ▸ hold)
  · exact .inr ⟨hb, hw⟩

/-- A placement of a recorded block is one of those recorded. -/
theorem Recorded.placement {ids : List Nat} (hr : Recorded lib networkId db indexed ids)
    (hs : PlacementsSound db) {r : BlockTransactionRow} (hmem : r ∈ db.blockTransactions.rows)
    (hb : r.blockHash = indexed.block.hash) (hw : r.witnessHash = witnessHash lib indexed) :
    ∃ t, indexed.block.tx[r.txPosition]? = some t ∧ ids[r.txPosition]? = some r.transactionInstanceId ∧
      ∃ facts, transactionFacts lib t = .ok facts ∧
        readInstance db r.transactionInstanceId = some facts := by
  obtain ⟨row, stored, hrow, -, hstored, hsame⟩ := hr.header
  obtain ⟨b, hfind, hlt⟩ := hs.counted r hmem
  rw [hb, hstored] at hfind
  obtain rfl := Option.some.inj hfind
  have hcount : stored.transactionCount = indexed.block.tx.length := by
    have hcounts : stored.compared.transactionCount = row.compared.transactionCount :=
      congrArg _ hsame
    rw [← blockRow_count hrow]
    exact hcounts
  have hlen := hr.reads.length_eq
  have hlt' : r.txPosition < ids.length := by omega
  have hat := hr.found r.txPosition _ (List.getElem?_eq_getElem hlt')
  have hown := Table.find?_of_mem hmem
  have hkey : BlockTransactionRow.key r =
      (indexed.block.hash, witnessHash lib indexed, r.txPosition) := by
    rw [← hb, ← hw]
    rfl
  rw [hkey, hat] at hown
  have hid : ids[r.txPosition] = r.transactionInstanceId :=
    congrArg BlockTransactionRow.transactionInstanceId (Option.some.inj hown)
  have hlt'' : r.txPosition < indexed.block.tx.length := by omega
  obtain ⟨facts, hfacts, hread⟩ := (List.forall₂_iff_get.mp hr.reads).2 _ hlt' hlt''
  refine ⟨_, List.getElem?_eq_getElem hlt'', ?_, facts, hfacts, hid ▸ hread⟩
  rw [List.getElem?_eq_getElem hlt', hid]

theorem StoreSound.insertBlock (hs : StoreSound db)
    (h : insertBlock lib networkId indexed db = .ok db') : StoreSound db' := by
  obtain ⟨hfacts, ids, hrecorded⟩ := insertBlock_recordedFacts hs.facts h
  have hi := insertBlock_inserts h
  have hown : WitnessComplete db' (indexed.block.hash, witnessHash lib indexed) :=
    hrecorded.complete ((insertBlock_witness_isSome h).mpr (.inl rfl))
  refine ⟨hfacts, fun k hk => ?_, fun c hc => ?_, fun r hr => ?_⟩
  · rcases (insertBlock_witness_isSome h).mp hk with rfl | hold
    · exact hown
    · exact (hs.witnesses k hold).of_inserts hi hk
  · rw [hi.canonicalChain] at hc
    exact (insertBlock_witness_isSome h).mpr (.inr (hs.canonical c hc))
  · rcases insertBlock_placements hs.facts h hr with hold | ⟨hb, hw⟩
    · obtain ⟨hwitness, hinstance⟩ := hs.placements r hold
      exact ⟨(insertBlock_witness_isSome h).mpr (.inr hwitness),
        readInstance_isSome_of_prefix hi.transactionInstances hinstance⟩
    · obtain ⟨t, -, -, facts, -, hread⟩ := hrecorded.placement hfacts.placements hr hb hw
      rw [hread, hb, hw]
      exact ⟨hown.stored, rfl⟩

theorem insertBlocks_witness_isSome {blocks : List IndexedBlock}
    (h : insertBlocks lib networkId blocks db = .ok db') (hk : (db.blockWitnesses.find? k).isSome) :
    (db'.blockWitnesses.find? k).isSome := by
  induction blocks generalizing db with
  | nil =>
    cases h
    exact hk
  | cons first rest ih =>
    obtain ⟨db₁, hfirst, hrest⟩ := insertBlocks_cons h
    exact ih hrest ((insertBlock_witness_isSome hfirst).mpr (.inr hk))

theorem StoreSound.insertBlocks {blocks : List IndexedBlock} (hs : StoreSound db)
    (h : insertBlocks lib networkId blocks db = .ok db') : StoreSound db' ∧
      ∀ b ∈ blocks, (db'.blockWitnesses.find? (b.block.hash, witnessHash lib b)).isSome := by
  induction blocks generalizing db with
  | nil =>
    cases h
    exact ⟨hs, by simp⟩
  | cons first rest ih =>
    obtain ⟨db₁, hfirst, hrest⟩ := insertBlocks_cons h
    obtain ⟨hs', hknown⟩ := ih (hs.insertBlock hfirst) hrest
    refine ⟨hs', fun b hb => ?_⟩
    rcases List.mem_cons.mp hb with rfl | hb
    · exact insertBlocks_witness_isSome hrest ((insertBlock_witness_isSome hfirst).mpr (.inl rfl))
    · exact hknown b hb

end InsertBlock

section Calls

/-- A selected row was selected before, or is that of a block the method was given. -/
theorem insertSelectors_rows {blocks : List IndexedBlock}
    (h : insertSelectors lib networkId blocks db = .ok db') {c : CanonicalRow}
    (hc : c ∈ db'.canonicalChain.rows) :
    c ∈ db.canonicalChain.rows ∨ ∃ b ∈ blocks, c = canonicalRow lib networkId b := by
  induction blocks generalizing db with
  | nil =>
    cases h
    exact .inl hc
  | cons first rest ih =>
    simp only [insertSelectors, Result.bind_eq_ok] at h
    obtain ⟨db₁, hfirst, hrest⟩ := h
    rcases ih hrest with hold | ⟨b, hb, rfl⟩
    · obtain ⟨-, ⟨-, rfl⟩ | ⟨-, -, rfl⟩⟩ := insertCanonicalSelector_ok hfirst
      · exact .inl hold
      · rcases Table.mem_insertNew.mp hold with hold | ⟨rfl, -⟩
        · exact .inl hold
        · exact .inr ⟨first, by simp, rfl⟩
    · exact .inr ⟨b, by simp [hb], rfl⟩

theorem exec_canonicalRows {w : World} {t : DbCall} {r : t.Result}
    (h : exec lib w t db = .ok (r, db')) {c : CanonicalRow} (hc : c ∈ db'.canonicalChain.rows) :
    c ∈ db.canonicalChain.rows ∨ ∃ b ∈ t.blocks, c = canonicalRow lib t.networkId b := by
  cases t with
  | canonicalTip n =>
    obtain ⟨-, rfl⟩ := reading_ok.mp h
    exact .inl hc
  | canonicalHash n height =>
    obtain ⟨-, rfl⟩ := reading_ok.mp h
    exact .inl hc
  | evidenceRefreshCandidate n depth =>
    obtain ⟨-, rfl⟩ := reading_ok.mp h
    exact .inl hc
  | commitBlock n indexed =>
    obtain ⟨db₁, db₂, hins, hsel, -, rfl⟩ := commitBlock_ok (writing_ok.mp h)
    have hsel' : insertSelectors lib n [indexed] db₁ = .ok db₂ := by
      rw [insertSelectors, hsel]
      rfl
    rcases insertSelectors_rows hsel' hc with hold | ⟨b, hb, rfl⟩
    · exact .inl ((insertBlock_inserts hins).canonicalChain ▸ hold)
    · exact .inr ⟨b, hb, rfl⟩
  | refreshBlockEvidence n indexed =>
    exact .inl ((insertBlock_inserts (writing_ok.mp h)).canonicalChain ▸ hc)
  | replaceCanonicalBranch n oldTip ancestor replacement =>
    obtain ⟨db₁, db₂, -, -, -, hins, hsel, rfl⟩ := replaceCanonicalBranch_ok (writing_ok.mp h)
    rcases insertSelectors_rows hsel hc with hold | hnew
    · have hkept := List.mem_of_mem_filter hold
      exact .inl ((insertBlocks_recorded hins).1.canonicalChain ▸ hkept)
    · exact .inr hnew
  | observeNodeTip n height hash =>
    obtain ⟨m, f, hf, -, rfl⟩ := observeNodeTip_ok (writing_ok.mp h)
    exact .inl hc
  | updateNodeTip n height hash status error =>
    obtain ⟨m, f, hf, -, rfl⟩ := updateNodeTip_ok (writing_ok.mp h)
    exact .inl hc
  | markIndexerError n error =>
    obtain ⟨m, f, hf, -, rfl⟩ := markIndexerError_ok (writing_ok.mp h)
    exact .inl hc

theorem StoreSound.exec {w : World} {t : DbCall} {r : t.Result} (hs : StoreSound db)
    (h : exec lib w t db = .ok (r, db')) : StoreSound db' := by
  obtain ⟨db₁, hins, hdb'⟩ := exec_insertBlocks h
  obtain ⟨hs₁, hknown⟩ := hs.insertBlocks hins
  have hwitnesses : db'.blockWitnesses = db₁.blockWitnesses := by rw [hdb']
  have hcomplete (k : Text × Text) (hk : WitnessComplete db₁ k) : WitnessComplete db' k := by
    rw [hdb']
    exact ⟨hk.stored, hk.block⟩
  refine ⟨?_, fun k hk => ?_, fun c hc => ?_, fun r hr => ?_⟩
  · rw [hdb']
    exact ⟨⟨hs₁.facts.instances.ids_nodup, hs₁.facts.instances.ids_lt,
      hs₁.facts.instances.inputs_refer, hs₁.facts.instances.outputs_refer⟩,
      ⟨hs₁.facts.placements.once, hs₁.facts.placements.counted⟩⟩
  · exact hcomplete k (hs₁.witnesses k (hwitnesses ▸ hk))
  · rw [hwitnesses]
    rcases exec_canonicalRows h hc with hold | ⟨b, hb, rfl⟩
    · have hc₁ := (insertBlocks_recorded hins).1.canonicalChain
      exact hs₁.canonical c (hc₁ ▸ hold)
    · exact hknown b hb
  · rw [hdb'] at hr ⊢
    exact hs₁.placements r hr

/-- Every state of any sequence of methods is sound. -/
theorem Calls.sound (h : Calls lib P start log db) (hs : StoreSound start) : StoreSound db :=
  h.invariant hs fun _ _ _ _ _ _ hd hx => hd.exec hx

end Calls

end WcashExplorer
