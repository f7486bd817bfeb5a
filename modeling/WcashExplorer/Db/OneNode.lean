import WcashExplorer.Db.BlockRows
import WcashExplorer.Db.Instances
import WcashExplorer.Relational.Window

/-! Stores filled from one node: what is stored under a hash is what the node says of it. -/
namespace WcashExplorer

open Effects Relational

variable {lib : AuxPowCrate} {B : IndexedBlock → Prop} {networkId blockHash witness : Text}
  {indexed : IndexedBlock} {position : Nat} {start db db₁ db₂ db' : Db} {log : List DbCall}

section Node

/-- What a block says under its hash, whatever its witness: all but its confirmations and the parts
stored under the witness. -/
def RpcBlock.header (b : RpcBlock) : RpcBlock × Nat :=
  ({ b with confirmations := 0, solution := [], tx := [], valuePools := [] }, b.tx.length)

/-- The node states the same facts whenever it names the same block, witness or transaction. -/
structure OneNode (lib : AuxPowCrate) (B : IndexedBlock → Prop) : Prop where
  header : ∀ b b', B b → B b' → b.block.hash = b'.block.hash → b.block.header = b'.block.header
  transactions : ∀ b b', B b → B b' → b.block.hash = b'.block.hash →
    witnessHash lib b = witnessHash lib b' →
      b.block.tx.mapM (transactionFacts lib) = b'.block.tx.mapM (transactionFacts lib)
  pools : ∀ b b', B b → B b' → b.block.hash = b'.block.hash →
    witnessHash lib b = witnessHash lib b' → b.block.valuePools = b'.block.valuePools
  transaction : ∀ b b', B b → B b' → ∀ x ∈ b.block.tx, ∀ x' ∈ b'.block.tx, SameInstance lib x x' →
    transactionFacts lib x = transactionFacts lib x'

/-- A method that stores blocks of the node only. -/
def storesFrom (B : IndexedBlock → Prop) (_ : Db) (t : DbCall) : Prop := ∀ b ∈ t.blocks, B b

end Node

section Order

/-- The placements of a witness are stored in the order of their positions. -/
def PlacedInOrder (db : Db) : Prop := db.blockTransactions.rows.Pairwise fun r s =>
  r.blockHash = s.blockHash → r.witnessHash = s.witnessHash → r.txPosition < s.txPosition

/-- Placements of a witness that had none from here on are appended in order. -/
theorem insertBlockTransactions_ordered {txs : List RpcTransaction} (ho : PlacedInOrder db)
    (hbelow : ∀ r ∈ db.blockTransactions.rows, r.blockHash = blockHash → r.witnessHash = witness →
      r.txPosition < position)
    (h : insertBlockTransactions lib blockHash witness position txs db = .ok db') :
    PlacedInOrder db' := by
  induction txs generalizing position db with
  | nil =>
    cases h
    exact ho
  | cons first rest ih =>
    obtain ⟨id, db₁, db₂, placed, ht, -, hbt, -, -, hrest⟩ := insertBlockTransactions_cons h
    obtain ⟨row, stored, hin⟩ := insertTransaction_inserted ht
    obtain ⟨rfl, -⟩ := insertBlockTransaction_ok hbt
    have hnone : db.blockTransactions.find? (blockHash, witness, position) = none := by
      refine Table.find?_eq_none.mpr fun r hr hkey => ?_
      simp only [BlockTransactionRow.key, Prod.mk.injEq] at hkey
      have hlt := hbelow r hr hkey.1 hkey.2.1
      omega
    have hrows : (db₁.blockTransactions.insertNew ⟨blockHash, witness, position, id⟩).rows =
        db.blockTransactions.rows ++ [⟨blockHash, witness, position, id⟩] := by
      rw [hin.placements]
      exact Table.rows_insertNew_of_none hnone
    refine ih ?_ ?_ hrest
    · rw [PlacedInOrder, hrows]
      refine List.pairwise_append.mpr ⟨ho, List.pairwise_singleton _ _, ?_⟩
      intro r hr s hs hb hw
      obtain rfl := List.mem_singleton.mp hs
      exact hbelow r hr hb hw
    · intro r hr hb hw
      rw [hrows] at hr
      rcases List.mem_append.mp hr with hr | hr
      · exact (hbelow r hr hb hw).trans (Nat.lt_succ_self position)
      · obtain rfl := List.mem_singleton.mp hr
        exact Nat.lt_succ_self position

/-- Placements that are stored already are not stored again. -/
theorem insertBlockTransactions_stored {txs : List RpcTransaction}
    (hall : ∀ i < txs.length,
      (db.blockTransactions.find? (blockHash, witness, position + i)).isSome)
    (h : insertBlockTransactions lib blockHash witness position txs db = .ok db') :
    db'.blockTransactions = db.blockTransactions := by
  induction txs generalizing position db with
  | nil =>
    cases h
    rfl
  | cons first rest ih =>
    obtain ⟨id, db₁, db₂, placed, ht, -, hbt, -, -, hrest⟩ := insertBlockTransactions_cons h
    obtain ⟨row, stored, hin⟩ := insertTransaction_inserted ht
    obtain ⟨rfl, -⟩ := insertBlockTransaction_ok hbt
    have hsame : db₁.blockTransactions.insertNew ⟨blockHash, witness, position, id⟩ =
        db.blockTransactions := by
      rw [hin.placements]
      obtain ⟨r, hr⟩ := Option.isSome_iff_exists.mp (hall 0 (by simp))
      exact Table.insertNew_of_some hr
    rw [ih ?_ hrest]
    · exact hsame
    · intro i hi
      change ((db₁.blockTransactions.insertNew _).find? _).isSome
      rw [hsame, Nat.add_assoc, Nat.add_comm 1 i]
      exact hall (i + 1) (by simpa using hi)

theorem insertBlock_ordered (hs : StoreSound db) (ho : PlacedInOrder db)
    (h : insertBlock lib networkId indexed db = .ok db') : PlacedInOrder db' := by
  obtain ⟨row, stored, db₂, db₃, hrow, -, hstored, hsame, hdb₂, hloop, hdb'⟩ := insertBlock_loop h
  have hplaced : db₂.blockTransactions = db.blockTransactions := by rw [hdb₂]
  have hplaced' : db'.blockTransactions = db₃.blockTransactions := by rw [hdb']
  rw [PlacedInOrder, hplaced']
  cases hknown : db.blockWitnesses.find? (indexed.block.hash, witnessHash lib indexed) with
  | none =>
    have ho₂ : PlacedInOrder db₂ := by
      rw [PlacedInOrder, hplaced]
      exact ho
    refine insertBlockTransactions_ordered ho₂ ?_ hloop
    intro r hr hb hw
    rw [hplaced] at hr
    have hwitness := (hs.placements r hr).1
    rw [hb, hw, hknown] at hwitness
    cases hwitness
  | some w =>
    obtain ⟨b, hb, -, hall⟩ := (hs.witnesses _ (Option.isSome_of_mem hknown)).block
    have hfound : db₂.blocks.find? indexed.block.hash = some b := by
      rw [hdb₂]
      exact Table.find?_insertNew_of_find? hb
    obtain rfl := Option.some.inj (hstored.symm.trans hfound)
    have hcount : stored.transactionCount = indexed.block.tx.length := by
      have hcounts : stored.compared.transactionCount = row.compared.transactionCount :=
        congrArg _ hsame
      rw [← blockRow_count hrow]
      exact hcounts
    rw [insertBlockTransactions_stored ?_ hloop, hplaced]
    · exact ho
    · intro i hi
      rw [hplaced, Nat.zero_add]
      exact hall i (by omega)

/-- In storage order the placements of a witness are in the order of their positions. -/
theorem PlacedInOrder.stored (ho : PlacedInOrder db) (blockHash witness : Text) :
    (db.blockTransactions.rows.filter fun r =>
      r.blockHash = blockHash && r.witnessHash = witness) = storedPlacements db blockHash witness := by
  have hsorted : (db.blockTransactions.rows.filter fun r =>
      r.blockHash = blockHash && r.witnessHash = witness).Pairwise fun r s =>
        r.txPosition < s.txPosition := by
    refine (ho.filter _).imp_of_mem fun {r s} hr hs hlt => ?_
    simp only [List.mem_filter, Bool.and_eq_true, decide_eq_true_eq] at hr hs
    exact hlt (hr.2.1.trans hs.2.1.symm) (hr.2.2.trans hs.2.2.symm)
  exact (orderBy_of_sorted hsorted (.refl _)).symm

end Order

section Invariant

/-- A block of the node is recorded under a witness, with the pools it has there. -/
structure WitnessFrom (lib : AuxPowCrate) (B : IndexedBlock → Prop) (db : Db) (k : Text × Text)
    (b : IndexedBlock) : Prop where
  node : B b
  names : (b.block.hash, witnessHash lib b) = k
  recorded : ∃ networkId ids, Recorded lib networkId db b ids
  pools : ∀ pool, db.valuePoolSnapshots.find? (k.1, k.2, pool) =
    lastOf ValuePoolSnapshotRow.key (b.block.valuePools.map (valuePoolRow k.1 k.2)) (k.1, k.2, pool)

/-- Everything stored is what a block of the node says. -/
structure StoredFrom (lib : AuxPowCrate) (B : IndexedBlock → Prop) (db : Db) : Prop where
  sound : StoreSound db
  ordered : PlacedInOrder db
  blocks : ∀ r ∈ db.blocks.rows, ∃ networkId b, B b ∧ blockRow networkId b = .ok r
  instances : ∀ r ∈ db.transactionInstances.rows, ∃ b, B b ∧ ∃ x ∈ b.block.tx,
    transactionFacts lib x = .ok (storedFacts db r)
  witnesses : ∀ k, (db.blockWitnesses.find? k).isSome → ∃ b, WitnessFrom lib B db k b
  pools : ∀ k, db.blockWitnesses.find? k = none →
    ∀ pool, db.valuePoolSnapshots.find? (k.1, k.2, pool) = none

/-- The node never makes a stored transaction longer. -/
theorem StoredFrom.not_extends (hB : OneNode lib B) (h : StoredFrom lib B db) (hb : B indexed)
    {t : RpcTransaction} (ht : t ∈ indexed.block.tx) : ¬ ExtendsStored lib db t := by
  rintro ⟨row, stored, hrow, hfind, hlonger⟩
  obtain ⟨b, hnode, x, hx, hfacts⟩ := h.instances stored (Table.mem_of_find? hfind)
  obtain ⟨row', hrow', -, hcolumns, -⟩ := transactionFacts_ok hfacts
  have hkey : stored.key = row'.key := (anonymous_identity hcolumns).1
  have hsame : SameInstance lib x t :=
    ⟨row', row, hrow', hrow, hkey.symm.trans (Table.key_of_find? hfind)⟩
  rw [hB.transaction b indexed hnode hb x hx t ht hsame] at hfacts
  obtain ⟨hinputs, houtputs⟩ := transactionFacts_lengths hfacts
  simp only [storedFacts, List.length_map] at hinputs houtputs
  omega

/-- What is kept of an instance is its stored facts. -/
theorem Keeps.storedFacts_eq (h : Keeps db db') (hs : InstancesSound db) (hs' : InstancesSound db')
    {r : TransactionInstanceRow} (hr : r ∈ db.transactionInstances.rows)
    (hr' : r ∈ db'.transactionInstances.rows) : storedFacts db' r = storedFacts db r := by
  have hread := h.instances _ _ ((readInstance_eq_some hs).mpr ⟨r, hr, rfl, rfl⟩)
  obtain ⟨s, hmem, hid, hfacts⟩ := (readInstance_eq_some hs').mp hread
  rw [List.inj_on_of_nodup_map hs'.ids_nodup hmem hr' hid] at hfacts
  exact hfacts

/-- A row offered by a transaction of a recorded block holds what the transaction states. -/
theorem Recorded.facts_of_offered {ids : List Nat} {r : TransactionInstanceRow}
    (hr : Recorded lib networkId db indexed ids) (hs : InstancesSound db)
    (hmem : r ∈ db.transactionInstances.rows) (h : OfferedBy lib indexed.block.tx r) :
    ∃ x ∈ indexed.block.tx, transactionFacts lib x = .ok (storedFacts db r) := by
  obtain ⟨x, hx, hoffered⟩ := h
  obtain ⟨id, facts, hfacts, hread⟩ := hr.reads_of_mem hx
  obtain ⟨s, hs', -, rfl⟩ := (readInstance_eq_some hs).mp hread
  obtain ⟨row, hrow, -, hcolumns, -⟩ := transactionFacts_ok hfacts
  obtain ⟨-, hoffered'⟩ := transactionInstanceRow_under hoffered 0
  obtain rfl := Except.ok.inj (hoffered'.symm.trans hrow)
  have hkey : s.key = r.key := (anonymous_identity hcolumns).1
  obtain rfl : s = r := List.inj_on_of_nodup_map db.transactionInstances.nodup hs' hmem hkey
  exact ⟨x, hx, hfacts⟩

/-- One more block of the node leaves a store filled from it. -/
theorem StoredFrom.insertBlock (hB : OneNode lib B) (h : StoredFrom lib B db) (hb : B indexed)
    (hins : insertBlock lib networkId indexed db = .ok db') : StoredFrom lib B db' := by
  obtain ⟨hfacts, ids, hrecorded⟩ := insertBlock_recordedFacts h.sound.facts hins
  obtain ⟨hkeeps, -⟩ := insertBlock_keeps h.sound.facts (fun t ht => h.not_extends hB hb ht) hins
  have hi := insertBlock_inserts hins
  have hpools := insertBlock_pools hins
  refine ⟨h.sound.insertBlock hins, insertBlock_ordered h.sound h.ordered hins, ?_, ?_, ?_, ?_⟩
  · obtain ⟨row, stored, db₂, db₃, hrow, -, -, -, hdb₂, hloop, hdb'⟩ := insertBlock_loop hins
    have hblocks : db'.blocks = db.blocks.insertNew row := by
      rw [hdb', insertBlockTransactions_only hloop, hdb₂]
    intro r hr
    rw [hblocks] at hr
    rcases Table.mem_insertNew.mp hr with hold | ⟨rfl, -⟩
    · exact h.blocks r hold
    · exact ⟨networkId, indexed, hb, hrow⟩
  · intro r hr
    rcases insertBlock_rows hins hr with hold | hoffered
    · rw [hkeeps.storedFacts_eq h.sound.facts.instances hfacts.instances hold hr]
      exact h.instances r hold
    · exact ⟨indexed, hb, hrecorded.facts_of_offered hfacts.instances hr hoffered⟩
  · intro k hk
    by_cases hown : k = (indexed.block.hash, witnessHash lib indexed)
    · refine ⟨indexed, hb, hown.symm, ⟨networkId, ids, hrecorded⟩, fun pool => ?_⟩
      subst hown
      rw [hpools]
      cases hknown : db.blockWitnesses.find? (indexed.block.hash, witnessHash lib indexed) with
      | none => rw [h.pools _ hknown, Option.or_none]
      | some w =>
        obtain ⟨b, hw⟩ := h.witnesses _ (Option.isSome_of_mem hknown)
        obtain ⟨hhash, hwitness⟩ := Prod.mk.inj hw.names
        rw [hw.pools, hB.pools b indexed hw.node hb hhash hwitness, Option.or_self]
    · have hold : (db.blockWitnesses.find? k).isSome := by
        rw [← insertBlock_other_witnesses hins hown]
        exact hk
      obtain ⟨b, hw⟩ := h.witnesses k hold
      obtain ⟨n, ids', hrecorded'⟩ := hw.recorded
      refine ⟨b, hw.node, hw.names, ⟨n, ids', hrecorded'.keeps hkeeps⟩, fun pool => ?_⟩
      rw [hpools, lastOf_pools_other hown, Option.none_or]
      exact hw.pools pool
  · intro k hk pool
    have hknown := (insertBlock_witness_isSome (k := k) hins).not
    rw [hk, Option.isSome_none] at hknown
    obtain ⟨hown, hold⟩ := not_or.mp (hknown.mp (by simp))
    rw [hpools, lastOf_pools_other hown, Option.none_or]
    exact h.pools k (Option.not_isSome_iff_eq_none.mp hold) pool

theorem StoredFrom.insertBlocks (hB : OneNode lib B) {blocks : List IndexedBlock}
    (h : StoredFrom lib B db) (hb : ∀ b ∈ blocks, B b)
    (hins : insertBlocks lib networkId blocks db = .ok db') : StoredFrom lib B db' := by
  induction blocks generalizing db with
  | nil =>
    cases hins
    exact h
  | cons first rest ih =>
    obtain ⟨db₁, hfirst, hrest⟩ := insertBlocks_cons hins
    exact ih (h.insertBlock hB (hb first (by simp)) hfirst) (fun b hmem => hb b (by simp [hmem])) hrest

theorem StoredFrom.exec (hB : OneNode lib B) {w : World} {t : DbCall} {r : t.Result}
    (h : StoredFrom lib B db) (ht : storesFrom B db t) (hx : exec lib w t db = .ok (r, db')) :
    StoredFrom lib B db' := by
  have hsound := h.sound.exec hx
  obtain ⟨db₁, hins, hdb'⟩ := exec_insertBlocks hx
  have h₁ := h.insertBlocks hB ht hins
  rw [hdb'] at hsound ⊢
  refine ⟨hsound, h₁.ordered, h₁.blocks, h₁.instances, fun k hk => ?_, h₁.pools⟩
  obtain ⟨b, hw⟩ := h₁.witnesses k hk
  obtain ⟨n, ids, hrecorded⟩ := hw.recorded
  refine ⟨b, hw.node, hw.names, ⟨n, ids, hrecorded.keeps ?_⟩, hw.pools⟩
  exact ⟨List.prefix_rfl, List.prefix_rfl, fun _ _ hread => hread⟩

end Invariant

section Histories

theorem Calls.mono_log {P P' : Db → DbCall → Prop} (h : Calls lib P db log db')
    (hP : ∀ d, ∀ t ∈ log, P d t → P' d t) : Calls lib P' db log db' := by
  induction h with
  | nil => exact .nil _
  | accepted _ hp hx ih =>
    refine .accepted (ih fun d t ht => hP d t (List.mem_append_left _ ht)) (hP _ _ ?_ hp) hx
    exact List.mem_append_right _ (List.mem_singleton_self _)
  | rejected _ hx ih => exact .rejected (ih hP) hx

/-- A pass that commits blocks of the node only. -/
def commitsFrom (lib : AuxPowCrate) (B : IndexedBlock → Prop) : PassProperty lib := fun _ _ tr =>
  ∀ t ∈ committed tr, ∀ b ∈ t.blocks, B b

theorem History.mono {P P' : PassProperty lib} (h : History lib networkId P db db')
    (hP : ∀ indexer d tr, P indexer d tr → P' indexer d tr) : History lib networkId P' db db' := by
  induction h with
  | refl => exact .refl _
  | pass _ network run holds ih => exact .pass ih network run (hP _ _ _ holds)

theorem History.callsFrom (h : History lib networkId (commitsFrom lib B) db db') :
    ∃ log, Calls lib (storesFrom B) db log db' := by
  induction h with
  | refl => exact ⟨[], .nil _⟩
  | pass _ _ run holds ih =>
    obtain ⟨log, hlog⟩ := ih
    have hround : Calls lib (storesFrom B) _ _ _ :=
      (Calls.of_yields tick_yields run).mono_log fun _ t ht _ => holds t ht
    exact ⟨_, hlog.trans hround⟩

/-- A committed state of a single writer whose tables were empty at the start, and whose node
answered with the given blocks. -/
def FilledFrom (lib : AuxPowCrate) (networkId : Text) (B : IndexedBlock → Prop) (db : Db) : Prop :=
  ∃ start, EmptyNetwork networkId start ∧ NoBlocks start ∧ start.valuePoolSnapshots.rows = [] ∧
    History lib networkId (commitsFrom lib B) start db

/-- Whatever the order in which a node's blocks arrived, what is stored is what the node says. -/
theorem FilledFrom.stored (h : FilledFrom lib networkId B db) (hB : OneNode lib B) :
    StoredFrom lib B db := by
  obtain ⟨start, -, hblocks, hpools, hhistory⟩ := h
  obtain ⟨log, hcalls⟩ := hhistory.callsFrom
  have hstart : StoredFrom lib B start := by
    refine ⟨hblocks.sound, ?_, ?_, ?_, ?_, ?_⟩
    · rw [PlacedInOrder, hblocks.blockTransactions]
      exact List.Pairwise.nil
    · simp [hblocks.blocks]
    · simp [hblocks.transactionInstances]
    · intro k hk
      simp [Table.find?, hblocks.blockWitnesses] at hk
    · intro k _ pool
      simp [Table.find?, hpools]
  exact hcalls.invariant hstart fun _ _ _ _ _ ht hd hx => hd.exec hB ht hx

end Histories

end WcashExplorer
