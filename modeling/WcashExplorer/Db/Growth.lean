import WcashExplorer.Db.Complete

/-! States that grew out of another one while its branch was kept. -/
namespace WcashExplorer

open Effects Relational

variable {lib : AuxPowCrate} {networkId : Text} {db db' : Db} {log : List DbCall}
  {xs : List CanonicalRow} {c : CanonicalRow}

/-- Any method but the replacement of a branch. -/
def keepsBranch (_ : Db) : DbCall → Prop
  | .replaceCanonicalBranch .. => False
  | _ => True

theorem exec_keepsBranch {w : World} {t : DbCall} {r : t.Result} (ht : keepsBranch db t)
    (h : exec lib w t db = .ok (r, db')) (hc : c ∈ db.canonicalChain.rows) :
    c ∈ db'.canonicalChain.rows := by
  cases t with
  | canonicalTip n =>
    obtain ⟨-, rfl⟩ := reading_ok.mp h
    exact hc
  | canonicalHash n height =>
    obtain ⟨-, rfl⟩ := reading_ok.mp h
    exact hc
  | evidenceRefreshCandidate n depth =>
    obtain ⟨-, rfl⟩ := reading_ok.mp h
    exact hc
  | commitBlock n indexed =>
    obtain ⟨db₁, db₂, hins, hsel, -, rfl⟩ := commitBlock_ok (writing_ok.mp h)
    have hc₁ : c ∈ db₁.canonicalChain.rows := (insertBlock_inserts hins).canonicalChain ▸ hc
    obtain ⟨-, ⟨-, rfl⟩ | ⟨-, -, rfl⟩⟩ := insertCanonicalSelector_ok hsel
    · exact hc₁
    · exact Table.mem_insertNew.mpr (.inl hc₁)
  | refreshBlockEvidence n indexed =>
    exact (insertBlock_inserts (writing_ok.mp h)).canonicalChain ▸ hc
  | replaceCanonicalBranch n oldTip ancestor replacement => exact ht.elim
  | observeNodeTip n height hash =>
    obtain ⟨m, f, hf, -, rfl⟩ := observeNodeTip_ok (writing_ok.mp h)
    exact hc
  | updateNodeTip n height hash status error =>
    obtain ⟨m, f, hf, -, rfl⟩ := updateNodeTip_ok (writing_ok.mp h)
    exact hc
  | markIndexerError n error =>
    obtain ⟨m, f, hf, -, rfl⟩ := markIndexerError_ok (writing_ok.mp h)
    exact hc

/-- The placements of a stored witness are complete: nothing is ever added to them. -/
theorem mem_placements_of_appends (hs : StoreSound db) (hs' : StoreSound db')
    (ha : AppendsFacts db db') (hstored : (db.blockWitnesses.find? (c.blockHash, c.witnessHash)).isSome)
    {r : BlockTransactionRow} (hb : r.blockHash = c.blockHash) (hw : r.witnessHash = c.witnessHash) :
    r ∈ db'.blockTransactions.rows ↔ r ∈ db.blockTransactions.rows := by
  refine ⟨fun hr => ?_, fun hr => ha.blockTransactions.subset hr⟩
  obtain ⟨b, hblock, -, hall⟩ := (hs.witnesses _ hstored).block
  obtain ⟨b', hblock', hlt⟩ := hs'.facts.placements.counted r hr
  rw [hb, Table.find?_of_prefix ha.blocks hblock] at hblock'
  obtain rfl := Option.some.inj hblock'
  obtain ⟨s, hs⟩ := Option.isSome_iff_exists.mp (hall r.txPosition hlt)
  have hmem := Table.mem_of_find? hs
  have hkey : BlockTransactionRow.key s = BlockTransactionRow.key r := by
    rw [Table.key_of_find? hs, ← hb, ← hw]
    rfl
  have hsame : s = r := List.inj_on_of_nodup_map db'.blockTransactions.nodup
    (ha.blockTransactions.subset hmem) hr hkey
  exact hsame ▸ hmem

/-- A sound state, its canonical chain, and a later state of the same branch. -/
structure Grown (networkId : Text) (db : Db) (xs : List CanonicalRow) (db' : Db) : Prop where
  selected : Selected networkId db xs
  sound : StoreSound db
  sound' : StoreSound db'
  canonical : ∀ c ∈ db.canonicalChain.rows, c ∈ db'.canonicalChain.rows
  facts : AppendsFacts db db'

theorem Grown.of_calls (hx : Selected networkId db xs) (hs : StoreSound db)
    (h : Calls lib keepsBranch db log db') : Grown networkId db xs db' where
  selected := hx
  sound := hs
  sound' := h.sound hs
  canonical := h.invariant (I := fun d => ∀ c ∈ db.canonicalChain.rows, c ∈ d.canonicalChain.rows)
    (fun _ hc => hc) fun _ _ _ _ _ hp hd hx c hc => exec_keepsBranch hp hx (hd c hc)
  facts := h.appendsFacts

namespace Grown

/-- At the heights of the chain the selection is unchanged. -/
theorem mem_canonicalRows (h : Grown networkId db xs db') (hlt : c.height < xs.length) :
    c ∈ canonicalRows db' networkId ↔ c ∈ canonicalRows db networkId := by
  simp only [canonicalRows, List.mem_filter, decide_eq_true_eq]
  constructor
  · rintro ⟨hc, rfl⟩
    have hfind := (h.selected.represents c.height).trans (List.getElem?_eq_getElem hlt)
    have hstored := Table.mem_of_find? hfind
    have hkey : CanonicalRow.key xs[c.height] = CanonicalRow.key c := Table.key_of_find? hfind
    have hsame : xs[c.height] = c :=
      List.inj_on_of_nodup_map db'.canonicalChain.nodup (h.canonical _ hstored) hc hkey
    exact ⟨hsame ▸ hstored, rfl⟩
  · rintro ⟨hc, hn⟩
    exact ⟨h.canonical c hc, hn⟩

/-- A canonical block has its row, in the earlier state and unchanged in the later one. -/
theorem block (h : Grown networkId db xs db') (hc : c ∈ canonicalRows db networkId) :
    ∃ b, db.blocks.find? c.blockHash = some b ∧ db'.blocks.find? c.blockHash = some b ∧
      b.transactionCount ≤ i32Max ∧ ∀ i < b.transactionCount,
        (db.blockTransactions.find? (c.blockHash, c.witnessHash, i)).isSome := by
  have hmem : c ∈ db.canonicalChain.rows := List.mem_of_mem_filter hc
  obtain ⟨b, hb, hcount, hall⟩ := (h.sound.witnesses _ (h.sound.canonical c hmem)).block
  exact ⟨b, hb, Table.find?_of_prefix h.facts.blocks hb, hcount, hall⟩

/-- No later block adds a transaction to a canonical one. -/
theorem mem_placements (h : Grown networkId db xs db') (hc : c ∈ canonicalRows db networkId)
    {r : BlockTransactionRow} (hb : r.blockHash = c.blockHash) (hw : r.witnessHash = c.witnessHash) :
    r ∈ db'.blockTransactions.rows ↔ r ∈ db.blockTransactions.rows :=
  mem_placements_of_appends h.sound h.sound' h.facts
    (h.sound.canonical c (List.mem_of_mem_filter hc)) hb hw

end Grown

end WcashExplorer
