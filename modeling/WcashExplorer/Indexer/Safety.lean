import WcashExplorer.Indexer.Node

/-! Safety of the canonical chain against an arbitrary node. -/
namespace WcashExplorer

open Effects Relational

variable {lib : AuxPowCrate} {networkId : Text} {db db' : Db} {xs ys : List CanonicalRow}

/-- No step replaces the first row of a chain. -/
theorem SelectionStep.genesis_stays {t : DbCall} (h : SelectionStep lib networkId t db db' xs ys)
    {r : CanonicalRow} (hr : xs[0]? = some r) : ys[0]? = some r := by
  obtain ⟨hpos, -⟩ := List.getElem?_eq_some_iff.mp hr
  cases h with
  | unchanged _ => exact hr
  | append _ _ => rwa [List.getElem?_append_left hpos]
  | @replace a s oldTip blocks _ ancestor _ =>
    obtain ⟨ha, -⟩ := List.getElem?_eq_some_iff.mp ancestor
    have hlen : 0 < (xs.take (a + 1)).length := by
      rw [List.length_take]
      omega
    rw [List.getElem?_append_left hlen, List.getElem?_take]
    simpa using hr

/-- A history keeps the row selected at height zero. -/
theorem History.genesis_stays {P : PassProperty lib} (h : History lib networkId P db db')
    (hc : ChainInvariant networkId db) {r : CanonicalRow}
    (hr : db.canonicalChain.find? (networkId, 0) = some r) :
    db'.canonicalChain.find? (networkId, 0) = some r := by
  refine (h.invariant (I := fun d => d.canonicalChain.find? (networkId, 0) = some r) ?_ hc hr).2
  intro indexer start full pre w t res d d' opening zs zs' _ _ _ _ _ hz hz' hstep _ hd
  rw [hz'.represents]
  exact hstep.genesis_stays ((hz.represents 0).symm.trans hd)

/-- Two selected rows one height apart are linked by the stored predecessor. -/
theorem Selected.parent_stored (hx : Selected networkId db xs) {r s : CanonicalRow}
    (hr : r ∈ xs) (hs : s ∈ xs) (hh : r.height = s.height + 1) :
    ∃ b, db.blocks.find? r.blockHash = some b ∧ b.previousBlockHash = some s.blockHash := by
  obtain ⟨i, hi⟩ := List.mem_iff_getElem?.mp hr
  obtain ⟨j, hj⟩ := List.mem_iff_getElem?.mp hs
  have hij : i = j + 1 := by
    rw [← (hx.key_eq hi).2, ← (hx.key_eq hj).2]
    exact hh
  subst hij
  have hp : storedParent db r.blockHash = some s.blockHash := by
    refine hx.linked.parent (n := j) ?_ ?_
    · rw [List.getElem?_map, hj, Option.map_some]
    · rw [List.getElem?_map, hi, Option.map_some]
  exact Option.bind_eq_some_iff.mp hp

/-- In every committed state, whatever the node answered to whichever call, the network's
selector fills the heights up to its tip, is linked by the stored predecessors, selects no hash
twice, and has kept its genesis row. -/
theorem canonical_chain_safe (h : Reachable lib networkId db) :
    (∃ n, ∀ height, (∃ r ∈ db.canonicalChain.rows, r.networkId = networkId ∧ r.height = height) ↔
      height < n) ∧
    (∀ r ∈ db.canonicalChain.rows, ∀ s ∈ db.canonicalChain.rows, r.networkId = networkId →
      s.networkId = networkId → r.height = s.height + 1 →
      ∃ b, db.blocks.find? r.blockHash = some b ∧ b.previousBlockHash = some s.blockHash) ∧
    (∀ r ∈ db.canonicalChain.rows, ∀ s ∈ db.canonicalChain.rows, r.networkId = networkId →
      s.networkId = networkId → r.blockHash = s.blockHash → r = s) ∧
    (∀ later, History lib networkId (anyPass lib) db later → ∀ r ∈ db.canonicalChain.rows,
      r.networkId = networkId → r.height = 0 →
      later.canonicalChain.find? (networkId, 0) = some r) := by
  obtain ⟨⟨xs, hx⟩, hinit⟩ := h.chainInvariant
  have hmem : ∀ r ∈ db.canonicalChain.rows, r.networkId = networkId → r ∈ xs := by
    intro r hr hn
    refine hx.mem_canonicalRows.mp ?_
    simp [canonicalRows, hr, hn]
  refine ⟨⟨xs.length, fun height => hx.occupied_iff⟩, ?_, ?_, ?_⟩
  · intro r hr s hs hrn hsn hh
    exact hx.parent_stored (hmem r hr hrn) (hmem s hs hsn) hh
  · intro r hr s hs hrn hsn hb
    exact List.inj_on_of_nodup_map hx.nodup (hmem r hr hrn) (hmem s hs hsn) hb
  · intro later hlater r hr hn hh
    refine hlater.genesis_stays ⟨⟨xs, hx⟩, hinit⟩ ?_
    have hk : r.key = (networkId, 0) := by simp [CanonicalRow.key, hn, hh]
    exact hk ▸ Table.find?_of_mem hr

/-- The guarantees at work on a store that has been through a reorganization. -/
theorem canonical_chain_safe_reorganized :
    (canonicalRows (sampleDb [['1', '2'], ['1', '3', '4']]) sampleNetwork).map
      CanonicalRow.blockHash = [sampleHash '0', sampleHash '1', sampleHash '3', sampleHash '4'] ∧
    ∃ n, ∀ height, (∃ r ∈ (sampleDb [['1', '2'], ['1', '3', '4']]).canonicalChain.rows,
      r.networkId = sampleNetwork ∧ r.height = height) ↔ height < n :=
  ⟨by decide +kernel, (canonical_chain_safe (sampleDb_reachable _)).1⟩

end WcashExplorer
