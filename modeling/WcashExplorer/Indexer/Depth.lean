import WcashExplorer.Indexer.Node

/-! The depth of reorganizations: the search counts from the lower of the two tips. -/
namespace WcashExplorer

open Effects Relational

variable {lib : AuxPowCrate} {self indexer : Indexer lib} {networkId : Text} {start db db' : Db}
  {tr seg : Trace} {xs opening : List CanonicalRow} {d : Nat}

/-- The logged reorganization detached at most `d` blocks. -/
def DepthWithin (d : Nat) (e : ReorgEventRow) : Prop :=
  ∃ a ∈ e.commonAncestorHeight, e.oldTipHeight ≤ a + d

/-- The search compared a height and found the store and the node in agreement there. -/
def Agrees (networkId : Text) (db : Db) (tr : Trace) (height : Nat) : Prop :=
  ∃ hash, Compared tr height hash ∧ storedHash networkId db height = some hash

/-- The search counts from the lower of the two tips. Where that is the node's, an agreement
within the limit of it is within the limit of the stored tip, too. -/
def SearchCoversTip (lib : AuxPowCrate) : PassProperty lib := fun indexer start tr =>
  ∀ n tipHash t, snapshotOf tr = some (n, tipHash) →
    canonicalTip start indexer.network.id = some t → n < t.height →
    ∀ h, Agrees indexer.network.id start tr h → n ≤ h + indexer.maxReorgDepth →
      t.height ≤ h + indexer.maxReorgDepth

/-- Passes of one limit whose search covers the stored tip. -/
def CoveredWithin (lib : AuxPowCrate) (d : Nat) : PassProperty lib := fun indexer start tr =>
  indexer.maxReorgDepth = d ∧ SearchCoversTip lib indexer start tr

/-- None of the node's answers agrees with the store at a height within the limit of its tip. -/
def DeeplyDiverged (indexer : Indexer lib) (start : Db) (tr : Trace) : Prop :=
  ∃ t, canonicalTip start indexer.network.id = some t ∧
    ∀ h hash, t.height ≤ h + indexer.maxReorgDepth → asked (.blockHash h) (.ok hash) ∈ tr →
      storedHash indexer.network.id start h ≠ some hash

theorem Compared.asked {height : Nat} {hash : Text} (h : Compared tr height hash) :
    asked (.blockHash height) (.ok hash) ∈ tr := by
  obtain ⟨pre, post, networkId, w, r, rfl⟩ := h
  simp

/-- Two stores with one selection have the same hashes selected. -/
theorem Selected.storedHash_congr (hx : Selected networkId db xs) (hy : Selected networkId db' xs) :
    storedHash networkId db = storedHash networkId db' := by
  funext h
  rw [hx.storedHash_eq, hy.storedHash_eq]

/-- The store and the node agree at the ancestor of a replacement. -/
theorem Replaces.agrees {oldTip : ChainTip} {a : Nat} {hash : Text}
    (h : Replaces self opening tr db oldTip (some (a, hash)))
    (hs : Selected self.network.id start opening) : Agrees self.network.id start tr a := by
  obtain ⟨hx, t, n, tipHash, b, hash', -, -, -, hab, hle, -, hselected, hverdict⟩ := h
  cases hab
  obtain ⟨answer, hcompared, hiff⟩ := hverdict a (Nat.le_refl a) hle
  exact ⟨answer, hcompared, hx.storedHash_congr hs ▸ hiff.mpr rfl⟩

theorem SearchCoversTip.of_prefix (h : SearchCoversTip lib self start (tr ++ seg)) :
    SearchCoversTip lib self start tr := by
  intro n tipHash t hsnap ht hlt k hk hnear
  obtain ⟨hash, hcompared, hstored⟩ := hk
  exact h n tipHash t (snapshotOf_append hsnap) ht hlt k ⟨hash, hcompared.append_right, hstored⟩ hnear

/-- A search that covers the stored tip finds the ancestor within the limit of it. -/
theorem Replaces.depth_le {oldTip : ChainTip} {a : Nat} {hash : Text}
    (h : Replaces self opening tr db oldTip (some (a, hash)))
    (hs : Selected self.network.id start opening) (hcovers : SearchCoversTip lib self start tr) :
    oldTip.height ≤ a + self.maxReorgDepth := by
  have hagrees := h.agrees hs
  obtain ⟨hx, l, n, tipHash, b, hash', hl, rfl, hsnap, hab, hle, hbound, -⟩ := h
  cases hab
  have htip : canonicalTip start self.network.id = some l.tip := by
    rw [hs.canonicalTip_eq, hl, Option.map_some]
  by_cases hn : n < l.height
  · exact hcovers n tipHash l.tip hsnap htip hn a hagrees (by omega)
  · simp only [CanonicalRow.tip]
    omega

/-- A pass that moved on was told a stored hash within the limit of the stored tip. -/
theorem Moved.not_diverged (h : Moved self opening tr) (hs : Selected self.network.id start opening)
    (hcovers : SearchCoversTip lib self start tr) : ¬ DeeplyDiverged self start tr := by
  rintro ⟨t, ht, hdiverged⟩
  rw [hs.canonicalTip_eq] at ht
  obtain ⟨l, hl, rfl⟩ := Option.map_eq_some_iff.mp ht
  rcases h with hcontinues | ⟨db, oldTip, ancestor, hreplaces⟩
  · refine hdiverged l.height l.blockHash (Nat.le_add_right _ _) (hcontinues l hl) ?_
    have hlast := hs.last_height hl
    rw [List.getLast?_eq_getElem?, show opening.length - 1 = l.height by omega] at hl
    rw [hs.storedHash_eq, hl, Option.map_some]
  · obtain ⟨l', n, tipHash, a, hash, hl', rfl, -, rfl, -⟩ := hreplaces.found
    obtain rfl := Option.some.inj (hl.symm.trans hl')
    have hdepth := hreplaces.depth_le hs hcovers
    obtain ⟨answer, hcompared, hstored⟩ := hreplaces.agrees hs
    exact hdiverged a answer hdepth hcompared.asked hstored

/-- The transactions of a deeply diverged pass leave the selector alone. -/
theorem Justified.selector_unchanged {w : World} {t : DbCall} {r : t.Result}
    (h : Justified self opening tr db t) (hs : Selected self.network.id start opening)
    (hcovers : SearchCoversTip lib self start (tr ++ seg))
    (hdiverged : DeeplyDiverged self start (tr ++ seg)) (hexec : exec lib w t db = .ok (r, db')) :
    db'.canonicalChain = db.canonicalChain := by
  have hstatus : StatusOnly db db' → db'.canonicalChain = db.canonicalChain := by
    rintro ⟨_, _, _, -, rfl⟩
    rfl
  have hstuck : ¬ Moved self opening tr := fun hmoved =>
    Moved.not_diverged (hmoved.append_right) hs hcovers hdiverged
  cases t with
  | canonicalTip n => exact (reading_ok.mp hexec).2 ▸ rfl
  | canonicalHash n height => exact (reading_ok.mp hexec).2 ▸ rfl
  | evidenceRefreshCandidate n depth => exact (reading_ok.mp hexec).2 ▸ rfl
  | commitBlock n indexed => exact (hstuck (.inl h.2.2)).elim
  | refreshBlockEvidence n indexed => exact (insertBlock_inserts (writing_ok.mp hexec)).canonicalChain
  | replaceCanonicalBranch n oldTip ancestor blocks =>
    exact (hstuck (.inr ⟨_, _, _, h.2⟩)).elim
  | observeNodeTip n height hash => exact hstatus (observeNodeTip_ok (writing_ok.mp hexec))
  | updateNodeTip n height hash status error => exact hstatus (updateNodeTip_ok (writing_ok.mp hexec))
  | markIndexerError n error => exact hstatus (markIndexerError_ok (writing_ok.mp hexec))

/-- A deeply diverged pass neither changes the selector nor ends well. -/
theorem deep_divergence_fails {rest : Action SyncOutcome} (hs : Selected self.network.id start opening)
    (hinit : Initialized self.network.id start)
    (run : Run (exec lib) (self.syncOnce, start) tr (rest, db'))
    (hcovers : SearchCoversTip lib self start tr) (hdiverged : DeeplyDiverged self start tr) :
    db'.canonicalChain = start.canonicalChain ∧ ∀ outcome, rest ≠ .ret outcome := by
  have hens := syncOnce_justified hs hinit
  have hallowed : ∀ ev ∈ tr, ev.Allowed (passContract self opening) := by
    intro ev _
    cases ev <;> exact trivial
  constructor
  · refine hens.invariant (I := fun d => d.canonicalChain = start.canonicalChain) ?_ hallowed run rfl
    rintro pre w t r d d' ⟨seg, hpre⟩ hj hd hexec
    rw [List.nil_append, List.append_assoc] at hpre
    subst hpre
    exact (hj.selector_unchanged hs hcovers hdiverged hexec).trans hd
  · rintro outcome rfl
    have hcompleted := hens.run hallowed run outcome rfl
    exact hcompleted.moved.not_diverged hs hcovers hdiverged

/-- A transaction of a covered pass only logs reorganizations within the limit. -/
theorem Justified.events_within {w : World} {t : DbCall} {r : t.Result}
    (h : Justified self opening tr db t) (hs : Selected self.network.id start opening)
    (hcovers : SearchCoversTip lib self start tr) (hexec : exec lib w t db = .ok (r, db'))
    (hdb : ∀ e ∈ db.reorgEvents.rows, e.networkId = self.network.id →
      DepthWithin self.maxReorgDepth e) :
    ∀ e ∈ db'.reorgEvents.rows, e.networkId = self.network.id → DepthWithin self.maxReorgDepth e := by
  have hsame : db'.reorgEvents = db.reorgEvents → ∀ e ∈ db'.reorgEvents.rows,
      e.networkId = self.network.id → DepthWithin self.maxReorgDepth e := by
    intro heq
    rw [heq]
    exact hdb
  have hstatus : StatusOnly db db' → db'.reorgEvents = db.reorgEvents := by
    rintro ⟨_, _, _, -, rfl⟩
    rfl
  cases t with
  | canonicalTip n => exact hsame ((reading_ok.mp hexec).2 ▸ rfl)
  | canonicalHash n height => exact hsame ((reading_ok.mp hexec).2 ▸ rfl)
  | evidenceRefreshCandidate n depth => exact hsame ((reading_ok.mp hexec).2 ▸ rfl)
  | commitBlock n indexed =>
    obtain ⟨db₁, db₂, hins, hsel, -, rfl⟩ := commitBlock_ok (writing_ok.mp hexec)
    have hi := insertBlock_inserts hins
    refine hsame (Eq.trans ?_ hi.reorgEvents)
    obtain ⟨-, ⟨-, rfl⟩ | ⟨-, -, rfl⟩⟩ := insertCanonicalSelector_ok hsel <;> rfl
  | refreshBlockEvidence n indexed =>
    exact hsame (insertBlock_inserts (writing_ok.mp hexec)).reorgEvents
  | replaceCanonicalBranch n oldTip ancestor blocks =>
    obtain ⟨rfl, hreplaces⟩ := h
    obtain ⟨l, k, tipHash, a, hash, -, -, -, rfl, -⟩ := hreplaces.found
    intro e he hn
    rcases replaceCanonicalBranch_events (writing_ok.mp hexec) he with
      ⟨e₀, he₀, rfl | rfl⟩ | ⟨-, hheight, hancestor⟩
    · exact hdb e he₀ hn
    · exact hdb e₀ he₀ hn
    · refine ⟨a, hancestor, ?_⟩
      rw [hheight]
      exact hreplaces.depth_le hs hcovers
  | observeNodeTip n height hash => exact hsame (hstatus (observeNodeTip_ok (writing_ok.mp hexec)))
  | updateNodeTip n height hash status error =>
    exact hsame (hstatus (updateNodeTip_ok (writing_ok.mp hexec)))
  | markIndexerError n error => exact hsame (hstatus (markIndexerError_ok (writing_ok.mp hexec)))

/-- While every search covers the stored tip, no logged reorganization is deeper than the limit,
and a deeper divergence fails the pass and leaves the selector as it was. -/
theorem reorganizations_bounded (hempty : EmptyNetwork networkId start)
    (h : History lib networkId (CoveredWithin lib d) start db) :
    (∀ e ∈ db.reorgEvents.rows, e.networkId = networkId → DepthWithin d e) ∧
    ∀ (indexer : Indexer lib) (tr : Trace) (rest : Action SyncOutcome) (db' : Db),
      indexer.network.id = networkId → CoveredWithin lib d indexer db tr →
      Run (exec lib) (indexer.syncOnce, db) tr (rest, db') → DeeplyDiverged indexer db tr →
      db'.canonicalChain = db.canonicalChain ∧ ∀ outcome, rest ≠ .ret outcome := by
  refine ⟨?_, ?_⟩
  · refine (h.invariant (I := fun db => ∀ e ∈ db.reorgEvents.rows, e.networkId = networkId →
      DepthWithin d e) ?_ hempty.chainInvariant fun e he hn => (hempty.events e he hn).elim).2
    rintro indexer start full pre w t r d d' opening xs ys rfl ⟨rfl, hcovers⟩ hs ⟨seg, rfl⟩ hj - - -
      hexec hd
    rw [List.append_assoc] at hcovers
    exact hj.events_within hs hcovers.of_prefix hexec hd
  · rintro indexer tr rest db' rfl ⟨-, hcovers⟩ run hdiverged
    obtain ⟨⟨xs, hx⟩, hinit⟩ := h.chainInvariant hempty.chainInvariant
    exact deep_divergence_fails hx hinit run hcovers hdiverged

/-- A node that is not below the stored tip leaves nothing uncovered. -/
theorem searchCoversTip_of_le (h : (canonicalTip start self.network.id).all
    (fun t => (snapshotOf tr).all fun s => t.height ≤ s.1) = true) :
    SearchCoversTip lib self start tr := by
  intro n tipHash t hsnap ht hlt
  rw [hsnap, ht] at h
  have hle : t.height ≤ n := by simpa using h
  omega

example : SearchCoversTip sampleCrate (sampleIndexer 10) (initialDb sampleNetwork) [] :=
  searchCoversTip_of_le (by decide +kernel)

/-- A reorganization of depth one, within the limit. -/
theorem reorganizations_bounded_reorganized :
    (sampleDb [['1', '2'], ['1', '3', '4']]).reorgEvents.rows.length = 1 ∧
    ∀ e ∈ (sampleDb [['1', '2'], ['1', '3', '4']]).reorgEvents.rows,
      e.networkId = sampleNetwork → DepthWithin 10 e := by
  refine ⟨by decide +kernel, ?_⟩
  have h₀ : History sampleCrate sampleNetwork (CoveredWithin sampleCrate 10)
      (initialDb sampleNetwork) (sampleDb []) := .refl _
  have h₁ := h₀.sample ['1', '2'] ⟨rfl, searchCoversTip_of_le (by decide +kernel)⟩
  have h₂ : History sampleCrate sampleNetwork (CoveredWithin sampleCrate 10)
      (initialDb sampleNetwork) (sampleDb [['1', '2'], ['1', '3', '4']]) :=
    h₁.sample ['1', '3', '4'] ⟨rfl, searchCoversTip_of_le (by decide +kernel)⟩
  exact (reorganizations_bounded (initialDb_empty sampleNetwork) h₂).1

instance : Decidable (DepthWithin d e) := by
  unfold DepthWithin
  infer_instance

/-- A node three blocks below the stored tip is followed down under a limit of one. -/
theorem truncation_exceeds_limit : ¬ ∀ (indexer : Indexer sampleCrate) (db : Db)
    (env : Environment explorer World), indexer.network.id = sampleNetwork →
    Reachable sampleCrate sampleNetwork db →
    ∀ e ∈ (indexer.round env db).reorgEvents.rows, e ∉ db.reorgEvents.rows →
      DepthWithin indexer.maxReorgDepth e := by
  intro h
  have hfound : ∃ e ∈ ((sampleIndexer 1).round (steadyNode [])
      (sampleDb [['1', '2', '3']])).reorgEvents.rows,
      e ∉ (sampleDb [['1', '2', '3']]).reorgEvents.rows ∧ ¬ DepthWithin 1 e := by
    decide +kernel
  obtain ⟨e, he, hnew, hdeep⟩ := hfound
  exact hdeep (h (sampleIndexer 1) _ _ rfl (sampleDb_reachable _) e he hnew)

end WcashExplorer
