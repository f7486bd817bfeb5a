import WcashExplorer.Indexer.Pass

/-! Histories of one writer: any passes, stopped anywhere, against any node. -/
namespace WcashExplorer

open Effects Relational

variable {lib : AuxPowCrate} {networkId : Text} {db db' db'' : Db}

/-- A statement about one pass: its configuration, the store it starts on, what happens. -/
abbrev PassProperty (lib : AuxPowCrate) : Type := Indexer lib → Db → Trace → Prop

/-- The store moves from one state to another by rounds of a single writer. A round may stop
anywhere, so every committed state of one is the end of a history. -/
inductive History (lib : AuxPowCrate) (networkId : Text) (P : PassProperty lib) : Db → Db → Prop
  | refl (db : Db) : History lib networkId P db db
  | pass {db db₁ db₂ : Db} {indexer : Indexer lib} {tr : Trace} {rest : Action Unit}
      (before : History lib networkId P db db₁) (network : indexer.network.id = networkId)
      (run : Run (exec lib) (indexer.tick, db₁) tr (rest, db₂)) (holds : P indexer db₁ tr) :
      History lib networkId P db db₂

/-- No assumption on a pass. -/
def anyPass (lib : AuxPowCrate) : PassProperty lib := fun _ _ _ => True

/-- The network is initialized and nothing of it has been indexed. -/
structure EmptyNetwork (networkId : Text) (db : Db) : Prop where
  selector : ∀ r ∈ db.canonicalChain.rows, r.networkId ≠ networkId
  state : ∃ updatedAt, db.chainState.find? networkId = some { networkId, updatedAt }
  events : ∀ e ∈ db.reorgEvents.rows, e.networkId ≠ networkId

/-- A committed state of a single writer that started from an empty network. -/
def Reachable (lib : AuxPowCrate) (networkId : Text) (db : Db) : Prop :=
  ∃ start, EmptyNetwork networkId start ∧ History lib networkId (anyPass lib) start db

/-- The selector is some chain, and the network's state row exists. -/
def ChainInvariant (networkId : Text) (db : Db) : Prop :=
  (∃ xs, Selected networkId db xs) ∧ Initialized networkId db

theorem EmptyNetwork.selected (h : EmptyNetwork networkId db) : Selected networkId db [] where
  represents := by
    intro height
    refine Table.find?_eq_none.mpr ?_
    intro r hr hk
    exact h.selector r hr (congrArg Prod.fst hk)
  linked := Chain.linked_nil
  nodup := List.nodup_nil
  stored := by simp
  bounded := by simp

theorem EmptyNetwork.initialized (h : EmptyNetwork networkId db) : Initialized networkId db := by
  obtain ⟨t, ht⟩ := h.state
  exact Option.isSome_of_mem ht

theorem EmptyNetwork.chainInvariant (h : EmptyNetwork networkId db) :
    ChainInvariant networkId db := ⟨⟨[], h.selected⟩, h.initialized⟩

/-- A transaction's effect on the selection, where the pass was entitled to it. -/
inductive SelectionStep (lib : AuxPowCrate) (networkId : Text) (t : DbCall) (db db' : Db)
    (xs : List CanonicalRow) : List CanonicalRow → Prop
  | unchanged (tip : recordedTip networkId db' = recordedTip networkId db) :
      SelectionStep lib networkId t db db' xs xs
  | append {indexed : IndexedBlock} (call : t = .commitBlock networkId indexed)
      (tip : recordedTip networkId db' = some (some indexed.block.height, some indexed.block.hash,
        some (witnessHash lib indexed))) :
      SelectionStep lib networkId t db db' xs (xs ++ [canonicalRow lib networkId indexed])
  | replace {a : Nat} {r : CanonicalRow} {oldTip : ChainTip} {blocks : List IndexedBlock}
      (call : t = .replaceCanonicalBranch networkId oldTip (some (a, r.blockHash)) blocks)
      (ancestor : xs[a]? = some r)
      (tip : recordedTip networkId db' = some
        ((blocks.getLast?.map fun b => b.block.height).or (some a),
          (blocks.getLast?.map fun b => b.block.hash).or (some r.blockHash),
          blocks.getLast?.map (witnessHash lib))) :
      SelectionStep lib networkId t db db' xs
        (xs.take (a + 1) ++ blocks.map (canonicalRow lib networkId))

theorem SelectionStep.read {t : DbCall} {xs : List CanonicalRow} :
    SelectionStep lib networkId t db db xs xs := .unchanged rfl

theorem recordedTip_of_inserts (hi : Inserts db db') :
    recordedTip networkId db' = recordedTip networkId db := by
  rw [recordedTip, recordedTip, hi.chainState]

/-- Every justified transaction takes the selected chain to a selected chain by one of the
three steps. -/
theorem justified_step {indexer : Indexer lib} {tr : Trace} {w : World} {t : DbCall}
    {r : t.Result} {xs : List CanonicalRow} {opening : List CanonicalRow}
    (hj : Justified indexer opening tr db t) (hx : Selected indexer.network.id db xs)
    (hinit : Initialized indexer.network.id db) (hexec : exec lib w t db = .ok (r, db')) :
    ∃ ys, Selected indexer.network.id db' ys ∧ Initialized indexer.network.id db' ∧
      SelectionStep lib indexer.network.id t db db' xs ys := by
  have hquiet : StatusOnly db db' → ∃ ys, Selected indexer.network.id db' ys ∧
      Initialized indexer.network.id db' ∧
      SelectionStep lib indexer.network.id t db db' xs ys := fun h =>
    ⟨xs, h.selected hx, h.initialized hinit, .unchanged (h.recordedTip_eq _)⟩
  cases t with
  | canonicalTip n =>
    obtain ⟨-, rfl⟩ := reading_ok.mp hexec
    exact ⟨xs, hx, hinit, .read⟩
  | canonicalHash n height =>
    obtain ⟨-, rfl⟩ := reading_ok.mp hexec
    exact ⟨xs, hx, hinit, .read⟩
  | evidenceRefreshCandidate n depth =>
    obtain ⟨-, rfl⟩ := reading_ok.mp hexec
    exact ⟨xs, hx, hinit, .read⟩
  | commitBlock n indexed =>
    obtain ⟨rfl, ⟨ys, hy, hheight, hprevious⟩, -⟩ := hj
    obtain rfl := hx.unique hy
    obtain ⟨hx', htip⟩ := hx.commitBlock hinit hheight hprevious (writing_ok.mp hexec)
    exact ⟨_, hx', initialized_of_recordedTip htip, .append rfl htip⟩
  | refreshBlockEvidence n indexed =>
    have hi := insertBlock_inserts (writing_ok.mp hexec)
    refine ⟨xs, hx.of_inserts hi, ?_, .unchanged (recordedTip_of_inserts hi)⟩
    rw [Initialized, hi.chainState]
    exact hinit
  | replaceCanonicalBranch n oldTip ancestor blocks =>
    obtain ⟨rfl, -, l, k, tipHash, a, hash, -, -, -, rfl, -, -, hselected, -⟩ := hj
    obtain ⟨s, hs, rfl⟩ := Option.map_eq_some_iff.mp (hx.storedHash_eq.symm.trans hselected)
    have hrep := writing_ok.mp hexec
    have htip := recordedTip_replaceCanonicalBranch hinit hrep
    exact ⟨_, hx.replaceCanonicalBranch hs rfl hrep, initialized_of_recordedTip htip,
      .replace rfl hs htip⟩
  | observeNodeTip n height hash => exact hquiet (observeNodeTip_ok (writing_ok.mp hexec))
  | updateNodeTip n height hash status error => exact hquiet (updateNodeTip_ok (writing_ok.mp hexec))
  | markIndexerError n error => exact hquiet (markIndexerError_ok (writing_ok.mp hexec))

/-- What every justified transaction on a selected chain preserves holds after any history. -/
theorem History.invariant {P : PassProperty lib} {I : Db → Prop}
    (hI : ∀ {indexer : Indexer lib} {start : Db} {full pre : Trace} {w : World} {t : DbCall}
      {r : t.Result} {db db' : Db} {opening xs ys : List CanonicalRow},
      indexer.network.id = networkId → P indexer start full → Selected networkId start opening →
      pre ++ [done w t (.ok r)] <+: full → Justified indexer opening pre db t →
      Selected networkId db xs → Selected networkId db' ys →
      SelectionStep lib networkId t db db' xs ys → exec lib w t db = .ok (r, db') → I db → I db')
    (h : History lib networkId P db db') (hc : ChainInvariant networkId db) (hdb : I db) :
    ChainInvariant networkId db' ∧ I db' := by
  induction h with
  | refl => exact ⟨hc, hdb⟩
  | @pass db₁ db₂ indexer tr rest _ network run holds ih =>
    obtain ⟨⟨⟨xs, hx⟩, hinit⟩, hdb₁⟩ := ih
    subst network
    have hens := tick_justified hx hinit
    have hstart : ChainInvariant indexer.network.id db₁ ∧ I db₁ := ⟨⟨⟨xs, hx⟩, hinit⟩, hdb₁⟩
    refine hens.invariant (I := fun d => ChainInvariant indexer.network.id d ∧ I d) ?_
      (fun ev _ => by cases ev <;> exact trivial) run hstart
    rintro pre w t r d d' hpre hj ⟨⟨⟨zs, hz⟩, hinitd⟩, hd⟩ hexec
    obtain ⟨ys, hy, hinit', hstep⟩ := justified_step hj hz hinitd hexec
    exact ⟨⟨⟨ys, hy⟩, hinit'⟩, hI rfl holds hx hpre hj hz hy hstep hexec hd⟩

theorem History.chainInvariant {P : PassProperty lib} (h : History lib networkId P db db')
    (hc : ChainInvariant networkId db) : ChainInvariant networkId db' :=
  (h.invariant (I := fun _ => True) (fun _ _ _ _ _ _ _ _ _ _ => trivial) hc trivial).1

theorem Reachable.chainInvariant (h : Reachable lib networkId db) :
    ChainInvariant networkId db := by
  obtain ⟨start, hempty, hhistory⟩ := h
  exact hhistory.chainInvariant hempty.chainInvariant

end WcashExplorer
