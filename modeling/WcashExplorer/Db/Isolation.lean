import WcashExplorer.Db.Networks
import WcashExplorer.Effects.Serial
import WcashExplorer.Indexer.Overlap

/-! Networks that share a store: a method works on its own network and leaves the others alone. -/
namespace WcashExplorer

open Effects Relational

variable {lib : AuxPowCrate} {networkId other : Text} {indexed : IndexedBlock} {db db' db₁ : Db}
  {now : Timestamp} {xs : List CanonicalRow}

/-- What a network's chain is made of is left alone; blocks may be added. -/
structure Elsewhere (networkId : Text) (db db' : Db) : Prop where
  selector : ∀ h, db'.canonicalChain.find? (networkId, h) = db.canonicalChain.find? (networkId, h)
  state : db'.chainState.find? networkId = db.chainState.find? networkId
  blocks : db.blocks.rows <+: db'.blocks.rows

namespace Elsewhere

theorem refl (db : Db) : Elsewhere networkId db db :=
  ⟨fun _ => rfl, rfl, List.prefix_rfl⟩

theorem trans (h : Elsewhere networkId db db₁) (h' : Elsewhere networkId db₁ db') :
    Elsewhere networkId db db' where
  selector := fun height => (h'.selector height).trans (h.selector height)
  state := h'.state.trans h.state
  blocks := h.blocks.trans h'.blocks

theorem of_inserts (h : Inserts db db') : Elsewhere networkId db db' where
  selector := by
    intro height
    rw [h.canonicalChain]
  state := by rw [h.chainState]
  blocks := h.blocks

theorem updateChainState {f : ChainStateRow → ChainStateRow} {hf : ∀ r, (f r).networkId = r.networkId}
    (hne : other ≠ networkId) : Elsewhere networkId db (updateChainState other f hf db) where
  selector := fun _ => rfl
  state := by
    rw [WcashExplorer.updateChainState, Table.find?_updateWhere]
    cases hc : db.chainState.find? networkId with
    | none => rfl
    | some c =>
      have hother : c.networkId ≠ other := Table.key_of_find? hc ▸ hne.symm
      simp [hother]
  blocks := List.prefix_rfl

theorem insertSelector (hne : other ≠ networkId)
    (h : insertCanonicalSelector lib other indexed db = .ok db') : Elsewhere networkId db db' := by
  obtain ⟨-, ⟨-, rfl⟩ | ⟨-, -, rfl⟩⟩ := insertCanonicalSelector_ok h
  · exact refl _
  · refine ⟨?_, rfl, List.prefix_rfl⟩
    intro height
    refine Table.find?_insertNew_of_ne ?_
    exact fun he => hne (congrArg Prod.fst he)

theorem insertSelectors {blocks : List IndexedBlock} (hne : other ≠ networkId)
    (h : insertSelectors lib other blocks db = .ok db') : Elsewhere networkId db db' := by
  induction blocks generalizing db with
  | nil =>
    cases h
    exact refl _
  | cons first rest ih =>
    simp only [WcashExplorer.insertSelectors, Result.bind_eq_ok] at h
    obtain ⟨db₁, hfirst, hrest⟩ := h
    exact (insertSelector hne hfirst).trans (ih hrest)

theorem detach (hne : other ≠ networkId) (height : Option Nat) :
    Elsewhere networkId db (detach other height db) where
  selector := by
    intro h
    rw [WcashExplorer.detach, Table.find?_deleteWhere]
    cases hr : db.canonicalChain.find? (networkId, h) with
    | none => rfl
    | some r =>
      have hn : r.networkId = networkId := congrArg Prod.fst (Table.key_of_find? hr)
      have hother : r.networkId ≠ other := hn ▸ hne.symm
      simp [hother]
  state := rfl
  blocks := List.prefix_rfl

end Elsewhere

/-- A method leaves the chains of all networks but its own alone. -/
theorem exec_elsewhere {w : World} {t : DbCall} {r : t.Result}
    (h : exec lib w t db = .ok (r, db')) (hne : t.networkId ≠ networkId) :
    Elsewhere networkId db db' := by
  cases t with
  | canonicalTip n => exact (reading_ok.mp h).2 ▸ .refl _
  | canonicalHash n height => exact (reading_ok.mp h).2 ▸ .refl _
  | evidenceRefreshCandidate n depth => exact (reading_ok.mp h).2 ▸ .refl _
  | commitBlock n indexed =>
    obtain ⟨db₁, db₂, hins, hsel, -, rfl⟩ := commitBlock_ok (writing_ok.mp h)
    have hinserted : Elsewhere networkId db db₁ := .of_inserts (insertBlock_inserts hins)
    exact (hinserted.trans (.insertSelector hne hsel)).trans (.updateChainState hne)
  | refreshBlockEvidence n indexed => exact .of_inserts (insertBlock_inserts (writing_ok.mp h))
  | replaceCanonicalBranch n oldTip ancestor blocks =>
    obtain ⟨db₁, db₂, -, -, -, hins, hsel, rfl⟩ := replaceCanonicalBranch_ok (writing_ok.mp h)
    have hinserted : Elsewhere networkId db db₁ := .of_inserts (insertBlocks_recorded hins).1
    have hlogged : Elsewhere networkId db₁ (insertReorgEvent (freshEventId db₁) n oldTip
        (ancestor.map Prod.fst) (ancestor.map Prod.snd) w.now db₁) :=
      ⟨fun _ => rfl, rfl, List.prefix_rfl⟩
    have hmoved : Elsewhere networkId db₁ db₂ :=
      hlogged.trans ((Elsewhere.detach hne _).trans (.insertSelectors hne hsel))
    have hcompleted (d : Db) : Elsewhere networkId d (completeReorgEvent (freshEventId db₁) w.now d) :=
      ⟨fun _ => rfl, rfl, List.prefix_rfl⟩
    exact ((hinserted.trans hmoved).trans (.updateChainState hne)).trans (hcompleted _)
  | observeNodeTip n height hash =>
    have hwritten := writing_ok.mp h
    simp only [observeNodeTip, Result.bind_eq_ok] at hwritten
    obtain ⟨_, -, -, -, hwritten⟩ := hwritten
    cases hwritten
    exact .updateChainState hne
  | updateNodeTip n height hash status error =>
    have hwritten := writing_ok.mp h
    simp only [updateNodeTip, Result.bind_eq_ok] at hwritten
    obtain ⟨_, -, -, -, hwritten⟩ := hwritten
    cases hwritten
    exact .updateChainState hne
  | markIndexerError n error =>
    have hwritten := writing_ok.mp h
    simp only [markIndexerError, Result.bind_eq_ok] at hwritten
    obtain ⟨-, -, hwritten⟩ := hwritten
    cases hwritten
    exact .updateChainState hne

/-- What a method does to `chain_state` is an update of rows. -/
def UpdatesState (db db' : Db) : Prop :=
  ∃ p f hf, db'.chainState = db.chainState.updateWhere p f hf

theorem UpdatesState.of_eq (h : db'.chainState = db.chainState) : UpdatesState db db' := by
  refine ⟨fun _ => false, id, fun _ => rfl, Table.ext_rows ?_⟩
  simp [h, Table.rows_updateWhere]

/-- A network has its state row before exactly where it has one after. -/
theorem UpdatesState.initialized_iff (h : UpdatesState db db') :
    Initialized networkId db' ↔ Initialized networkId db := by
  obtain ⟨p, f, hf, heq⟩ := h
  rw [Initialized, Initialized, heq, Table.find?_updateWhere, Option.isSome_map]

theorem exec_updatesState {w : World} {t : DbCall} {r : t.Result}
    (h : exec lib w t db = .ok (r, db')) : UpdatesState db db' := by
  have hupdate {d : Db} {n : Text} {f : ChainStateRow → ChainStateRow}
      {hf : ∀ r, (f r).networkId = r.networkId} (hd : d.chainState = db.chainState) :
      UpdatesState db (updateChainState n f hf d) :=
    ⟨fun r => r.networkId = n, f, hf, by rw [updateChainState, hd]⟩
  have hstatus (hs : StatusOnly db db') : UpdatesState db db' := by
    obtain ⟨n, f, hf, -, rfl⟩ := hs
    exact hupdate rfl
  cases t with
  | canonicalTip n => exact .of_eq ((reading_ok.mp h).2 ▸ rfl)
  | canonicalHash n height => exact .of_eq ((reading_ok.mp h).2 ▸ rfl)
  | evidenceRefreshCandidate n depth => exact .of_eq ((reading_ok.mp h).2 ▸ rfl)
  | commitBlock n indexed =>
    obtain ⟨db₁, db₂, hins, hsel, -, rfl⟩ := commitBlock_ok (writing_ok.mp h)
    refine hupdate ?_
    obtain ⟨-, ⟨-, rfl⟩ | ⟨-, -, rfl⟩⟩ := insertCanonicalSelector_ok hsel <;>
      exact (insertBlock_inserts hins).chainState
  | refreshBlockEvidence n indexed =>
    exact .of_eq (insertBlock_inserts (writing_ok.mp h)).chainState
  | replaceCanonicalBranch n oldTip ancestor blocks =>
    obtain ⟨db₁, db₂, -, -, -, hins, hsel, rfl⟩ := replaceCanonicalBranch_ok (writing_ok.mp h)
    have hstate : db₂.chainState = db.chainState := by
      rw [insertSelectors_frame hsel]
      exact (insertBlocks_recorded hins).1.chainState
    have hrecorded : UpdatesState db (recordTip n
        ((blocks.getLast?.map fun i => i.block.height).or (ancestor.map Prod.fst))
        ((blocks.getLast?.map fun i => i.block.hash).or (ancestor.map Prod.snd))
        (blocks.getLast?.map (witnessHash lib)) w.now db₂) := hupdate hstate
    exact hrecorded
  | observeNodeTip n height hash => exact hstatus (observeNodeTip_ok (writing_ok.mp h))
  | updateNodeTip n height hash status error => exact hstatus (updateNodeTip_ok (writing_ok.mp h))
  | markIndexerError n error => exact hstatus (markIndexerError_ok (writing_ok.mp h))

theorem Selected.elsewhere (hx : Selected networkId db xs) (h : Elsewhere networkId db db') :
    Selected networkId db' xs where
  represents := fun height => (h.selector height).trans (hx.represents height)
  linked := by
    refine hx.linked.congr ?_
    intro a ha
    obtain ⟨r, hr, rfl⟩ := List.mem_map.mp ha
    obtain ⟨b, hb, -⟩ := hx.stored r hr
    simp [storedParent, hb, Table.find?_of_prefix h.blocks hb]
  nodup := hx.nodup
  stored := by
    intro r hr
    obtain ⟨b, hb, hrest⟩ := hx.stored r hr
    exact ⟨b, Table.find?_of_prefix h.blocks hb, hrest⟩
  bounded := hx.bounded

theorem SoundChain.elsewhere (hs : SoundChain networkId db) (h : Elsewhere networkId db db') :
    SoundChain networkId db' := by
  obtain ⟨xs, hx, c, hc, hrest⟩ := hs
  exact ⟨xs, hx.elsewhere h, c, h.state.trans hc, hrest⟩

/-- Nothing of the network is stored: it has no state row, and nothing of it is selected. -/
def Unstarted (networkId : Text) (db : Db) : Prop :=
  db.chainState.find? networkId = none ∧ ∀ h, db.canonicalChain.find? (networkId, h) = none

theorem Unstarted.elsewhere (hu : Unstarted networkId db) (h : Elsewhere networkId db db') :
    Unstarted networkId db' :=
  ⟨h.state.trans hu.1, fun height => (h.selector height).trans (hu.2 height)⟩

theorem startChainState_of_initialized (h : Initialized networkId db) :
    startChainState networkId now db = db := by
  obtain ⟨c, hc⟩ := Option.isSome_iff_exists.mp h
  rw [startChainState, Table.insertNew_of_some hc]

theorem startChainState_initialized :
    Initialized networkId (startChainState other now db) ↔
      Initialized networkId db ∨ networkId = other := by
  rw [Initialized, Initialized, startChainState, Table.find?_insertNew]
  by_cases hn : networkId = other
  · simp [hn]
  · simp [hn, Ne.symm hn]

theorem startChainState_elsewhere (hne : other ≠ networkId) :
    Elsewhere networkId db (startChainState other now db) where
  selector := fun _ => rfl
  state := Table.find?_insertNew_of_ne hne
  blocks := List.prefix_rfl

/-- A network that is started has a sound chain: the empty one. -/
theorem Unstarted.soundChain (h : Unstarted networkId db) :
    SoundChain networkId (startChainState networkId now db) := by
  refine ⟨[], ⟨h.2, Chain.linked_nil, List.nodup_nil, by simp, by simp⟩, ?_⟩
  refine ⟨{ networkId, updatedAt := now }, ?_, rfl, rfl⟩
  simp [startChainState, Table.find?_insertNew, h.1]

end WcashExplorer
