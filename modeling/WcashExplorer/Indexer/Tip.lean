import WcashExplorer.Indexer.Node

/-! The recorded tip against the selector: its witness is lost where a branch is replaced by
nothing. -/
namespace WcashExplorer

open Effects Relational

variable {lib : AuxPowCrate} {networkId : Text} {start db db' : Db} {xs ys : List CanonicalRow}

/-- A gap-free, hash-linked selection whose highest row is the recorded tip in height and hash. -/
def SoundChain (networkId : Text) (db : Db) : Prop :=
  ∃ xs, Selected networkId db xs ∧ TipRecorded networkId db xs

theorem EmptyNetwork.soundChain (h : EmptyNetwork networkId db) : SoundChain networkId db := by
  obtain ⟨updatedAt, hstate⟩ := h.state
  exact ⟨[], h.selected, _, hstate, rfl, rfl⟩

/-- Height and hash of the recorded tip follow every step of the selection. -/
theorem SelectionStep.soundChain {t : DbCall} (h : SelectionStep lib networkId t db db' xs ys)
    (hx : Selected networkId db xs) (hy : Selected networkId db' ys)
    (hsound : SoundChain networkId db) : SoundChain networkId db' := by
  obtain ⟨zs, hz, hrecorded⟩ := hsound
  obtain rfl := hz.unique hx
  refine ⟨ys, hy, tipRecorded_iff.mpr ?_⟩
  cases h with
  | unchanged tip =>
    rw [tip]
    exact tipRecorded_iff.mp hrecorded
  | @append indexed _ tip =>
    refine ⟨some (witnessHash lib indexed), ?_⟩
    rw [tip, List.getLast?_concat]
    rfl
  | @replace a r oldTip blocks _ ancestor tip =>
    refine ⟨blocks.getLast?.map (witnessHash lib), ?_⟩
    have hlast : (zs.take (a + 1)).getLast? = some r := by
      rw [List.getLast?_take]
      simp [ancestor]
    have hheight : r.height = a := (hx.key_eq ancestor).2
    rw [tip, List.getLast?_append, hlast, List.getLast?_map]
    cases hb : blocks.getLast? with
    | none => simp [hheight]
    | some b => rfl

/-- A single writer keeps the chain sound, whatever its node does. -/
theorem Reachable.soundChain (h : Reachable lib networkId db) : SoundChain networkId db := by
  obtain ⟨start, hempty, hhistory⟩ := h
  refine (hhistory.invariant (I := SoundChain networkId) ?_ hempty.chainInvariant
    hempty.soundChain).2
  intro indexer _ full pre w t r d d' opening xs ys _ _ _ _ _ hx hy hstep _ hd
  exact hstep.soundChain hx hy hd

/-- The tip columns of a row that may be missing. -/
def tipColumns (tip : Option CanonicalRow) : Option Nat × Option Text × Option Text :=
  (tip.map CanonicalRow.height, tip.map CanonicalRow.blockHash, tip.map CanonicalRow.witnessHash)

/-- The recorded tip is the highest selected row, and is null exactly without one. -/
def TipMirrored (networkId : Text) (db : Db) : Prop :=
  recordedTip networkId db = some (tipColumns (tipRow db networkId))

instance : Decidable (TipMirrored networkId db) := by
  unfold TipMirrored
  infer_instance

/-- A published replacement of the old branch by no block at all: the node has merely rolled
back to a prefix of the selected chain. -/
def isRollback : Event explorer World → Bool
  | .done _ (.replaceCanonicalBranch _ _ _ []) (.ok _) => true
  | _ => false

/-- The pass publishes no empty replacement. -/
def NoRollback (lib : AuxPowCrate) : PassProperty lib := fun _ _ tr =>
  tr.all (fun ev => !isRollback ev) = true

theorem Selected.mirrored_iff (hx : Selected networkId db xs) :
    TipMirrored networkId db ↔ recordedTip networkId db = some (tipColumns xs.getLast?) := by
  rw [TipMirrored, hx.tipRow_eq]

theorem EmptyNetwork.mirrored (h : EmptyNetwork networkId db) : TipMirrored networkId db := by
  obtain ⟨updatedAt, hstate⟩ := h.state
  rw [h.selected.mirrored_iff, recordedTip, hstate]
  rfl

/-- A step that publishes no empty replacement keeps the recorded tip on the selector's. -/
theorem SelectionStep.mirrored {t : DbCall} (h : SelectionStep lib networkId t db db' xs ys)
    (hx : Selected networkId db xs) (hy : Selected networkId db' ys)
    (hne : ∀ oldTip ancestor, t ≠ .replaceCanonicalBranch networkId oldTip ancestor [])
    (hm : TipMirrored networkId db) : TipMirrored networkId db' := by
  rw [hy.mirrored_iff]
  cases h with
  | unchanged tip => rw [tip, hx.mirrored_iff.mp hm]
  | append _ tip =>
    rw [tip, List.getLast?_concat]
    rfl
  | @replace a r oldTip blocks call _ tip =>
    have hblocks : blocks ≠ [] := by
      rintro rfl
      exact hne _ _ call
    have hlast := List.getLast?_eq_some_getLast hblocks
    rw [tip, List.getLast?_append, List.getLast?_map, hlast]
    rfl

/-- In every history whose passes publish no empty replacement, the recorded tip is the highest
selected row in height, hash and witness, and is null exactly while nothing is selected. -/
theorem recorded_tip_mirrors_selector (hempty : EmptyNetwork networkId start)
    (h : History lib networkId (NoRollback lib) start db) : TipMirrored networkId db := by
  refine (h.invariant (I := TipMirrored networkId) ?_ hempty.chainInvariant hempty.mirrored).2
  intro indexer _ full pre w t r d d' _ xs ys _ hfull _ hpre _ hx hy hstep _ hm
  refine hstep.mirrored hx hy ?_ hm
  rintro oldTip ancestor rfl
  have hmem := hpre.subset (List.mem_append_right pre List.mem_cons_self)
  have hquiet := List.all_eq_true.mp hfull _ hmem
  cases hquiet

/-- A reorganization to a longer branch keeps the tip mirrored. -/
theorem recorded_tip_mirrors_selector_reorganized :
    TipMirrored sampleNetwork (sampleDb [['1', '2'], ['1', '3', '4']]) := by
  have h₀ : History sampleCrate sampleNetwork (NoRollback sampleCrate) (initialDb sampleNetwork)
      (sampleDb []) := .refl _
  have h₁ := h₀.sample ['1', '2'] (by unfold NoRollback; decide +kernel)
  have h₂ := h₁.sample ['1', '3', '4'] (by unfold NoRollback; decide +kernel)
  exact recorded_tip_mirrors_selector (initialDb_empty sampleNetwork) h₂

/-- After a rollback to a prefix the recorded tip names the ancestor without its witness. -/
theorem rollback_forgets_witness : ¬ ∀ db : Db, Reachable sampleCrate sampleNetwork db →
    TipMirrored sampleNetwork db := by
  intro h
  have hm := h _ (sampleDb_reachable [['1', '2'], ['1']])
  revert hm
  decide +kernel

end WcashExplorer
