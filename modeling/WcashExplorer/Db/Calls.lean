import WcashExplorer.Db.ReadBack
import WcashExplorer.Effects.Yielding

/-! Sequences of database methods: what any of them keeps, and what an accepted block leaves. -/
namespace WcashExplorer

open Effects Relational

/-- The network a database method works on. -/
def DbCall.networkId : DbCall → Text
  | canonicalTip n => n
  | canonicalHash n _ => n
  | evidenceRefreshCandidate n _ => n
  | commitBlock n _ => n
  | refreshBlockEvidence n _ => n
  | replaceCanonicalBranch n _ _ _ => n
  | observeNodeTip n _ _ => n
  | updateNodeTip n _ _ _ _ => n
  | markIndexerError n _ => n

/-- The blocks a database method is given to store. -/
def DbCall.blocks : DbCall → List IndexedBlock
  | commitBlock _ indexed => [indexed]
  | refreshBlockEvidence _ indexed => [indexed]
  | replaceCanonicalBranch _ _ _ replacement => replacement
  | _ => []

/-- A sequence of methods that succeed or are rolled back; the log holds the ones that succeeded,
each of them in a state where `P` holds of it. -/
inductive Calls (lib : AuxPowCrate) (P : Db → DbCall → Prop) : Db → List DbCall → Db → Prop
  | nil (db : Db) : Calls lib P db [] db
  | accepted {db db₁ db₂ : Db} {log : List DbCall} {w : World} {t : DbCall} {r : t.Result}
      (h : Calls lib P db log db₁) (hp : P db₁ t) (hx : exec lib w t db₁ = .ok (r, db₂)) :
      Calls lib P db (log ++ [t]) db₂
  | rejected {db db₁ : Db} {log : List DbCall} {w : World} {t : DbCall} {e : ExplorerError}
      (h : Calls lib P db log db₁) (hx : exec lib w t db₁ = .error e) : Calls lib P db log db₁

variable {lib : AuxPowCrate} {networkId : Text} {indexed : IndexedBlock} {db db₁ db₂ db' mid : Db}
  {P : Db → DbCall → Prop} {log log' : List DbCall}

/-- What every successful method preserves holds after any sequence. -/
theorem Calls.invariant {I : Db → Prop} (h : Calls lib P db log db') (hI : I db)
    (hstep : ∀ d w t r d', P d t → I d → exec lib w t d = .ok (r, d') → I d') : I db' := by
  induction h with
  | nil => exact hI
  | accepted _ hp hx ih => exact hstep _ _ _ _ _ hp ih hx
  | rejected _ _ ih => exact ih

theorem Calls.mono {P' : Db → DbCall → Prop} (h : Calls lib P db log db')
    (hP : ∀ d t, P d t → P' d t) : Calls lib P' db log db' := by
  induction h with
  | nil => exact .nil _
  | accepted _ hp hx ih => exact .accepted ih (hP _ _ hp) hx
  | rejected _ hx ih => exact .rejected ih hx

theorem Calls.trans (h : Calls lib P db log mid) (h' : Calls lib P mid log' db') :
    Calls lib P db (log ++ log') db' := by
  induction h' with
  | nil => simpa using h
  | accepted _ hp hx ih =>
    rw [← List.append_assoc]
    exact .accepted ih hp hx
  | rejected _ hx ih => exact .rejected ih hx

/-- The methods that succeed in a run of a program. -/
def committed : List (Event explorer World) → List DbCall
  | [] => []
  | .done _ t (.ok _) :: rest => t :: committed rest
  | _ :: rest => committed rest

/-- A run of a program is a sequence of methods to the store, each of the kind it issues. -/
theorem Calls.of_yields {α : Type} {p p' : Action α} {Q : DbCall → Prop} {R : α → Prop}
    {tr : List (Event explorer World)} (hy : p.Yields Q R)
    (h : Run (exec lib) (p, db) tr (p', db')) :
    Calls lib (fun _ t => Q t) db (committed tr) db' := by
  generalize hc : (p, db) = c at h
  generalize hd : (p', db') = d at h
  induction h generalizing p db with
  | refl c =>
    cases hc
    cases hd
    exact .nil _
  | @step c d e ev tr hs hr ih =>
    subst hc
    obtain ⟨q, u⟩ := d
    cases hs with
    | ask a => exact ih (hy a) rfl hd
    | commit hx =>
      have hfirst := Calls.accepted (P := fun _ t => Q t) (.nil db) hy.1 hx
      exact hfirst.trans (ih (hy.2 _) rfl hd)
    | rollback hx =>
      have hfirst := Calls.rejected (P := fun _ t => Q t) (.nil db) hx
      exact hfirst.trans (ih (hy.2 _) rfl hd)

/-- Every method inserts the blocks it is given, and beyond that moves only the selection and the
recorded state. -/
theorem exec_insertBlocks {w : World} {t : DbCall} {r : t.Result}
    (h : exec lib w t db = .ok (r, db')) :
    ∃ db₁, insertBlocks lib t.networkId t.blocks db = .ok db₁ ∧ db' = { db₁ with
      canonicalChain := db'.canonicalChain
      chainState := db'.chainState
      reorgEvents := db'.reorgEvents } := by
  have hstatus {d : Db} (hs : StatusOnly db d) : d = { db with
      canonicalChain := d.canonicalChain
      chainState := d.chainState
      reorgEvents := d.reorgEvents } := by
    obtain ⟨n, f, hf, -, rfl⟩ := hs
    rfl
  cases t with
  | canonicalTip n => exact ⟨db, rfl, (reading_ok.mp h).2 ▸ rfl⟩
  | canonicalHash n height => exact ⟨db, rfl, (reading_ok.mp h).2 ▸ rfl⟩
  | evidenceRefreshCandidate n depth => exact ⟨db, rfl, (reading_ok.mp h).2 ▸ rfl⟩
  | commitBlock n indexed =>
    obtain ⟨db₁, db₂, hins, hsel, -, hdb'⟩ := commitBlock_ok (writing_ok.mp h)
    refine ⟨db₁, by simp [insertBlocks, DbCall.blocks, DbCall.networkId, hins]; rfl, ?_⟩
    rw [hdb']
    obtain ⟨-, ⟨-, rfl⟩ | ⟨-, -, rfl⟩⟩ := insertCanonicalSelector_ok hsel <;> rfl
  | refreshBlockEvidence n indexed =>
    have hins : insertBlock lib n indexed db = .ok db' := writing_ok.mp h
    exact ⟨db', by simp [insertBlocks, DbCall.blocks, DbCall.networkId, hins]; rfl, rfl⟩
  | replaceCanonicalBranch n oldTip ancestor replacement =>
    obtain ⟨db₁, db₂, -, -, -, hins, hsel, hdb'⟩ := replaceCanonicalBranch_ok (writing_ok.mp h)
    refine ⟨db₁, hins, ?_⟩
    rw [hdb', insertSelectors_frame hsel]
    rfl
  | observeNodeTip n height hash => exact ⟨db, rfl, hstatus (observeNodeTip_ok (writing_ok.mp h))⟩
  | updateNodeTip n height hash status error =>
    exact ⟨db, rfl, hstatus (updateNodeTip_ok (writing_ok.mp h))⟩
  | markIndexerError n error => exact ⟨db, rfl, hstatus (markIndexerError_ok (writing_ok.mp h))⟩

end WcashExplorer
