import Mathlib.Data.List.Pairwise

/-! An update of every row of a table whose unique constraint is checked row by row. -/
namespace Relational

variable {ρ κ : Type} [DecidableEq κ] {key : ρ → κ} {valid : ρ → Bool} {f : ρ → ρ}
  {before rows out : List ρ} {r : ρ}

/-- Rewrites the rows in their order. Each rewritten row has to satisfy the row constraints, and
its key must not be taken when it is written, by a row rewritten before or by one still to be. -/
def rekey (key : ρ → κ) (valid : ρ → Bool) (f : ρ → ρ) : List ρ → List ρ → Option (List ρ)
  | before, [] => some before
  | before, r :: rest =>
    if valid (f r) && (before ++ rest).all fun s => key s ≠ key (f r) then
      rekey key valid f (before ++ [f r]) rest
    else none

/-- The update succeeds exactly if the constraints hold of every rewritten row and no key is taken,
for good or for the moment. -/
theorem rekey_eq_some : rekey key valid f before rows = some out ↔
    out = before ++ rows.map f ∧ (∀ r ∈ rows, valid (f r) = true) ∧
      (∀ s ∈ before, ∀ r ∈ rows, key s ≠ key (f r)) ∧
      rows.Pairwise fun r s => key (f r) ≠ key s ∧ key (f r) ≠ key (f s) := by
  induction rows generalizing before with
  | nil =>
    rw [rekey, Option.some.injEq]
    constructor
    · rintro rfl
      simp
    · rintro ⟨rfl, -⟩
      simp
  | cons r rest ih =>
    rw [rekey]
    by_cases hfree : (valid (f r) && (before ++ rest).all fun s => key s ≠ key (f r)) = true
    · rw [if_pos hfree, ih]
      simp only [Bool.and_eq_true, List.all_eq_true, decide_eq_true_eq, List.mem_append] at hfree
      obtain ⟨hvalid, htaken⟩ := hfree
      simp only [List.map_cons, List.append_assoc, List.singleton_append, List.forall_mem_cons,
        List.forall_mem_append, List.pairwise_cons, List.not_mem_nil, false_implies, implies_true,
        and_true, hvalid, true_and]
      constructor
      · rintro ⟨hout, hrest, ⟨hbefore, hown⟩, hpairs⟩
        exact ⟨hout, hrest, fun s hs => ⟨htaken s (.inl hs), hbefore s hs⟩,
          fun s hs => ⟨(htaken s (.inr hs)).symm, hown s hs⟩, hpairs⟩
      · rintro ⟨hout, hrest, hbefore, hown, hpairs⟩
        exact ⟨hout, hrest, ⟨fun s hs => (hbefore s hs).2, fun s hs => (hown s hs).2⟩, hpairs⟩
    · rw [if_neg hfree]
      refine iff_of_false nofun ?_
      rintro ⟨-, hvalid, hbefore, hpairs⟩
      refine hfree ?_
      simp only [Bool.and_eq_true, List.all_eq_true, decide_eq_true_eq, List.mem_append]
      refine ⟨hvalid r List.mem_cons_self, ?_⟩
      rintro s (hs | hs)
      · exact hbefore s hs r List.mem_cons_self
      · exact ((List.pairwise_cons.mp hpairs).1 s hs).1.symm

/-- The rows come out with pairwise different keys. -/
theorem rekey_nodup (h : rekey key valid f [] rows = some out) : (out.map key).Nodup := by
  obtain ⟨rfl, -, -, hpairs⟩ := rekey_eq_some.mp h
  rw [List.nil_append, List.map_map, List.Nodup, List.pairwise_map]
  exact hpairs.imp fun h => h.2

end Relational
