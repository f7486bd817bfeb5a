import Mathlib.Data.List.Basic

/-! Conditions of SQL with their third value, and the counts of the rows they keep. -/
namespace Relational

/-- A condition: true, false, or unknown where a `NULL` decides it. -/
abbrev Truth : Type := Option Bool

namespace Truth

variable {α : Type} {a b : Truth}

def and : Truth → Truth → Truth
  | some false, _ => some false
  | _, some false => some false
  | some true, b => b
  | none, _ => none

def or : Truth → Truth → Truth
  | some true, _ => some true
  | _, some true => some true
  | some false, b => b
  | none, _ => none

/-- `IS TRUE`. -/
def isTrue (a : Truth) : Bool := a == some true

/-- `a = b`, for a column that may be null and a value that is not. -/
def eq [DecidableEq α] (a : Option α) (b : α) : Truth := a.map fun x => decide (x = b)

def ne [DecidableEq α] (a : Option α) (b : α) : Truth := a.map fun x => decide (x ≠ b)

@[simp] theorem isTrue_some (b : Bool) : isTrue (some b) = b := by cases b <;> rfl

@[simp] theorem isTrue_none : isTrue none = false := rfl

@[simp] theorem isTrue_and : (and a b).isTrue = (a.isTrue && b.isTrue) := by
  rcases a with - | - | - <;> rcases b with - | - | - <;> rfl

@[simp] theorem isTrue_or : (or a b).isTrue = (a.isTrue || b.isTrue) := by
  rcases a with - | - | - <;> rcases b with - | - | - <;> rfl

@[simp] theorem isTrue_eq [DecidableEq α] {x : Option α} {y : α} :
    (eq x y).isTrue = true ↔ x = some y := by
  cases x <;> simp [eq]

end Truth

section Counts

variable {ρ : Type} {p q e : ρ → Truth} {rows : List ρ}

/-- `COUNT(*) FILTER (WHERE p)`. -/
def countWhere (p : ρ → Truth) (rows : List ρ) : ℕ := rows.countP fun r => (p r).isTrue

/-- Conditions that keep the same rows count the same. -/
theorem countWhere_congr (h : ∀ r ∈ rows, (p r).isTrue = (q r).isTrue) :
    countWhere p rows = countWhere q rows := by
  refine List.countP_congr fun r hr => ?_
  rw [h r hr]

/-- Two conditions that never hold together, and the rest, add up. -/
theorem countWhere_partition (h : ∀ r ∈ rows, (e r).isTrue = true → (p r).isTrue = true →
      (q r).isTrue = false) :
    countWhere (fun r => (e r).and (p r)) rows + countWhere (fun r => (e r).and (q r)) rows +
      countWhere (fun r => (e r).and (some !((p r).or (q r)).isTrue)) rows = countWhere e rows := by
  induction rows with
  | nil => rfl
  | cons r rest ih =>
    have hrest := ih fun s hs => h s (List.mem_cons_of_mem r hs)
    have hr := h r List.mem_cons_self
    simp only [countWhere, List.countP_cons, Truth.isTrue_and, Truth.isTrue_or,
      Truth.isTrue_some] at *
    cases he : (e r).isTrue <;> cases hp : (p r).isTrue <;> cases hq : (q r).isTrue <;>
      simp only [he, hp, hq, Bool.true_and, Bool.false_and, Bool.or_false, Bool.or_true, Bool.not_true,
        Bool.not_false, Bool.false_eq_true, if_true, if_false, forall_const, reduceCtorEq,
        forall_false] at * <;>
      omega

end Counts

end Relational
