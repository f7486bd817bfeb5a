import WcashExplorer.Chain.Linked

/-! Walking from an element to its ancestors. -/
namespace Chain

variable {α : Type} {p q : α → Option α} {xs : List α} {a b : α} {n k : Nat}

/-- The ancestor some steps up, if the walk gets there. -/
def ancestor (p : α → Option α) : Nat → α → Option α
  | 0, a => some a
  | k + 1, a => (p a).bind (ancestor p k)

/-- From an element of a chain the walk follows the chain down. -/
theorem Linked.ancestor (h : Linked p xs) (hb : xs[n + k]? = some b) :
    Chain.ancestor p k b = xs[n]? := by
  induction k generalizing b with
  | zero => exact hb.symm
  | succ k ih =>
    obtain ⟨hlt, -⟩ := List.getElem?_eq_some_iff.mp hb
    have hbelow : xs[n + k]? = some xs[n + k] := List.getElem?_eq_getElem (by omega)
    rw [Chain.ancestor, h.parent hbelow hb]
    exact ih hbelow

/-- A walk that gets there still does where more parents are known. -/
theorem ancestor_mono (hpq : ∀ a b, p a = some b → q a = some b) (h : ancestor p k a = some b) :
    ancestor q k a = some b := by
  induction k generalizing a with
  | zero => exact h
  | succ k ih =>
    obtain ⟨c, hc, hrest⟩ := Option.bind_eq_some_iff.mp h
    rw [ancestor, hpq a c hc]
    exact ih hrest

end Chain
