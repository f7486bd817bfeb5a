import Mathlib.Order.ConditionallyCompleteLattice.Basic
import Mathlib.Order.Lattice.Nat
import WcashExplorer.Chain.Linked

/-! The fork point of two chains over one parent map. -/
namespace Chain

variable {α : Type} {p : α → Option α} {xs ys : List α} {a : α} {f k m n : Nat}

/-- A linked chain whose first element has no parent. -/
structure Rooted (p : α → Option α) (xs : List α) : Prop where
  linked : Linked p xs
  root : ∀ a ∈ xs.head?, p a = none

/-- The heights at which two chains have the same element. -/
def commonHeights (xs ys : List α) : Set Nat := {n | ∃ a, xs[n]? = some a ∧ ys[n]? = some a}

theorem Rooted.parent_zero (h : Rooted p xs) (ha : xs[0]? = some a) : p a = none := by
  refine h.root a ?_
  rwa [Option.mem_def, List.head?_eq_getElem?]

theorem Rooted.parent_succ (h : Rooted p xs) (ha : xs[n + 1]? = some a) :
    ∃ b, xs[n]? = some b ∧ p a = some b := by
  obtain ⟨hn, -⟩ := List.getElem?_eq_some_iff.mp ha
  have hb : xs[n]? = some xs[n] := List.getElem?_eq_getElem (by omega)
  exact ⟨_, hb, h.linked.parent hb ha⟩

/-- An element has one height, in whichever chain it stands. -/
theorem Rooted.same_height (hx : Rooted p xs) (hy : Rooted p ys) (ha : xs[m]? = some a)
    (hb : ys[n]? = some a) : m = n := by
  induction m generalizing a n with
  | zero =>
    cases n with
    | zero => rfl
    | succ n =>
      obtain ⟨b, -, hparent⟩ := hy.parent_succ hb
      rw [hx.parent_zero ha] at hparent
      cases hparent
  | succ m ih =>
    obtain ⟨b, hxb, hparent⟩ := hx.parent_succ ha
    cases n with
    | zero =>
      rw [hy.parent_zero hb] at hparent
      cases hparent
    | succ n =>
      obtain ⟨c, hyc, hparent'⟩ := hy.parent_succ hb
      rw [hparent] at hparent'
      obtain rfl := Option.some.inj hparent'
      rw [ih hxb hyc]

/-- Chains that share an element share it at its height. -/
theorem Rooted.commonHeights_nonempty (hx : Rooted p xs) (hy : Rooted p ys) :
    (commonHeights xs ys).Nonempty ↔ ∃ a ∈ xs, a ∈ ys := by
  constructor
  · rintro ⟨n, a, hxa, hya⟩
    exact ⟨a, List.mem_of_getElem? hxa, List.mem_of_getElem? hya⟩
  · rintro ⟨a, hxa, hya⟩
    obtain ⟨m, hm⟩ := List.getElem?_of_mem hxa
    obtain ⟨n, hn⟩ := List.getElem?_of_mem hya
    obtain rfl := hx.same_height hy hm hn
    exact ⟨m, a, hm, hn⟩

theorem commonHeights_lt (h : n ∈ commonHeights xs ys) : n < xs.length ∧ n < ys.length := by
  obtain ⟨a, hx, hy⟩ := h
  obtain ⟨hn, -⟩ := List.getElem?_eq_some_iff.mp hx
  obtain ⟨hn', -⟩ := List.getElem?_eq_some_iff.mp hy
  exact ⟨hn, hn'⟩

/-- Chains with a common height have a highest one. -/
theorem exists_isGreatest_commonHeights (h : (commonHeights xs ys).Nonempty) :
    ∃ f, IsGreatest (commonHeights xs ys) f := by
  have hbound : BddAbove (commonHeights xs ys) := ⟨xs.length, fun n hn =>
    Nat.le_of_lt (commonHeights_lt hn).1⟩
  exact ⟨_, Nat.sSup_mem h hbound, fun n hn => le_csSup hbound hn⟩

/-- Above the highest common height the chains differ. -/
theorem differ_above (h : IsGreatest (commonHeights xs ys) f) (hk : f < k) (hlen : k < xs.length) :
    xs[k]? ≠ ys[k]? := by
  intro heq
  have hx : xs[k]? = some xs[k] := List.getElem?_eq_getElem hlen
  have hle := h.2 ⟨_, hx, heq ▸ hx⟩
  omega

/-- Up to a common height they agree. -/
theorem agree_upTo (hx : Linked p xs) (hy : Linked p ys) (hf : f ∈ commonHeights xs ys)
    (hk : k ≤ f) : xs[k]? = ys[k]? := by
  obtain ⟨a, ha, hb⟩ := hf
  exact agree_below hx hy ha hb hk

end Chain
