import Mathlib.Data.List.Chain
import Mathlib.Data.List.Nodup

/-! Chains as lists of identifiers, each naming its predecessor through a parent map. -/
namespace Chain

variable {α : Type} {p q : α → Option α} {xs ys : List α} {a b : α} {m n : Nat}

/-- Every element but the first has the element before it as its parent. -/
def Linked (p : α → Option α) (xs : List α) : Prop := xs.IsChain fun a b => p b = some a

theorem linked_nil : Linked p [] := List.isChain_nil

theorem linked_singleton : Linked p [a] := List.isChain_singleton a

theorem linked_append : Linked p (xs ++ ys) ↔
    Linked p xs ∧ Linked p ys ∧ ∀ a ∈ xs.getLast?, ∀ b ∈ ys.head?, p b = some a :=
  List.isChain_append

/-- A chain grows by an element whose parent is its last one. -/
theorem Linked.concat (h : Linked p xs) (hb : ∀ a ∈ xs.getLast?, p b = some a) :
    Linked p (xs ++ [b]) := by
  refine linked_append.mpr ⟨h, linked_singleton, ?_⟩
  intro a ha c hc
  obtain rfl : b = c := by simpa using hc
  exact hb a ha

theorem Linked.take (h : Linked p xs) (n : Nat) : Linked p (xs.take n) := List.IsChain.take h n

/-- Only the parents of the chain's own elements matter. -/
theorem Linked.congr (h : Linked p xs) (hpq : ∀ a ∈ xs, p a = q a) : Linked q xs := by
  refine List.IsChain.imp_of_mem_imp ?_ h
  intro a b _ hb hab
  rw [← hpq b hb]
  exact hab

theorem Linked.parent (h : Linked p xs) (ha : xs[n]? = some a) (hb : xs[n + 1]? = some b) :
    p b = some a := by
  obtain ⟨hn, rfl⟩ := List.getElem?_eq_some_iff.mp ha
  obtain ⟨hn', rfl⟩ := List.getElem?_eq_some_iff.mp hb
  exact List.isChain_iff_getElem.mp h n hn'

theorem linked_of_parent
    (h : ∀ n a b, xs[n]? = some a → xs[n + 1]? = some b → p b = some a) : Linked p xs := by
  refine List.isChain_iff_getElem.mpr ?_
  intro n hn
  exact h n _ _ (List.getElem?_eq_getElem (by omega)) (List.getElem?_eq_getElem hn)

/-- Two chains over one parent map that meet at a height agree below it. -/
theorem agree_below (hx : Linked p xs) (hy : Linked p ys) (ha : xs[n]? = some a)
    (hb : ys[n]? = some a) (hmn : m ≤ n) : xs[m]? = ys[m]? := by
  induction n generalizing a with
  | zero =>
    obtain rfl : m = 0 := by omega
    rw [ha, hb]
  | succ n ih =>
    by_cases hm : m = n + 1
    · subst hm
      rw [ha, hb]
    · obtain ⟨hnx, -⟩ := List.getElem?_eq_some_iff.mp ha
      obtain ⟨hny, -⟩ := List.getElem?_eq_some_iff.mp hb
      have hxn : xs[n]? = some xs[n] := List.getElem?_eq_getElem (by omega)
      have hyn : ys[n]? = some ys[n] := List.getElem?_eq_getElem (by omega)
      have hpx := hx.parent hxn ha
      have hpy := hy.parent hyn hb
      have heq : xs[n] = ys[n] := Option.some.inj (hpx.symm.trans hpy)
      rw [heq] at hxn
      exact ih hxn hyn (by omega)

/-- So they agree as a prefix. -/
theorem take_eq_of_agree (hx : Linked p xs) (hy : Linked p ys) (ha : xs[n]? = some a)
    (hb : ys[n]? = some a) : xs.take (n + 1) = ys.take (n + 1) := by
  refine List.ext_getElem? ?_
  intro m
  rw [List.getElem?_take, List.getElem?_take]
  by_cases hm : m < n + 1
  · simp [hm, agree_below hx hy ha hb (Nat.le_of_lt_succ hm)]
  · simp [hm]

/-- A prefix grows by the element that follows it. -/
theorem concat_prefix (h : xs <+: ys) (ha : ys[xs.length]? = some a) : xs ++ [a] <+: ys := by
  obtain ⟨rest, rfl⟩ := h
  cases rest with
  | nil => simp at ha
  | cons c rest =>
    obtain rfl : c = a := by simpa using ha
    exact ⟨rest, by simp⟩

end Chain
