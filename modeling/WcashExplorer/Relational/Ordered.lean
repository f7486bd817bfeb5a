import Mathlib.Data.List.Sort
import Mathlib.Data.Prod.Lex

/-! Selections in the order of a column: `SELECT … ORDER BY`. -/
namespace Relational

variable {ρ κ : Type} [LinearOrder κ]

/-- The rows in the order of a column; rows that agree in it keep their order. -/
def orderBy (f : ρ → κ) (rows : List ρ) : List ρ := rows.insertionSort fun r s => f r ≤ f s

theorem orderBy_perm (f : ρ → κ) (rows : List ρ) : (orderBy f rows).Perm rows :=
  List.perm_insertionSort _ _

@[simp] theorem mem_orderBy {f : ρ → κ} {rows : List ρ} {r : ρ} : r ∈ orderBy f rows ↔ r ∈ rows :=
  (orderBy_perm f rows).mem_iff

theorem orderBy_sorted (f : ρ → κ) (rows : List ρ) :
    (orderBy f rows).Pairwise fun r s => f r ≤ f s := by
  have htotal : Std.Total fun r s => f r ≤ f s := ⟨fun r s => le_total (f r) (f s)⟩
  have htrans : IsTrans ρ fun r s => f r ≤ f s := ⟨fun r s t => le_trans⟩
  exact List.pairwise_insertionSort _ _

/-- Distinct keys make the order strict. -/
theorem orderBy_strict {f : ρ → κ} {rows : List ρ} (h : (rows.map f).Nodup) :
    (orderBy f rows).Pairwise fun r s => f r < f s := by
  have hne : (orderBy f rows).Pairwise fun r s => f r ≠ f s :=
    List.pairwise_map.mp (((orderBy_perm f rows).map f).nodup_iff.mpr h)
  exact ((orderBy_sorted f rows).and hne).imp fun ⟨hle, h⟩ => lt_of_le_of_ne hle h

/-- What a limit cuts off comes no earlier than what it leaves. -/
theorem take_orderBy_first {f : ρ → κ} {rows : List ρ} {r : ρ} (n : ℕ) (h : r ∈ rows) :
    r ∈ (orderBy f rows).take n ∨ ∀ s ∈ (orderBy f rows).take n, f s ≤ f r := by
  have hsorted := orderBy_sorted f rows
  rw [← List.take_append_drop n (orderBy f rows), List.pairwise_append] at hsorted
  rw [← mem_orderBy (f := f), ← List.take_append_drop n (orderBy f rows), List.mem_append] at h
  exact h.imp id fun hr s hs => hsorted.2.2 s hs r hr

/-- Ordering by a column of an image orders the images. -/
theorem map_orderBy {σ : Type} (f : ρ → κ) (g : σ → ρ) (rows : List σ) :
    (orderBy (fun r => f (g r)) rows).map g = orderBy f (rows.map g) :=
  List.map_insertionSort _ _ _ _ fun _ _ _ _ => Iff.rfl

/-- A list in strict order is the ordering of any other list of the same rows. -/
theorem orderBy_eq {f : ρ → κ} {rows sorted : List ρ}
    (hsorted : sorted.Pairwise fun r s => f r < f s) (hnodup : rows.Nodup)
    (hmem : ∀ r, r ∈ rows ↔ r ∈ sorted) : orderBy f rows = sorted := by
  have hkeys : (sorted.map f).Nodup := List.pairwise_map.mpr (hsorted.imp ne_of_lt)
  have hperm : (orderBy f rows).Perm sorted := (orderBy_perm f rows).trans
    ((List.perm_ext_iff_of_nodup hnodup (List.Nodup.of_map f hkeys)).mpr hmem)
  refine hperm.eq_of_pairwise ?_ (orderBy_sorted f rows) (hsorted.imp le_of_lt)
  intro r s hr hs hrs hsr
  exact List.inj_on_of_nodup_map hkeys ((hmem r).mp (mem_orderBy.mp hr)) hs (le_antisymm hrs hsr)

/-- Pairs in order stay in order when further columns follow them. -/
theorem toLex_lt_followed {α β γ : Type} [LT α] [LT β] [LT γ] {a a' : α} {b b' : β} {c c' : γ}
    (h : toLex (a, b) < toLex (a', b')) : toLex (a, toLex (b, c)) < toLex (a', toLex (b', c')) := by
  rw [Prod.Lex.toLex_lt_toLex] at h ⊢
  rcases h with h | ⟨h, h'⟩
  · exact .inl h
  · exact .inr ⟨h, Prod.Lex.toLex_lt_toLex.mpr (.inl h')⟩

end Relational
