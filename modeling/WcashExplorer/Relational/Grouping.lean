import Mathlib.Algebra.BigOperators.Group.List.Basic
import Mathlib.Algebra.Group.Int.Defs
import Mathlib.Algebra.Order.BigOperators.Group.List
import Mathlib.Algebra.Order.Group.Int
import Mathlib.Algebra.Order.Ring.Int
import Mathlib.Data.List.Dedup
import Mathlib.Data.List.Perm.Subperm
import WcashExplorer.Relational.Ordered

/-! Grouped and distinct selections, and the sums, extremes and orders over them. -/
namespace Relational

variable {ρ σ κ κ' : Type}

/-- `JOIN … ON`: the pairs of rows that meet the condition. -/
def join (on : ρ → σ → Bool) (rows : List ρ) (others : List σ) : List (ρ × σ) :=
  rows.flatMap fun r => (others.filter (on r)).map fun s => (r, s)

theorem mem_join {on : ρ → σ → Bool} {rows : List ρ} {others : List σ} {x : ρ × σ} :
    x ∈ join on rows others ↔ x.1 ∈ rows ∧ x.2 ∈ others ∧ on x.1 x.2 := by
  obtain ⟨r, s⟩ := x
  simp only [join, List.mem_flatMap, List.mem_map, List.mem_filter, Prod.mk.injEq]
  constructor
  · rintro ⟨_, hr, _, hs, rfl, rfl⟩
    exact ⟨hr, hs⟩
  · rintro ⟨hr, hs⟩
    exact ⟨r, hr, s, hs, rfl, rfl⟩

/-- A condition on the second side of a join can be part of the join. -/
theorem filter_join {on : ρ → σ → Bool} {rows : List ρ} {others : List σ} (q : σ → Bool) :
    (join on rows others).filter (fun x => q x.2) = join (fun r s => on r s && q s) rows others := by
  induction rows with
  | nil => rfl
  | cons r rest ih =>
    simp only [join, List.flatMap_cons, List.filter_append, List.filter_map] at ih ⊢
    rw [ih, List.filter_filter]
    simp only [Function.comp_apply, Bool.and_comm]

/-- Distinct rows that meet a condition of one row are at most one. -/
theorem length_filter_le_one {p : σ → Bool} {others : List σ} {s : σ} (hnodup : others.Nodup)
    (h : ∀ t, p t → t = s) : (others.filter p).length ≤ 1 := by
  have hsub : others.filter p ⊆ [s] := fun t ht =>
    List.mem_singleton.mpr (h t (List.mem_filter.mp ht).2)
  exact (List.subperm_of_subset (hnodup.filter p) hsub).length_le

/-- Where each row joins at most one row, the join sums up like the rows that are joined. -/
theorem sum_join {on : ρ → σ → Bool} {rows : List ρ} {others : List σ} (f : ρ → ℤ)
    (hone : ∀ r ∈ rows, (others.filter (on r)).length ≤ 1) :
    ((join on rows others).map fun x => f x.1).sum =
      ((rows.filter fun r => others.any (on r)).map f).sum := by
  induction rows with
  | nil => rfl
  | cons r rest ih =>
    have hrest := ih fun s hs => hone s (List.mem_cons_of_mem r hs)
    have hr := hone r List.mem_cons_self
    rw [join, List.flatMap_cons, List.map_append, List.sum_append, ← join, hrest, List.filter_cons]
    match hfilter : others.filter (on r), hr with
    | [], _ =>
      have hnone : others.any (on r) = false :=
        List.any_eq_false.mpr (List.filter_eq_nil_iff.mp hfilter)
      simp [hnone]
    | [s], _ =>
      have hs : s ∈ others.filter (on r) := hfilter ▸ List.mem_singleton_self s
      have hsome : others.any (on r) = true := List.any_eq_true.mpr ⟨s, List.mem_filter.mp hs⟩
      simp [hsome]

section Parts

variable {f : ρ → ℤ} {p q : ρ → Bool} {rows : List ρ}

theorem sum_nonneg (h : ∀ r ∈ rows, 0 ≤ f r) : 0 ≤ (rows.map f).sum := by
  refine List.sum_nonneg fun z hz => ?_
  obtain ⟨r, hr, rfl⟩ := List.mem_map.mp hz
  exact h r hr

/-- A part of a sum of nonnegative terms is at most a larger part. -/
theorem sum_filter_le (h : ∀ r ∈ rows, 0 ≤ f r) (hpq : ∀ r, p r → q r) :
    ((rows.filter p).map f).sum ≤ ((rows.filter q).map f).sum := by
  refine ((rows.monotone_filter_right hpq).map f).sum_le_sum fun z hz => ?_
  obtain ⟨r, hr, rfl⟩ := List.mem_map.mp hz
  exact h r (List.mem_filter.mp hr).1

end Parts

section Groups

variable [DecidableEq κ] {key : ρ → κ} {rows : List ρ} {k : κ}

/-- The rows of one key, in their order. -/
def group (key : ρ → κ) (k : κ) (rows : List ρ) : List ρ := rows.filter fun r => key r = k

/-- `GROUP BY`: each key once, with its rows. -/
def groupBy (key : ρ → κ) (rows : List ρ) : List (κ × List ρ) :=
  (rows.map key).dedup.map fun k => (k, group key k rows)

theorem mem_group {r : ρ} : r ∈ group key k rows ↔ r ∈ rows ∧ key r = k := by
  simp [group]

theorem mem_groupBy {g : κ × List ρ} :
    g ∈ groupBy key rows ↔ (∃ r ∈ rows, key r = g.1) ∧ g.2 = group key g.1 rows := by
  obtain ⟨k, g⟩ := g
  simp only [groupBy, List.mem_map, List.mem_dedup, Prod.mk.injEq]
  constructor
  · rintro ⟨_, hk, rfl, rfl⟩
    exact ⟨hk, rfl⟩
  · rintro ⟨hk, rfl⟩
    exact ⟨k, hk, rfl, rfl⟩

theorem group_mem_groupBy {r : ρ} (hr : r ∈ rows) :
    (key r, group key (key r) rows) ∈ groupBy key rows :=
  mem_groupBy.mpr ⟨⟨r, hr, rfl⟩, rfl⟩

theorem keys_groupBy_nodup : ((groupBy key rows).map Prod.fst).Nodup := by
  rw [groupBy, List.map_map]
  exact (List.map_id _).symm ▸ List.nodup_dedup _

/-- A key is looked up as its group, or not found where that is empty. -/
theorem lookup_groupBy (key : ρ → κ) (rows : List ρ) (k : κ) :
    ((groupBy key rows).find? fun g => g.1 = k).map Prod.snd = some (group key k rows) ∨
      (((groupBy key rows).find? fun g => g.1 = k).map Prod.snd = none ∧ group key k rows = []) := by
  cases hfind : (groupBy key rows).find? fun g => g.1 = k with
  | some g =>
    obtain ⟨-, hrows⟩ := mem_groupBy.mp (List.mem_of_find?_eq_some hfind)
    have hkey : g.1 = k := by simpa using List.find?_some hfind
    rw [hkey] at hrows
    exact .inl (congrArg some hrows)
  | none =>
    refine .inr ⟨rfl, List.filter_eq_nil_iff.mpr fun r hr hkey => ?_⟩
    exact List.find?_eq_none.mp hfind _ (group_mem_groupBy hr) hkey

/-- A column of a group, where the empty group has the default. -/
theorem getD_groupBy {α : Type} {f : List ρ → α} {d : α} (hf : f [] = d) :
    ((((groupBy key rows).find? fun g => g.1 = k).map Prod.snd).map f).getD d =
      f (group key k rows) := by
  rcases lookup_groupBy key rows k with h | ⟨h, hnil⟩
  · rw [h]
    rfl
  · rw [h, hnil, hf]
    rfl

/-- A column of a group, null for the empty group. -/
theorem bind_groupBy {α : Type} {f : List ρ → Option α} (hf : f [] = none) :
    (((groupBy key rows).find? fun g => g.1 = k).map Prod.snd).bind f =
      f (group key k rows) := by
  rcases lookup_groupBy key rows k with h | ⟨h, hnil⟩
  · rw [h]
    rfl
  · rw [h, hnil, hf]
    rfl

/-- A join grouped by a column of its first side joins the groups. -/
theorem group_join {on : ρ → σ → Bool} {others : List σ} :
    group (fun x => key x.1) k (join on rows others) = join on (group key k rows) others := by
  induction rows with
  | nil => rfl
  | cons r rest ih =>
    simp only [join, group, List.flatMap_cons, List.filter_append, List.filter_map] at ih ⊢
    rw [ih]
    by_cases hk : key r = k
    · simp [hk, Function.comp_def]
    · simp [hk, Function.comp_def]

theorem sum_keys {ks : List κ} (hks : ks.Nodup) (f : ρ → ℤ) :
    (ks.map fun k => ((group key k rows).map f).sum).sum =
      ((rows.filter fun r => key r ∈ ks).map f).sum := by
  induction rows with
  | nil => simp [group]
  | cons r rest ih =>
    have hsplit (k : κ) : ((group key k (r :: rest)).map f).sum =
        (if k = key r then f r else 0) + ((group key k rest).map f).sum := by
      by_cases hk : key r = k
      · subst hk
        simp [group]
      · have hk' : ¬k = key r := fun h => hk h.symm
        simp [group, hk, hk']
    simp only [hsplit, List.sum_map_add, ih, List.sum_map_ite_eq]
    by_cases hr : key r ∈ ks
    · simp [hr, List.count_eq_one_of_mem hks hr]
    · simp [hr, List.count_eq_zero.mpr hr]

/-- A sum over groups is the sum over their rows. -/
theorem sum_groupBy (key : ρ → κ) (rows : List ρ) (p : κ → Prop) [DecidablePred p] (f : ρ → ℤ) :
    (((groupBy key rows).filter fun g => p g.1).map fun g => (g.2.map f).sum).sum =
      ((rows.filter fun r => p (key r)).map f).sum := by
  have hkeys : (groupBy key rows).filter (fun g => p g.1) =
      ((rows.map key).dedup.filter fun k => p k).map fun k => (k, group key k rows) := by
    rw [groupBy, List.filter_map]
    rfl
  rw [hkeys, List.map_map]
  refine (sum_keys ((List.nodup_dedup _).filter _) f).trans ?_
  congr 2
  refine List.filter_congr fun r hr => ?_
  have hmem : key r ∈ rows.map key := List.mem_map_of_mem hr
  simp [hmem]

end Groups

section Orders

variable [LinearOrder κ] [LinearOrder κ'] {f : ρ → κ} {f' : σ → κ'} {rows : List ρ}

/-- The order of distinct keys does not depend on the order of storage. -/
theorem orderBy_perm_eq {rows' : List ρ} (hperm : rows.Perm rows') (h : (rows.map f).Nodup) :
    orderBy f rows = orderBy f rows' := by
  refine orderBy_eq (orderBy_strict ((hperm.map f).nodup_iff.mp h)) (List.Nodup.of_map f h) fun r => ?_
  rw [mem_orderBy]
  exact hperm.mem_iff

/-- Images of rows, in an order that follows the one of the rows. -/
theorem orderBy_of_perm_map {l : List σ} {g : σ → ρ} (hperm : rows.Perm (l.map g))
    (hnodup : (l.map f').Nodup)
    (hlt : ∀ x ∈ l, ∀ y ∈ l, f' x < f' y → f (g x) < f (g y)) :
    orderBy f rows = (orderBy f' l).map g := by
  have hsorted : ((orderBy f' l).map g).Pairwise fun r s => f r < f s := by
    refine List.pairwise_map.mpr ((orderBy_strict hnodup).imp_of_mem fun hx hy h => ?_)
    exact hlt _ (mem_orderBy.mp hx) _ (mem_orderBy.mp hy) h
  have hmap : rows.Perm ((orderBy f' l).map g) := hperm.trans ((orderBy_perm f' l).map g).symm
  refine orderBy_eq hsorted ?_ fun r => hmap.mem_iff
  exact hmap.nodup_iff.mpr (List.Nodup.of_map f (List.pairwise_map.mpr (hsorted.imp ne_of_lt)))

/-- The first row of an order is below every row. -/
theorem first_le {first : ρ} {rest : List ρ} (h : orderBy f rows = first :: rest) :
    first ∈ rows ∧ ∀ r ∈ rows, f first ≤ f r := by
  have hsorted := orderBy_sorted f rows
  rw [h] at hsorted
  refine ⟨mem_orderBy.mp (h ▸ List.mem_cons_self), fun r hr => ?_⟩
  have hr' : r ∈ first :: rest := h ▸ mem_orderBy.mpr hr
  rcases List.mem_cons.mp hr' with rfl | hr'
  · exact le_rfl
  · exact List.rel_of_pairwise_cons hsorted hr'

/-- Rows of one key keep their order. -/
theorem group_orderBy (f : ρ → κ) (k : κ) (rows : List ρ) :
    group f k (orderBy f rows) = group f k rows := by
  have htied : (group f k rows).Pairwise fun r s => f r ≤ f s := by
    refine List.pairwise_of_forall_mem_list fun r hr s hs => ?_
    rw [(mem_group.mp hr).2, (mem_group.mp hs).2]
  have hsub : (group f k rows).Sublist (orderBy f rows) :=
    List.sublist_insertionSort htied List.filter_sublist
  have hkept := hsub.filter fun r => decide (f r = k)
  rw [group, List.filter_filter] at hkept
  simp only [Bool.and_self] at hkept
  exact (hkept.eq_of_length (((orderBy_perm f rows).filter _).length_eq).symm).symm

/-- The first row of an order is the first one stored of its key. -/
theorem head?_group {first : ρ} (h : (orderBy f rows).head? = some first) :
    (group f (f first) rows).head? = some first := by
  obtain ⟨rest, horder⟩ := List.head?_eq_some_iff.mp h
  rw [← group_orderBy, horder, group, List.filter_cons_of_pos (by simp), List.head?_cons]

theorem orderBy_eq_nil (h : orderBy f rows = []) : rows = [] :=
  List.perm_nil.mp (h ▸ (orderBy_perm f rows).symm)

/-- `MIN` of a column that follows an order is the first row's. -/
theorem min?_eq_first {h : ρ → ℕ} (hmono : ∀ r s, f r ≤ f s → h r ≤ h s) :
    (rows.map h).min? = (orderBy f rows).head?.map h := by
  cases horder : orderBy f rows with
  | nil =>
    rw [orderBy_eq_nil horder]
    rfl
  | cons first rest =>
    obtain ⟨hmem, hle⟩ := first_le horder
    refine List.min?_eq_some_iff.mpr ⟨List.mem_map_of_mem hmem, fun b hb => ?_⟩
    obtain ⟨r, hr, rfl⟩ := List.mem_map.mp hb
    exact hmono _ _ (hle r hr)

/-- `MAX` of a column that follows an order is the last row's. -/
theorem max?_eq_last {h : ρ → ℕ} (hmono : ∀ r s, f r ≤ f s → h r ≤ h s) :
    (rows.map h).max? = (orderBy (fun r => OrderDual.toDual (f r)) rows).head?.map h := by
  cases horder : orderBy (fun r => OrderDual.toDual (f r)) rows with
  | nil =>
    rw [orderBy_eq_nil horder]
    rfl
  | cons last rest =>
    obtain ⟨hmem, hle⟩ := first_le horder
    refine List.max?_eq_some_iff.mpr ⟨List.mem_map_of_mem hmem, fun b hb => ?_⟩
    obtain ⟨r, hr, rfl⟩ := List.mem_map.mp hb
    exact hmono _ _ (hle r hr)

end Orders

end Relational
