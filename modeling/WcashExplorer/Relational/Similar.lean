import Mathlib.Data.List.Forall2
import Mathlib.Data.List.Perm.Basic
import WcashExplorer.Relational.Grouping
import WcashExplorer.Relational.Window

/-! Selections that hold the same rows up to a relation, in any order. -/
namespace Relational

variable {ρ σ τ υ κ : Type} {R : ρ → σ → Prop} {S : τ → υ → Prop} {rows more : List ρ}
  {rows' more' : List σ}

/-- The same rows up to a relation, in any order. -/
def Similar (R : ρ → σ → Prop) (rows : List ρ) (rows' : List σ) : Prop :=
  ∃ mid, List.Forall₂ R rows mid ∧ mid.Perm rows'

theorem head?_rel (h : List.Forall₂ R rows rows') : Option.Rel R rows.head? rows'.head? := by
  cases h with
  | nil => exact .none
  | cons hrs _ => exact .some hrs

theorem filter_rel {p : ρ → Bool} {q : σ → Bool} (h : List.Forall₂ R rows rows')
    (hp : ∀ r s, R r s → p r = q s) : List.Forall₂ R (rows.filter p) (rows'.filter q) := by
  induction h with
  | nil => exact .nil
  | @cons r s rest rest' hrs _ ih =>
    rw [List.filter_cons, List.filter_cons, hp r s hrs]
    split_ifs
    · exact .cons hrs ih
    · exact ih

namespace Similar

theorem of_perm {others : List ρ} (h : rows.Perm others) : Similar Eq rows others :=
  ⟨rows, List.forall₂_eq_eq_eq ▸ rfl, h⟩

theorem perm {others : List ρ} (h : Similar Eq rows others) : rows.Perm others := by
  obtain ⟨mid, hrel, hperm⟩ := h
  rw [List.forall₂_eq_eq_eq] at hrel
  exact hrel ▸ hperm

theorem mono {R' : ρ → σ → Prop} (h : Similar R rows rows') (hR : ∀ r s, R r s → R' r s) :
    Similar R' rows rows' := by
  obtain ⟨mid, hrel, hperm⟩ := h
  exact ⟨mid, hrel.imp hR, hperm⟩

/-- What relates the images relates the rows. -/
theorem of_perm_map {f : ρ → τ} {g : σ → τ} (h : (rows.map f).Perm (rows'.map g)) :
    Similar (fun r s => f r = g s) rows rows' := by
  have heq : List.Forall₂ (fun t s => t = g s) (rows'.map g) rows' :=
    List.forall₂_map_left_iff.mpr (List.forall₂_same.mpr fun _ _ => rfl)
  obtain ⟨mid, hrel, hperm⟩ := List.perm_comp_forall₂ h heq
  exact ⟨mid, List.forall₂_map_left_iff.mp hrel, hperm⟩

/-- Rows that are related come from the two selections. -/
theorem with_mem (h : Similar R rows rows') :
    Similar (fun r s => r ∈ rows ∧ s ∈ rows' ∧ R r s) rows rows' := by
  obtain ⟨mid, hrel, hperm⟩ := h
  refine ⟨mid, List.forall₂_iff_zip.mpr ⟨hrel.length_eq, ?_⟩, hperm⟩
  intro r s hrs
  obtain ⟨hr, hs⟩ := List.of_mem_zip hrs
  exact ⟨hr, hperm.subset hs, (List.forall₂_iff_zip.mp hrel).2 hrs⟩

theorem trans_perm {others : List σ} (h : Similar R rows rows') (hperm : rows'.Perm others) :
    Similar R rows others := by
  obtain ⟨mid, hrel, hmid⟩ := h
  exact ⟨mid, hrel, hmid.trans hperm⟩

theorem perm_trans {others : List ρ} (hperm : others.Perm rows) (h : Similar R rows rows') :
    Similar R others rows' := by
  obtain ⟨mid, hrel, hmid⟩ := h
  obtain ⟨first, hfirst, hmore⟩ := List.perm_comp_forall₂ hperm hrel
  exact ⟨first, hfirst, hmore.trans hmid⟩

theorem map {f : ρ → τ} {g : σ → υ} (h : Similar R rows rows') (hf : ∀ r s, R r s → S (f r) (g s)) :
    Similar S (rows.map f) (rows'.map g) := by
  obtain ⟨mid, hrel, hperm⟩ := h
  refine ⟨mid.map g, ?_, hperm.map g⟩
  exact List.forall₂_map_left_iff.mpr (List.forall₂_map_right_iff.mpr (hrel.imp hf))

theorem perm_map {f : ρ → τ} {g : σ → τ} (h : Similar R rows rows')
    (hf : ∀ r s, R r s → f r = g s) : (rows.map f).Perm (rows'.map g) := by
  obtain ⟨mid, hrel, hperm⟩ := h.map hf
  rw [List.forall₂_eq_eq_eq] at hrel
  exact hrel ▸ hperm

theorem length_eq (h : Similar R rows rows') : rows.length = rows'.length := by
  obtain ⟨mid, hrel, hperm⟩ := h
  exact hrel.length_eq.trans hperm.length_eq

theorem sum_eq {f : ρ → ℤ} {g : σ → ℤ} (h : Similar R rows rows') (hf : ∀ r s, R r s → f r = g s) :
    (rows.map f).sum = (rows'.map g).sum :=
  (h.perm_map hf).sum_eq

theorem filter {p : ρ → Bool} {q : σ → Bool} (h : Similar R rows rows')
    (hp : ∀ r s, R r s → p r = q s) : Similar R (rows.filter p) (rows'.filter q) := by
  obtain ⟨mid, hrel, hperm⟩ := h
  exact ⟨mid.filter q, filter_rel hrel hp, hperm.filter q⟩

theorem filterMap {f : ρ → Option τ} {g : σ → Option υ} (h : Similar R rows rows')
    (hf : ∀ r s, R r s → Option.Rel S (f r) (g s)) :
    Similar S (rows.filterMap f) (rows'.filterMap g) := by
  obtain ⟨mid, hrel, hperm⟩ := h
  refine ⟨mid.filterMap g, ?_, hperm.filterMap g⟩
  exact List.rel_filterMap (fun _ _ hrs => hf _ _ hrs) hrel

theorem append (h : Similar R rows rows') (hmore : Similar R more more') :
    Similar R (rows ++ more) (rows' ++ more') := by
  obtain ⟨mid, hrel, hperm⟩ := h
  obtain ⟨mid', hrel', hperm'⟩ := hmore
  exact ⟨mid ++ mid', List.rel_append hrel hrel', hperm.append hperm'⟩

theorem flatMap {f : ρ → List τ} {g : σ → List υ} (h : Similar R rows rows')
    (hf : ∀ r s, R r s → Similar S (f r) (g s)) : Similar S (rows.flatMap f) (rows'.flatMap g) := by
  obtain ⟨mid, hrel, hperm⟩ := h
  refine Similar.trans_perm ?_ (hperm.flatMap fun _ _ => .refl _)
  clear hperm
  induction hrel with
  | nil => exact ⟨[], .nil, .nil⟩
  | cons hrs _ ih =>
    rw [List.flatMap_cons, List.flatMap_cons]
    exact (hf _ _ hrs).append ih

theorem any_eq {p : ρ → Bool} {q : σ → Bool} (h : Similar R rows rows')
    (hp : ∀ r s, R r s → p r = q s) : rows.any p = rows'.any q := by
  have hany := (h.perm_map hp).any_eq (f := id)
  simpa only [List.any_map, Function.id_comp] using hany

theorem join {on : ρ → τ → Bool} {on' : σ → υ → Bool} {others : List τ} {others' : List υ}
    (h : Similar R rows rows') (hothers : Similar S others others')
    (hon : ∀ r s t u, R r s → S t u → on r t = on' s u) :
    Similar (fun x y => R x.1 y.1 ∧ S x.2 y.2) (join on rows others) (join on' rows' others') := by
  refine h.flatMap fun r s hrs => ?_
  refine (hothers.filter fun t u htu => hon r s t u hrs htu).map ?_
  intro t u htu
  exact ⟨hrs, htu⟩

/-- The one row that meets a condition is found in both. -/
theorem find?_rel {p : ρ → Bool} {q : σ → Bool} (h : Similar R rows rows')
    (hp : ∀ r s, R r s → p r = q s) (hone : ∀ s ∈ rows', ∀ s' ∈ rows', q s → q s' → s = s') :
    Option.Rel R (rows.find? p) (rows'.find? q) := by
  obtain ⟨mid, hrel, hperm⟩ := h
  have hfound : Option.Rel R (rows.find? p) (mid.find? q) := by
    clear hperm hone
    induction hrel with
    | nil => exact .none
    | @cons r s rest rest' hrs _ ih =>
      rw [List.find?_cons, List.find?_cons, hp r s hrs]
      cases q s with
      | true => exact .some hrs
      | false => exact ih
  have hsame : mid.find? q = rows'.find? q := by
    cases hmid : mid.find? q with
    | none =>
      refine (List.find?_eq_none.mpr fun s hs => ?_).symm
      exact List.find?_eq_none.mp hmid s (hperm.mem_iff.mpr hs)
    | some s =>
      have hs := hperm.mem_iff.mp (List.mem_of_find?_eq_some hmid)
      have hq : q s = true := List.find?_some hmid
      cases hrows : rows'.find? q with
      | none => exact absurd hq (List.find?_eq_none.mp hrows s hs)
      | some s' =>
        exact congrArg some (hone s hs s' (List.mem_of_find?_eq_some hrows) hq
          (List.find?_some hrows))
  exact hsame ▸ hfound

section Groups

variable [DecidableEq κ] {key : ρ → κ} {key' : σ → κ}

theorem group (h : Similar R rows rows') (hkey : ∀ r s, R r s → key r = key' s) (k : κ) :
    Similar R (group key k rows) (group key' k rows') :=
  h.filter fun r s hrs => by rw [hkey r s hrs]

/-- The same groups, each of them with the same rows. -/
theorem groupBy (h : Similar R rows rows') (hkey : ∀ r s, R r s → key r = key' s) :
    Similar (fun g g' => g.1 = g'.1 ∧ Similar R g.2 g'.2) (groupBy key rows)
      (groupBy key' rows') := by
  have hkeys : Similar Eq (rows.map key).dedup (rows'.map key').dedup :=
    of_perm (h.perm_map hkey).dedup
  refine hkeys.map ?_
  rintro k _ rfl
  exact ⟨rfl, h.group hkey k⟩

end Groups

section Orders

variable [LinearOrder κ] {key : ρ → κ} {key' : σ → κ}

/-- Under distinct keys the orders correspond row by row. -/
theorem orderBy (h : Similar R rows rows') (hkey : ∀ r s, R r s → key r = key' s)
    (hnodup : (rows.map key).Nodup) :
    List.Forall₂ R (orderBy key rows) (orderBy key' rows') := by
  obtain ⟨mid, hrel, hperm⟩ := perm_trans (orderBy_perm key rows) h
  have hkeys : (Relational.orderBy key rows).map key = mid.map key' := by
    have heq := List.forall₂_map_left_iff.mpr (List.forall₂_map_right_iff.mpr (hrel.imp hkey))
    rwa [List.forall₂_eq_eq_eq] at heq
  have hsorted : mid.Pairwise fun r s => key' r < key' s := by
    have hstrict := List.pairwise_map.mpr (orderBy_strict hnodup)
    rw [hkeys] at hstrict
    exact List.pairwise_map.mp hstrict
  rw [orderBy_of_sorted hsorted hperm.symm]
  exact hrel

/-- Where rows of one key correspond in their order of storage, so do the first rows of the order. -/
theorem head?_orderBy (h : Similar R rows rows') (hkey : ∀ r s, R r s → key r = key' s)
    (htied : ∀ k, List.Forall₂ R (Relational.group key k rows) (Relational.group key' k rows')) :
    Option.Rel R (Relational.orderBy key rows).head? (Relational.orderBy key' rows').head? := by
  have hkeys := h.perm_map hkey
  cases hfirst : (Relational.orderBy key rows).head? with
  | none =>
    have hnil := orderBy_eq_nil (List.head?_eq_none_iff.mp hfirst)
    have hnil' : rows' = [] := by
      have hlength := h.length_eq
      rw [hnil] at hlength
      exact List.length_eq_zero_iff.mp hlength.symm
    rw [hnil']
    exact .none
  | some r =>
    obtain ⟨rest, horder⟩ := List.head?_eq_some_iff.mp hfirst
    obtain ⟨hr, hle⟩ := first_le horder
    cases hfirst' : (Relational.orderBy key' rows').head? with
    | none =>
      have hnil := orderBy_eq_nil (List.head?_eq_none_iff.mp hfirst')
      rw [hnil, List.map_nil] at hkeys
      rw [List.map_eq_nil_iff.mp hkeys.eq_nil] at hr
      cases hr
    | some s =>
      obtain ⟨rest', horder'⟩ := List.head?_eq_some_iff.mp hfirst'
      obtain ⟨hs, hle'⟩ := first_le horder'
      have heq : key' s = key r := by
        obtain ⟨s', hs', hkeyr⟩ := List.mem_map.mp (hkeys.mem_iff.mp (List.mem_map_of_mem hr))
        obtain ⟨r', hr', hkeys'⟩ := List.mem_map.mp (hkeys.mem_iff.mpr (List.mem_map_of_mem hs))
        exact le_antisymm (hkeyr ▸ hle' s' hs') (hkeys' ▸ hle r' hr')
      have hgroup := head?_group hfirst
      have hgroup' := head?_group hfirst'
      rw [heq] at hgroup'
      have hhead := head?_rel (htied (key r))
      rwa [hgroup, hgroup'] at hhead

theorem below {before : Option κ} (h : Similar R rows rows') (hkey : ∀ r s, R r s → key r = key' s)
    (hnodup : (rows.map key).Nodup) :
    List.Forall₂ R (below key before rows) (below key' before rows') := by
  refine orderBy (h.filter fun r s hrs => by rw [hkey r s hrs])
    (fun r s hrs => by rw [hkey r s hrs]) ?_
  have hkept : ((rows.filter fun r => before.all fun k => key r < k).map key).Nodup :=
    hnodup.sublist (List.filter_sublist.map key)
  exact hkept

end Orders

end Similar

end Relational
