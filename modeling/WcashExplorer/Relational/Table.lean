import Mathlib.Algebra.Order.Ring.Int
import Mathlib.Data.List.Nodup

/-! Keyed tables: rows in storage order, no two of them with the same primary key. -/
namespace Relational

/-- A table of rows whose primary key is read off by `key`. -/
structure Table (ρ : Type) {κ : Type} (key : ρ → κ) where
  rows : List ρ
  nodup : (rows.map key).Nodup

namespace Table

variable {ρ κ : Type} {key : ρ → κ}

def empty : Table ρ key := ⟨[], List.nodup_nil⟩

theorem ext_rows {t u : Table ρ key} (h : t.rows = u.rows) : t = u := by
  cases t
  cases u
  cases h
  rfl

/-- `DELETE FROM t WHERE p`. -/
def deleteWhere (t : Table ρ key) (p : ρ → Bool) : Table ρ key where
  rows := t.rows.filter fun r => !p r
  nodup := (List.Sublist.map key List.filter_sublist).nodup t.nodup

/-- `UPDATE t SET f WHERE p`, for an assignment that leaves the key alone. -/
def updateWhere (t : Table ρ key) (p : ρ → Bool) (f : ρ → ρ) (hf : ∀ r, key (f r) = key r) :
    Table ρ key where
  rows := t.rows.map fun r => if p r then f r else r
  nodup := by
    have hk : (t.rows.map fun r => if p r then f r else r).map key = t.rows.map key := by
      rw [List.map_map]
      apply List.map_congr_left
      intro r _
      by_cases hp : p r <;> simp [hp, hf]
    rw [hk]
    exact t.nodup

@[simp] theorem rows_empty : (empty : Table ρ key).rows = [] := rfl

@[simp] theorem rows_deleteWhere (t : Table ρ key) (p : ρ → Bool) :
    (t.deleteWhere p).rows = t.rows.filter fun r => !p r := rfl

@[simp] theorem rows_updateWhere (t : Table ρ key) (p : ρ → Bool) (f : ρ → ρ)
    (hf : ∀ r, key (f r) = key r) :
    (t.updateWhere p f hf).rows = t.rows.map fun r => if p r then f r else r := rfl

section Lookup

variable [DecidableEq κ]

/-- The row stored under a key, if any. -/
def find? (t : Table ρ key) (k : κ) : Option ρ := t.rows.find? fun r => key r = k

@[simp] theorem find?_empty (k : κ) : (empty : Table ρ key).find? k = none := rfl

theorem find?_eq_some {t : Table ρ key} {k : κ} {r : ρ} :
    t.find? k = some r ↔ r ∈ t.rows ∧ key r = k := by
  constructor
  · intro h
    exact ⟨List.mem_of_find?_eq_some h, by simpa using List.find?_some h⟩
  · rintro ⟨hr, rfl⟩
    have hsome : (t.rows.find? fun s => key s = key r).isSome :=
      List.find?_isSome.mpr ⟨r, hr, by simp⟩
    obtain ⟨s, hs⟩ := Option.isSome_iff_exists.mp hsome
    have hkey : key s = key r := by simpa using List.find?_some hs
    obtain rfl := List.inj_on_of_nodup_map t.nodup (List.mem_of_find?_eq_some hs) hr hkey
    exact hs

theorem find?_eq_none {t : Table ρ key} {k : κ} :
    t.find? k = none ↔ ∀ r ∈ t.rows, key r ≠ k := by
  simp [find?, List.find?_eq_none]

theorem find?_of_mem {t : Table ρ key} {r : ρ} (h : r ∈ t.rows) : t.find? (key r) = some r :=
  find?_eq_some.mpr ⟨h, rfl⟩

theorem key_of_find? {t : Table ρ key} {k : κ} {r : ρ} (h : t.find? k = some r) : key r = k :=
  (find?_eq_some.mp h).2

theorem mem_of_find? {t : Table ρ key} {k : κ} {r : ρ} (h : t.find? k = some r) : r ∈ t.rows :=
  (find?_eq_some.mp h).1

/-- `INSERT INTO t … ON CONFLICT (key) DO NOTHING`. -/
def insertNew (t : Table ρ key) (r : ρ) : Table ρ key :=
  match h : t.find? (key r) with
  | some _ => t
  | none =>
    { rows := t.rows ++ [r]
      nodup := by
        rw [List.map_append, List.nodup_append]
        refine ⟨t.nodup, by simp, ?_⟩
        intro k hk l hl
        obtain ⟨s, hs, rfl⟩ := List.mem_map.mp hk
        obtain rfl : l = key r := by simpa using hl
        exact find?_eq_none.mp h s hs }

/-- `INSERT INTO t … ON CONFLICT (key) DO UPDATE SET f`, for an assignment that leaves the
key alone. -/
def upsert (t : Table ρ key) (r : ρ) (f : ρ → ρ) (hf : ∀ s, key (f s) = key s) : Table ρ key :=
  match t.find? (key r) with
  | some _ => t.updateWhere (fun s => key s = key r) f hf
  | none => t.insertNew r

theorem insertNew_of_some {t : Table ρ key} {r s : ρ} (h : t.find? (key r) = some s) :
    t.insertNew r = t := by
  unfold insertNew
  split
  · rfl
  · simp_all

theorem rows_insertNew_of_none {t : Table ρ key} {r : ρ} (h : t.find? (key r) = none) :
    (t.insertNew r).rows = t.rows ++ [r] := by
  unfold insertNew
  split
  · simp_all
  · rfl

theorem find?_insertNew (t : Table ρ key) (r : ρ) (k : κ) :
    (t.insertNew r).find? k = (t.find? k).or (if key r = k then some r else none) := by
  cases h : t.find? (key r) with
  | some s =>
    rw [insertNew_of_some h]
    by_cases hk : key r = k
    · subst hk
      simp [h]
    · simp [hk]
  | none =>
    rw [find?, rows_insertNew_of_none h, List.find?_append]
    by_cases hk : key r = k <;> simp [find?, hk]

theorem find?_insertNew_of_ne {t : Table ρ key} {r : ρ} {k : κ} (h : key r ≠ k) :
    (t.insertNew r).find? k = t.find? k := by
  simp [find?_insertNew, h]

/-- A row already stored is never displaced by an ignored or accepted insertion. -/
theorem find?_insertNew_of_find? {t : Table ρ key} {r s : ρ} {k : κ} (h : t.find? k = some s) :
    (t.insertNew r).find? k = some s := by
  simp [find?_insertNew, h]

theorem mem_insertNew {t : Table ρ key} {r s : ρ} :
    s ∈ (t.insertNew r).rows ↔ s ∈ t.rows ∨ (s = r ∧ t.find? (key r) = none) := by
  cases h : t.find? (key r) with
  | some u => simp [insertNew_of_some h]
  | none => simp [rows_insertNew_of_none h]

/-- An ignored or accepted insertion only ever appends. -/
theorem rows_prefix_insertNew (t : Table ρ key) (r : ρ) : t.rows <+: (t.insertNew r).rows := by
  cases h : t.find? (key r) with
  | some s => simp [insertNew_of_some h]
  | none => simp [rows_insertNew_of_none h]

theorem find?_of_prefix {t u : Table ρ key} (h : t.rows <+: u.rows) {k : κ} {r : ρ}
    (hr : t.find? k = some r) : u.find? k = some r := by
  obtain ⟨hmem, hk⟩ := find?_eq_some.mp hr
  exact find?_eq_some.mpr ⟨h.subset hmem, hk⟩

theorem find?_updateWhere (t : Table ρ key) (p : ρ → Bool) (f : ρ → ρ)
    (hf : ∀ r, key (f r) = key r) (k : κ) :
    (t.updateWhere p f hf).find? k = (t.find? k).map fun r => if p r then f r else r := by
  have hk : (fun r => decide (key r = k)) ∘ (fun r => if p r then f r else r) =
      fun r => decide (key r = k) := by
    funext r
    by_cases hp : p r <;> simp [hp, hf]
  rw [find?, rows_updateWhere, List.find?_map, hk]
  rfl

theorem find?_deleteWhere (t : Table ρ key) (p : ρ → Bool) (k : κ) :
    (t.deleteWhere p).find? k = (t.find? k).filter fun r => !p r := by
  cases h : t.find? k with
  | none =>
    have hn := find?_eq_none.mp h
    refine find?_eq_none.mpr ?_
    intro r hr
    exact hn r (List.mem_of_mem_filter hr)
  | some r =>
    obtain ⟨hr, rfl⟩ := find?_eq_some.mp h
    by_cases hp : p r
    · simp only [hp, Option.filter_some, Bool.not_true, Bool.false_eq_true, if_false]
      refine find?_eq_none.mpr ?_
      intro s hs hk
      obtain ⟨hs, hps⟩ := List.mem_filter.mp hs
      obtain rfl := List.inj_on_of_nodup_map t.nodup hs hr hk
      simp [hp] at hps
    · simp only [hp, Option.filter_some, Bool.not_false, if_true]
      exact find?_eq_some.mpr ⟨List.mem_filter.mpr ⟨hr, by simp [hp]⟩, rfl⟩

theorem find?_upsert_self (t : Table ρ key) (r : ρ) (f : ρ → ρ) (hf : ∀ s, key (f s) = key s) :
    (t.upsert r f hf).find? (key r) = some ((t.find? (key r)).elim r f) := by
  unfold upsert
  cases h : t.find? (key r) with
  | none => simp [find?_insertNew, h]
  | some s => simp [find?_updateWhere, h, key_of_find? h]

theorem find?_upsert_of_ne {t : Table ρ key} {r : ρ} {f : ρ → ρ} {hf : ∀ s, key (f s) = key s}
    {k : κ} (h : key r ≠ k) : (t.upsert r f hf).find? k = t.find? k := by
  unfold upsert
  cases hr : t.find? (key r) with
  | none => exact find?_insertNew_of_ne h
  | some s =>
    rw [find?_updateWhere]
    cases hk : t.find? k with
    | none => rfl
    | some u =>
      have hne : ¬ key u = key r := fun he => h (he.symm.trans (key_of_find? hk))
      simp [hne]

/-- Lookups determine which rows a selection has. -/
theorem filter_perm {t u : Table ρ key} {p : ρ → Bool}
    (h : ∀ r, p r → t.find? (key r) = u.find? (key r)) :
    (t.rows.filter p).Perm (u.rows.filter p) := by
  have hnodup (t : Table ρ key) : (t.rows.filter p).Nodup :=
    (List.Nodup.of_map _ t.nodup).filter p
  refine (List.perm_ext_iff_of_nodup (hnodup t) (hnodup u)).mpr fun r => ?_
  have hmem (t : Table ρ key) : r ∈ t.rows ↔ t.find? (key r) = some r :=
    ⟨find?_of_mem, mem_of_find?⟩
  simp only [List.mem_filter]
  constructor
  · rintro ⟨hr, hp⟩
    exact ⟨(hmem u).mpr ((h r hp).symm.trans ((hmem t).mp hr)), hp⟩
  · rintro ⟨hr, hp⟩
    exact ⟨(hmem t).mpr ((h r hp).trans ((hmem u).mp hr)), hp⟩

end Lookup

end Table

end Relational
