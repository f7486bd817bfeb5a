import WcashExplorer.Relational.Ordered
import WcashExplorer.Relational.Table

/-! Sequences of insertions that ignore occupied keys, and of upserts that replace whole rows: the
last row offered under a key stays. -/
namespace Relational

variable {ρ κ : Type} [DecidableEq κ] {key : ρ → κ} {r : ρ} {rows : List ρ} {k : κ}

/-- The last of some rows under a key. -/
def lastOf (key : ρ → κ) (rows : List ρ) (k : κ) : Option ρ := rows.reverse.find? fun r => key r = k

@[simp] theorem lastOf_nil : lastOf key [] k = none := rfl

theorem lastOf_cons : lastOf key (r :: rows) k =
    (lastOf key rows k).or (if key r = k then some r else none) := by
  by_cases hk : key r = k <;> simp [lastOf, List.find?_append, hk]

theorem lastOf_append {rows' : List ρ} :
    lastOf key (rows ++ rows') k = (lastOf key rows' k).or (lastOf key rows k) := by
  simp [lastOf, List.find?_append]

theorem lastOf_eq_none : lastOf key rows k = none ↔ ∀ r ∈ rows, key r ≠ k := by
  simp [lastOf, List.find?_eq_none]

theorem mem_of_lastOf (h : lastOf key rows k = some r) : r ∈ rows ∧ key r = k :=
  ⟨by simpa using List.mem_of_find?_eq_some h, by simpa using List.find?_some h⟩

/-- Among rows of different keys the last one under a key is the only one. -/
theorem lastOf_eq_some (hnodup : (rows.map key).Nodup) :
    lastOf key rows k = some r ↔ r ∈ rows ∧ key r = k := by
  refine ⟨mem_of_lastOf, ?_⟩
  rintro ⟨hr, rfl⟩
  cases hlast : lastOf key rows (key r) with
  | none => exact absurd rfl (lastOf_eq_none.mp hlast r hr)
  | some s =>
    obtain ⟨hs, hk⟩ := mem_of_lastOf hlast
    rw [List.inj_on_of_nodup_map hnodup hs hr hk]

/-- An upsert that assigns every other column leaves exactly the row offered. -/
theorem Table.find?_upsert_replacing {t : Table ρ key} {f : ρ → ρ}
    {hf : ∀ s, key (f s) = key s} (hr : ∀ s, key s = key r → f s = r) (k : κ) :
    (t.upsert r f hf).find? k = (if key r = k then some r else none).or (t.find? k) := by
  by_cases hk : key r = k
  · subst hk
    rw [Table.find?_upsert_self, if_pos rfl, Option.some_or]
    cases h : t.find? (key r) with
    | none => rfl
    | some s => rw [Option.elim_some, hr s (Table.key_of_find? h)]
  · rw [Table.find?_upsert_of_ne hk, if_neg hk, Option.none_or]

namespace Table

variable {t : Table ρ key}

/-- Ignored or accepted insertions, one after the other. -/
def insertAll (t : Table ρ key) (rows : List ρ) : Table ρ key := rows.foldl insertNew t

theorem insertAll_cons : t.insertAll (r :: rows) = (t.insertNew r).insertAll rows := rfl

/-- Rows that are stored already change nothing. -/
theorem insertAll_of_mem (h : ∀ r ∈ rows, r ∈ t.rows) : t.insertAll rows = t := by
  induction rows with
  | nil => rfl
  | cons r rows ih =>
    rw [insertAll_cons, insertNew_of_some (find?_of_mem (h r (by simp)))]
    exact ih fun s hs => h s (by simp [hs])

/-- Rows of new and different keys are appended as they are. -/
theorem rows_insertAll (hnew : ∀ r ∈ rows, t.find? (key r) = none)
    (hnodup : (rows.map key).Nodup) : (t.insertAll rows).rows = t.rows ++ rows := by
  induction rows generalizing t with
  | nil => exact (List.append_nil _).symm
  | cons r rows ih =>
    obtain ⟨hr, hrows⟩ := List.nodup_cons.mp hnodup
    have hfresh : ∀ s ∈ rows, (t.insertNew r).find? (key s) = none := by
      intro s hs
      have hne : key r ≠ key s := fun he => hr (he ▸ List.mem_map_of_mem hs)
      rw [find?_insertNew_of_ne hne]
      exact hnew s (by simp [hs])
    rw [insertAll_cons, ih hfresh hrows, rows_insertNew_of_none (hnew r (by simp)),
      List.append_assoc, List.singleton_append]

/-- The rows of one owner, in the order of their index, after rows of that owner were offered in
this order: if none or all of them were there before, they are the rows offered. -/
theorem orderBy_insertAll {α : Type} [DecidableEq α] {owner : ρ → α} {index : ρ → ℕ} {a : α}
    (hkey : ∀ r s, key r = key s → owner r = owner s ∧ index r = index s)
    (hown : ∀ r ∈ rows, owner r = a) (hincreasing : (rows.map index).Pairwise (· < ·))
    (h : orderBy index (t.rows.filter fun r => owner r = a) = rows ∨ ∀ r ∈ t.rows, owner r ≠ a) :
    orderBy index ((t.insertAll rows).rows.filter fun r => owner r = a) = rows := by
  rcases h with hall | hnone
  · have hmem : ∀ r ∈ rows, r ∈ t.rows := by
      intro r hr
      rw [← hall] at hr
      exact List.mem_of_mem_filter (mem_orderBy.mp hr)
    rw [insertAll_of_mem hmem]
    exact hall
  · have hincreasing := List.pairwise_map.mp hincreasing
    have hfresh : ∀ r ∈ rows, t.find? (key r) = none := by
      intro r hr
      refine find?_eq_none.mpr ?_
      intro s hs he
      exact hnone s hs ((hkey s r he).1.trans (hown r hr))
    have hnodup : (rows.map key).Nodup := by
      refine List.pairwise_map.mpr (hincreasing.imp ?_)
      intro r s hlt he
      have := (hkey r s he).2
      omega
    have hold : t.rows.filter (fun r => decide (owner r = a)) = [] := by
      refine List.filter_eq_nil_iff.mpr ?_
      intro r hr
      simpa using hnone r hr
    have hnew : rows.filter (fun r => decide (owner r = a)) = rows := by
      refine List.filter_eq_self.mpr ?_
      intro r hr
      exact decide_eq_true (hown r hr)
    rw [rows_insertAll hfresh hnodup, List.filter_append, hold, hnew, List.nil_append]
    refine List.Pairwise.insertionSort_eq (hincreasing.imp ?_)
    intro r s hlt
    exact Nat.le_of_lt hlt

end Table

end Relational
