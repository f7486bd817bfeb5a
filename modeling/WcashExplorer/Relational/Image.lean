import WcashExplorer.Relational.Table

/-! Images of a table under a change of columns outside the key. -/
namespace Relational.Table

variable {ρ κ : Type} {key : ρ → κ} {t : Table ρ key} {f : ρ → ρ} {hf : ∀ r, key (f r) = key r}

/-- Every row of the table with some columns changed. -/
def image (t : Table ρ key) (f : ρ → ρ) (hf : ∀ r, key (f r) = key r) : Table ρ key where
  rows := t.rows.map f
  nodup := by
    have hk : (t.rows.map f).map key = t.rows.map key := by
      rw [List.map_map]
      exact List.map_congr_left fun r _ => hf r
    rw [hk]
    exact t.nodup

@[simp] theorem rows_image : (t.image f hf).rows = t.rows.map f := rfl

/-- An update that does not read the changed columns to choose its rows. -/
theorem image_updateWhere {p : ρ → Bool} {g g' : ρ → ρ} {hg : ∀ r, key (g r) = key r}
    {hg' : ∀ r, key (g' r) = key r} (hp : ∀ r, p (f r) = p r) (h : ∀ r, f (g r) = g' (f r)) :
    (t.updateWhere p g hg).image f hf = (t.image f hf).updateWhere p g' hg' := by
  apply ext_rows
  simp only [rows_image, rows_updateWhere, List.map_map]
  apply List.map_congr_left
  intro r _
  by_cases hr : p r <;> simp [hp, hr, h]

variable [DecidableEq κ]

theorem find?_image (k : κ) : (t.image f hf).find? k = (t.find? k).map f := by
  have hk : (fun r => decide (key r = k)) ∘ f = fun r => decide (key r = k) := by
    funext r
    simp [hf]
  rw [find?, rows_image, List.find?_map, hk]
  rfl

theorem image_insertNew (r : ρ) :
    (t.insertNew r).image f hf = (t.image f hf).insertNew (f r) := by
  apply ext_rows
  have hfind := @find?_image _ _ _ t f hf _ (key r)
  cases h : t.find? (key r) with
  | some s =>
    have hsome : (t.image f hf).find? (key (f r)) = some (f s) := by
      rw [hf, hfind, h, Option.map_some]
    rw [insertNew_of_some h, insertNew_of_some hsome]
  | none =>
    have hnone : (t.image f hf).find? (key (f r)) = none := by
      rw [hf, hfind, h, Option.map_none]
    rw [rows_image, rows_insertNew_of_none h, rows_insertNew_of_none hnone]
    simp

theorem image_upsert (r : ρ) {g g' : ρ → ρ} {hg : ∀ s, key (g s) = key s}
    {hg' : ∀ s, key (g' s) = key s} (h : ∀ s, f (g s) = g' (f s)) :
    (t.upsert r g hg).image f hf = (t.image f hf).upsert (f r) g' hg' := by
  have hfind := @find?_image _ _ _ t f hf _ (key r)
  unfold upsert
  rw [hf, hfind]
  cases t.find? (key r) with
  | none => exact image_insertNew r
  | some s =>
    have hp : ∀ s, decide (key (f s) = key r) = decide (key s = key r) := fun s => by rw [hf]
    exact image_updateWhere hp h

end Relational.Table
