import Mathlib.Tactic.Ring
import WcashExplorer.AuxPow.LittleEndian

/-! Hexadecimal text: its digits, its length in bytes, and the number it spells. -/
namespace WcashExplorer

/-- The number a hexadecimal text spells, its first digit the most significant. -/
def hexNumber (t : Text) : Nat :=
  t.foldl (fun n c => 16 * n + ((hexDigitValue c).map UInt8.toNat).getD 0) 0

theorem isHexDigit_toNat {c : Char} (h : isHexDigit c) :
    (48 ≤ c.toNat ∧ c.toNat ≤ 57) ∨ (97 ≤ c.toNat ∧ c.toNat ≤ 102) ∨
      (65 ≤ c.toNat ∧ c.toNat ≤ 70) := by
  simpa [isHexDigit, isDigit, or_assoc, Char.le_def, UInt32.le_iff_toNat_le] using h

theorem hexDigitValue_of_isHexDigit {c : Char} (h : isHexDigit c) :
    ∃ v, hexDigitValue c = some v ∧ v.toNat < 16 := by
  have hrange := isHexDigit_toNat h
  simp only [isHexDigit, Bool.or_eq_true] at h
  unfold hexDigitValue
  split_ifs with hdigit hlower hupper
  all_goals first | refine ⟨_, rfl, ?_⟩ | skip
  all_goals simp_all [isDigit, Char.le_def, UInt32.le_iff_toNat_le]
  all_goals omega

/-- A hexadecimal digit is one byte. -/
theorem utf8Size_of_isHexDigit {c : Char} (h : isHexDigit c) : c.utf8Size = 1 := by
  have hrange := isHexDigit_toNat h
  rw [Char.utf8Size_eq_one_iff, UInt32.le_iff_toNat_le]
  change c.toNat ≤ 127
  omega

theorem len_eq_length {t : Text} (h : t.all isHexDigit) : t.len = t.length := by
  induction t with
  | nil => rfl
  | cons c t ih =>
    rw [List.all_cons, Bool.and_eq_true] at h
    have hlen := ih h.2
    simp only [Text.len] at hlen
    simp only [Text.len, List.map_cons, List.sum_cons, utf8Size_of_isHexDigit h.1, hlen,
      List.length_cons, Nat.add_comm]

/-- Pairs of digits decode to the bytes of the number the text spells, the first byte the most
significant. -/
theorem hexDecodeFrom_number {t : Text} (index : Nat) (h : t.all isHexDigit)
    (heven : t.length % 2 = 0) :
    ∃ bytes, hexDecodeFrom index t = .ok bytes ∧ 2 * bytes.length = t.length ∧ ∀ n,
      t.foldl (fun n c => 16 * n + ((hexDigitValue c).map UInt8.toNat).getD 0) n =
        256 ^ bytes.length * n + fromLeBytes bytes.reverse := by
  fun_induction hexDecodeFrom index t with
  | case1 => exact ⟨[], rfl, rfl, by simp [fromLeBytes]⟩
  | case2 => simp at heven
  | case3 index a b rest high low hb ha ih =>
    simp only [List.all_cons, Bool.and_eq_true] at h
    simp only [List.length_cons] at heven ⊢
    obtain ⟨bytes, hdecode, hlen, hnumber⟩ := ih h.2.2 (by omega)
    obtain ⟨v, hv, hhigh⟩ := hexDigitValue_of_isHexDigit h.1
    obtain ⟨w, hw, hlow⟩ := hexDigitValue_of_isHexDigit h.2.1
    obtain rfl : high = v := Option.some.inj (ha.symm.trans hv)
    obtain rfl : low = w := Option.some.inj (hb.symm.trans hw)
    have hbyte : (high * 16 + low).toNat = high.toNat * 16 + low.toNat := by
      simp only [UInt8.toNat_add, UInt8.toNat_mul, UInt8.reduceToNat]
      omega
    refine ⟨(high * 16 + low) :: bytes, by rw [hdecode]; rfl, ?_, fun n => ?_⟩
    · rw [List.length_cons]
      omega
    · rw [List.foldl_cons, List.foldl_cons, hnumber, ha, hb, List.reverse_cons, fromLeBytes_append,
        List.length_reverse, List.length_cons, Nat.pow_succ]
      simp only [fromLeBytes, Option.map_some, Option.getD_some, hbyte]
      ring
  | case4 index a b rest ha =>
    simp only [List.all_cons, Bool.and_eq_true] at h
    obtain ⟨v, hv, -⟩ := hexDigitValue_of_isHexDigit h.1
    rw [hv] at ha
    cases ha
  | case5 index a b rest hb ha =>
    simp only [List.all_cons, Bool.and_eq_true] at h
    obtain ⟨v, hv, -⟩ := hexDigitValue_of_isHexDigit h.2.1
    rw [hv] at hb
    cases hb

end WcashExplorer
