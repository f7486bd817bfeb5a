import Mathlib.Algebra.Order.Field.Rat
import Mathlib.Data.List.Basic
import Mathlib.Data.List.Induction
import Mathlib.Data.List.TakeWhile

/-! Decimal numerals of any length: their numbers, leading zeros and splits at a position. -/
namespace Codec

/-- The number a list of decimal digits spells. -/
def numeralValue (t : List Char) : Nat := Nat.ofDigitChars 10 t 0

/-- A number in decimal digits, filled up with zeros to a width. -/
def padded (width n : Nat) : List Char :=
  List.replicate (width - (Nat.toDigits 10 n).length) '0' ++ Nat.toDigits 10 n

variable {t : List Char} {width n : Nat}

@[simp] theorem numeralValue_toDigits (n : Nat) : numeralValue (Nat.toDigits 10 n) = n :=
  Nat.ofDigitChars_ten_toDigits

theorem toDigits_injective {m n : Nat} (h : Nat.toDigits 10 m = Nat.toDigits 10 n) : m = n := by
  rw [← numeralValue_toDigits m, h, numeralValue_toDigits]

theorem numeralValue_append (s t : List Char) :
    numeralValue (s ++ t) = numeralValue s * 10 ^ t.length + numeralValue t := by
  rw [numeralValue, Nat.ofDigitChars_append, Nat.ofDigitChars_eq_ofDigitChars_zero, Nat.mul_comm]
  rfl

theorem numeralValue_zeros (k : Nat) (t : List Char) :
    numeralValue (List.replicate k '0' ++ t) = numeralValue t := by
  rw [numeralValue, Nat.ofDigitChars_append, Nat.ofDigitChars_replicate_zero, Nat.mul_zero]
  rfl

@[simp] theorem numeralValue_padded (width n : Nat) : numeralValue (padded width n) = n := by
  rw [padded, numeralValue_zeros, numeralValue_toDigits]

theorem isDigit_of_mem_padded {c : Char} (h : c ∈ padded width n) : c.isDigit := by
  rcases List.mem_append.mp h with hzero | hdigit
  · rw [(List.mem_replicate.mp hzero).2]
    rfl
  · exact Nat.isDigit_of_mem_toDigits (by decide) (by decide) hdigit

theorem length_padded (hwidth : 0 < width) (h : n < 10 ^ width) :
    (padded width n).length = width := by
  have hlen := (Nat.length_toDigits_le_iff (by decide) hwidth).mpr h
  rw [padded, List.length_append, List.length_replicate]
  omega

theorem digitChar_toNat {c : Char} (h : c.isDigit) : Nat.digitChar (c.toNat - 48) = c := by
  have hrange : 48 ≤ c.toNat ∧ c.toNat ≤ 57 := by
    simpa [Char.isDigit, UInt32.le_iff_toNat_le] using h
  apply Char.toNat_inj.mp
  rw [Nat.toNat_digitChar_of_lt_ten (by omega)]
  omega

theorem numeralValue_concat (t : List Char) (c : Char) :
    numeralValue (t ++ [c]) = 10 * numeralValue t + (c.toNat - 48) := by
  rw [numeralValue, Nat.ofDigitChars_append, Nat.ofDigitChars_cons, Nat.ofDigitChars_nil]
  rfl

/-- Digits without a leading zero are the numeral of the number they spell. -/
theorem toDigits_numeralValue (hne : t ≠ []) (hdigits : ∀ c ∈ t, c.isDigit)
    (hlead : t.head? ≠ some '0') : Nat.toDigits 10 (numeralValue t) = t := by
  induction t using List.reverseRecOn with
  | nil => exact absurd rfl hne
  | append_singleton t c ih =>
    have hc : c.isDigit := hdigits c (by simp)
    have hlt : c.toNat - 48 < 10 := by
      have hrange : 48 ≤ c.toNat ∧ c.toNat ≤ 57 := by
        simpa [Char.isDigit, UInt32.le_iff_toNat_le] using hc
      omega
    rw [numeralValue_concat]
    by_cases hnil : t = []
    · subst hnil
      have hzero : numeralValue [] = 0 := rfl
      rw [hzero, Nat.mul_zero, Nat.zero_add, Nat.toDigits_of_lt_base hlt, digitChar_toNat hc]
      rfl
    · have hhead : t.head? ≠ some '0' := by rwa [List.head?_append_of_ne_nil _ hnil] at hlead
      have hrest := ih hnil (fun d hd => hdigits d (by simp [hd])) hhead
      have hpos : 0 < numeralValue t := by
        -- zero is spelled with a leading zero
        by_contra hzero
        rw [Nat.eq_zero_of_not_pos hzero, Nat.toDigits_zero] at hrest
        rw [← hrest] at hhead
        exact hhead rfl
      rw [← Nat.toDigits_append_toDigits (by decide) hpos hlt, hrest, Nat.toDigits_of_lt_base hlt,
        digitChar_toNat hc]

theorem head?_toDigits (h : 0 < n) : (Nat.toDigits 10 n).head? ≠ some '0' := by
  induction n using Nat.strongRecOn with
  | ind n ih =>
    by_cases hsmall : n < 10
    · rw [Nat.toDigits_of_lt_base hsmall]
      simp
      omega
    · have hdiv : 0 < n / 10 := by omega
      rw [Nat.toDigits_of_base_le (by decide) (by omega),
        List.head?_append_of_ne_nil _ Nat.toDigits_ne_nil]
      exact ih _ (by omega) hdiv

/-- The numeral of a number of more digits than a width: its leading part, and its rest in exactly
that many digits. -/
theorem toDigits_split (hwidth : 0 < width) (hn : 10 ^ width ≤ n) :
    Nat.toDigits 10 n = Nat.toDigits 10 (n / 10 ^ width) ++ padded width (n % 10 ^ width) := by
  have hpow : 0 < 10 ^ width := Nat.pow_pos (by decide)
  have hvalue : numeralValue (Nat.toDigits 10 (n / 10 ^ width) ++ padded width (n % 10 ^ width)) =
      n := by
    rw [numeralValue_append, numeralValue_toDigits, numeralValue_padded,
      length_padded hwidth (Nat.mod_lt _ hpow), Nat.mul_comm, Nat.div_add_mod]
  have hne : Nat.toDigits 10 (n / 10 ^ width) ≠ [] := Nat.toDigits_ne_nil
  have hnumeral := toDigits_numeralValue
    (t := Nat.toDigits 10 (n / 10 ^ width) ++ padded width (n % 10 ^ width)) (by simp [hne]) ?_ ?_
  · rw [hvalue] at hnumeral
    exact hnumeral
  · intro c hc
    rcases List.mem_append.mp hc with hdigit | hpad
    · exact Nat.isDigit_of_mem_toDigits (by decide) (by decide) hdigit
    · exact isDigit_of_mem_padded hpad
  · rw [List.head?_append_of_ne_nil _ hne]
    exact head?_toDigits (Nat.div_pos hn hpow)

/-- Digits without their leading zeros, with a zero left of nothing. -/
def stripZeros (t : List Char) : List Char :=
  let digits := t.dropWhile (· == '0')
  if digits.isEmpty then ['0'] else digits

theorem numeralValue_dropWhile (t : List Char) :
    numeralValue (t.dropWhile (· == '0')) = numeralValue t := by
  have hzeros : t.takeWhile (· == '0') = List.replicate (t.takeWhile (· == '0')).length '0' :=
    List.eq_replicate_of_mem fun c hc => by simpa using List.mem_takeWhile_imp hc
  conv_rhs => rw [← List.takeWhile_append_dropWhile (p := (· == '0')) (l := t), hzeros,
    numeralValue_zeros]

/-- Stripped digits are the numeral of the number they spelled before. -/
theorem stripZeros_eq (hdigits : ∀ c ∈ t, c.isDigit) :
    stripZeros t = Nat.toDigits 10 (numeralValue t) := by
  unfold stripZeros
  rw [← numeralValue_dropWhile]
  cases hstripped : t.dropWhile (· == '0') with
  | nil => rfl
  | cons c rest =>
    have hlead : c ≠ '0' := by
      have hhead := List.head?_dropWhile_not (· == '0') t
      rw [hstripped] at hhead
      simpa using hhead
    rw [toDigits_numeralValue (by simp) _ (by simpa using hlead)]
    · rfl
    · intro d hd
      rw [← hstripped] at hd
      exact hdigits d (List.dropWhile_subset _ hd)

/-- The number a decimal with a point denotes. -/
def decimalValue (t : List Char) : ℚ :=
  let fractional := (t.dropWhile (· != '.')).drop 1
  numeralValue (t.takeWhile (· != '.')) + numeralValue fractional / 10 ^ fractional.length

theorem decimalValue_point {whole fractional : List Char} (h : ∀ c ∈ whole, c.isDigit) :
    decimalValue (whole ++ '.' :: fractional) =
      numeralValue whole + numeralValue fractional / 10 ^ fractional.length := by
  have hpoint : ∀ c ∈ whole, (c != '.') = true := by
    intro c hc
    have hdigit := h c hc
    simp only [bne_iff_ne, ne_eq]
    rintro rfl
    exact absurd hdigit (by decide)
  have htake : (whole ++ '.' :: fractional).takeWhile (· != '.') = whole := by
    rw [List.takeWhile_append_of_pos hpoint]
    simp
  have hdrop : (whole ++ '.' :: fractional).dropWhile (· != '.') = '.' :: fractional := by
    rw [List.dropWhile_append_of_pos hpoint]
    simp
  rw [decimalValue, htake, hdrop]
  rfl

end Codec
