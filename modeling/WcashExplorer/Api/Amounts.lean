import Mathlib.Algebra.Order.Field.Rat
import Mathlib.Tactic.FieldSimp
import WcashExplorer.Api.Address
import WcashExplorer.Codec.Decimal

/-! Amounts in the API: the renderer of exact decimal text beside the one of machine integers. -/
namespace WcashExplorer

open Codec

/-- The whole and the fractional digits of an amount of smallest units. -/
def splitDecimals (decimals : Nat) (digits : Text) : Text × Text :=
  if decimals = 0 then (digits, [])
  else if digits.length ≤ decimals then
    (['0'], List.replicate (decimals - digits.length) '0' ++ digits)
  else
    let split := digits.length - decimals
    (digits.take split, digits.drop split)

/-- `strip_prefix('-')`. -/
def stripMinus : Text → Bool × Text
  | '-' :: digits => (true, digits)
  | digits => (false, digits)

/-- `amount_from_zatoshi_text`: the amount of an exact decimal text of any length. -/
def amountFromZatoshiText (network : NetworkProfile) (zatoshi : Text) : Result AmountView :=
  let (negative, digits) := stripMinus zatoshi
  if digits.isEmpty || !digits.all isDigit then
    invalidNodeResponse "database returned an invalid exact amount"
  else
    let digits := stripZeros digits
    let (whole, fractional) := splitDecimals network.decimals digits
    let sign : Text := if negative && digits ≠ ['0'] then ['-'] else []
    let decimal := if network.decimals = 0 then sign ++ whole else sign ++ whole ++ '.' :: fractional
    .ok { zatoshi := sign ++ digits, decimal, symbol := network.symbol }

/-- An optional minus sign before one or more digits, and the integer they denote. -/
inductive DenotesInteger : Text → Int → Prop
  | digits {t : Text} : t ≠ [] → t.all isDigit → DenotesInteger t (numeralValue t)
  | minus {t : Text} : t ≠ [] → t.all isDigit → DenotesInteger ('-' :: t) (-(numeralValue t : Int))

/-- A minus sign before negative numbers only. -/
def signText (n : Int) : Text := if n < 0 then ['-'] else []

/-- Digits of a whole number, without a redundant leading zero. -/
def IsWhole (t : Text) : Prop :=
  t ≠ [] ∧ t.all isDigit ∧ (t.head? = some '0' → t = ['0'])

/-- The canonical decimal numeral of an integer. -/
def CanonicalNumeral (n : Int) (t : Text) : Prop :=
  ∃ digits, t = signText n ++ digits ∧ IsWhole digits ∧ numeralValue digits = n.natAbs

/-- The exact decimal of `n / 10 ^ decimals`, with that many digits behind the point and no point
where there are none. -/
def ExactDecimal (decimals : Nat) (n : Int) (t : Text) : Prop :=
  ∃ whole fractional, t = signText n ++ whole ++ (if decimals = 0 then [] else '.' :: fractional) ∧
    IsWhole whole ∧ fractional.length = decimals ∧ fractional.all isDigit ∧
    (numeralValue whole : ℚ) + numeralValue fractional / 10 ^ decimals = n.natAbs / 10 ^ decimals

section Denoted

variable {t : Text} {n : Int} {m decimals : Nat}

theorem isDigit_eq (c : Char) : isDigit c = c.isDigit := by
  simp [isDigit, Char.isDigit, Char.le_def]

theorem all_isDigit (h : t.all isDigit) : ∀ c ∈ t, c.isDigit := by
  intro c hc
  rw [← isDigit_eq]
  exact List.all_eq_true.mp h c hc

theorem isWhole_toDigits (m : Nat) : IsWhole (Nat.toDigits 10 m) := by
  refine ⟨Nat.toDigits_ne_nil, List.all_eq_true.mpr fun c hc => ?_, fun hhead => ?_⟩
  · rw [isDigit_eq]
    exact Nat.isDigit_of_mem_toDigits (by decide) (by decide) hc
  · rcases Nat.eq_zero_or_pos m with rfl | hpos
    · exact Nat.toDigits_zero 10
    · exact absurd hhead (head?_toDigits hpos)

theorem numericText_eq (n : Int) : numericText n = signText n ++ Nat.toDigits 10 n.natAbs := rfl

/-- A numeral names its integer. -/
theorem numericText_injective : Function.Injective numericText := by
  intro m n h
  have hminus : ∀ k, (Nat.toDigits 10 k).head? ≠ some '-' := by
    intro k hhead
    have hdigit := (isWhole_toDigits k).2.1
    have hmem := List.mem_of_head? hhead
    exact absurd (List.all_eq_true.mp hdigit _ hmem) (by decide)
  simp only [numericText] at h
  by_cases hm : m < 0 <;> by_cases hn : n < 0
  · rw [if_pos hm, if_pos hn] at h
    have habs := toDigits_injective (List.append_cancel_left h)
    omega
  · rw [if_pos hm, if_neg hn] at h
    exact absurd (congrArg List.head? h.symm) (hminus _)
  · rw [if_neg hm, if_pos hn] at h
    exact absurd (congrArg List.head? h) (hminus _)
  · rw [if_neg hm, if_neg hn] at h
    have habs := toDigits_injective (List.append_cancel_left h)
    omega

theorem denotes_numericText (n : Int) : DenotesInteger (numericText n) n := by
  have hwhole := isWhole_toDigits n.natAbs
  rw [numericText]
  by_cases hn : n < 0
  · rw [if_pos hn]
    have h := DenotesInteger.minus hwhole.1 hwhole.2.1
    rw [numeralValue_toDigits, show -(n.natAbs : Int) = n by omega] at h
    exact h
  · rw [if_neg hn]
    have h := DenotesInteger.digits hwhole.1 hwhole.2.1
    rw [numeralValue_toDigits, show (n.natAbs : Int) = n by omega] at h
    exact h

/-- The digits of a number split at its decimals. -/
theorem splitDecimals_toDigits (hpos : 0 < decimals) :
    splitDecimals decimals (Nat.toDigits 10 m) =
      (Nat.toDigits 10 (m / 10 ^ decimals), padded decimals (m % 10 ^ decimals)) := by
  have hshort := Nat.length_toDigits_le_iff (b := 10) (n := m) (by decide) hpos
  have hpow : 0 < 10 ^ decimals := Nat.pow_pos (by decide)
  rw [splitDecimals, if_neg (by omega)]
  by_cases hlt : m < 10 ^ decimals
  · rw [if_pos (hshort.mpr hlt), Nat.div_eq_of_lt hlt, Nat.mod_eq_of_lt hlt, Nat.toDigits_zero]
    rfl
  · have hsplit := toDigits_split hpos (Nat.le_of_not_lt hlt)
    have hlen := length_padded hpos (Nat.mod_lt m hpow)
    have htotal := congrArg List.length hsplit
    rw [List.length_append, hlen] at htotal
    rw [if_neg (fun hle => hlt (hshort.mp hle))]
    dsimp only
    rw [hsplit, List.length_append, hlen, Nat.add_sub_cancel, List.take_left, List.drop_left]

end Denoted

section Exact

variable {network : NetworkProfile} {z : Text} {n : Int}

/-- What is shown of an integer of smallest units. -/
def exactAmount (network : NetworkProfile) (n : Int) : AmountView where
  zatoshi := numericText n
  decimal := signText n ++ Nat.toDigits 10 (n.natAbs / 10 ^ network.decimals) ++
    if network.decimals = 0 then []
    else '.' :: padded network.decimals (n.natAbs % 10 ^ network.decimals)
  symbol := network.symbol

/-- Behind the sign only the number the digits spell is read. -/
theorem amountFromZatoshiText_digits {negative : Bool} {digits : Text}
    (hz : stripMinus z = (negative, digits)) (hne : digits ≠ []) (hdigits : digits.all isDigit)
    (hn : n = if negative then -(numeralValue digits : Int) else numeralValue digits) :
    amountFromZatoshiText network z = .ok (exactAmount network n) := by
  have hstrip := stripZeros_eq (all_isDigit hdigits)
  have habs : n.natAbs = numeralValue digits := by
    cases negative <;> simp only [hn, if_true] <;> simp
  have hzero : Nat.toDigits 10 n.natAbs ≠ ['0'] ↔ n ≠ 0 := by
    rw [← Nat.toDigits_zero 10]
    constructor
    · rintro h rfl
      exact h rfl
    · intro h heq
      exact h (Int.natAbs_eq_zero.mp (toDigits_injective heq))
  have hsign : (if negative && decide (Nat.toDigits 10 n.natAbs ≠ ['0']) then ['-'] else []) =
      signText n := by
    rw [signText]
    cases negative
    · rw [if_neg (by simp), if_neg (by simp at hn; omega)]
    · simp only [if_true] at hn
      by_cases hn0 : n = 0
      · rw [if_neg (by simp [hn0]), if_neg (by omega)]
      · rw [if_pos (by simpa using hzero.mpr hn0), if_pos (by omega)]
  have hvalid : ¬ (digits.isEmpty || !digits.all isDigit) = true := by simp [hne, hdigits]
  unfold amountFromZatoshiText
  simp only [hz, if_neg hvalid, hstrip, ← habs]
  rw [hsign]
  by_cases hdecimals : network.decimals = 0
  · simp only [exactAmount, splitDecimals, hdecimals, if_true, numericText_eq, Nat.pow_zero,
      Nat.div_one, List.append_nil]
  · rw [splitDecimals_toDigits (Nat.pos_of_ne_zero hdecimals)]
    simp only [exactAmount, if_neg hdecimals, numericText_eq]

theorem amountFromZatoshiText_eq (h : DenotesInteger z n) :
    amountFromZatoshiText network z = .ok (exactAmount network n) := by
  cases h with
  | digits hne hdigits =>
    have hminus : stripMinus z = (false, z) := by
      match z, hdigits with
      | [], _ => rfl
      | c :: rest, hdigits =>
        have hc : c ≠ '-' := by
          rintro rfl
          simp [isDigit] at hdigits
        unfold stripMinus
        split
        · next heq => exact absurd (List.cons.inj heq).1 hc
        · rfl
    exact amountFromZatoshiText_digits hminus hne hdigits rfl
  | minus hne hdigits => exact amountFromZatoshiText_digits rfl hne hdigits rfl

theorem denotes_of_ok {view : AmountView} (h : amountFromZatoshiText network z = .ok view) :
    ∃ n, DenotesInteger z n := by
  have hsplit : z = (if (stripMinus z).1 then ['-'] else []) ++ (stripMinus z).2 := by
    unfold stripMinus
    split <;> simp
  unfold amountFromZatoshiText at h
  dsimp only at h
  split at h
  · cases h
  · next hvalid =>
    simp only [Bool.or_eq_true, Bool.not_eq_true', List.isEmpty_iff, not_or,
      Bool.not_eq_false] at hvalid
    cases hminus : (stripMinus z).1 with
    | false =>
      rw [hminus, if_neg (by decide), List.nil_append] at hsplit
      rw [hsplit]
      exact ⟨_, .digits hvalid.1 hvalid.2⟩
    | true =>
      rw [hminus, if_pos rfl] at hsplit
      rw [hsplit]
      exact ⟨_, .minus hvalid.1 hvalid.2⟩

theorem exactAmount_canonical (network : NetworkProfile) (n : Int) :
    CanonicalNumeral n (exactAmount network n).zatoshi :=
  ⟨_, numericText_eq n, isWhole_toDigits _, numeralValue_toDigits _⟩

theorem exactAmount_decimal (network : NetworkProfile) (n : Int) :
    ExactDecimal network.decimals n (exactAmount network n).decimal := by
  have hpow : 0 < 10 ^ network.decimals := Nat.pow_pos (by decide)
  by_cases hdecimals : network.decimals = 0
  · refine ⟨_, [], ?_, isWhole_toDigits (n.natAbs / 10 ^ network.decimals), hdecimals.symm, rfl, ?_⟩
    · simp only [exactAmount, hdecimals, if_true]
    · rw [numeralValue_toDigits, hdecimals, Nat.pow_zero, Nat.div_one]
      simp [numeralValue]
  · refine ⟨_, padded network.decimals (n.natAbs % 10 ^ network.decimals), rfl,
      isWhole_toDigits _, length_padded (Nat.pos_of_ne_zero hdecimals) (Nat.mod_lt _ hpow),
      List.all_eq_true.mpr fun c hc => ?_, ?_⟩
    · rw [isDigit_eq]
      exact isDigit_of_mem_padded hc
    · have hdivmod : ((10 ^ network.decimals * (n.natAbs / 10 ^ network.decimals) +
          n.natAbs % 10 ^ network.decimals : Nat) : ℚ) = n.natAbs := by rw [Nat.div_add_mod]
      push_cast at hdivmod
      rw [numeralValue_toDigits, numeralValue_padded, ← hdivmod]
      field_simp

theorem exactAmount_injective (network : NetworkProfile) :
    Function.Injective (exactAmount network) :=
  fun _ _ h => numericText_injective (congrArg AmountView.zatoshi h)

/-- The exact renderer accepts decimal integers of any length, and shows each one canonically and
without loss; equal views are views of one integer. -/
theorem amounts_rendered_exactly (network : NetworkProfile) (z : Text) :
    ((∃ view, amountFromZatoshiText network z = .ok view) ↔ ∃ n, DenotesInteger z n) ∧
    (∀ view n, amountFromZatoshiText network z = .ok view → DenotesInteger z n →
      CanonicalNumeral n view.zatoshi ∧ ExactDecimal network.decimals n view.decimal) ∧
    ∀ z' view view', amountFromZatoshiText network z = .ok view →
      amountFromZatoshiText network z' = .ok view' →
        (view = view' ↔ ∃ n, DenotesInteger z n ∧ DenotesInteger z' n) := by
  refine ⟨⟨?_, ?_⟩, ?_, ?_⟩
  · rintro ⟨view, hview⟩
    exact denotes_of_ok hview
  · rintro ⟨n, hn⟩
    exact ⟨_, amountFromZatoshiText_eq hn⟩
  · intro view n hview hn
    rw [amountFromZatoshiText_eq hn] at hview
    obtain rfl := Except.ok.inj hview
    exact ⟨exactAmount_canonical network n, exactAmount_decimal network n⟩
  · intro z' view view' hview hview'
    obtain ⟨n, hn⟩ := denotes_of_ok hview
    obtain ⟨n', hn'⟩ := denotes_of_ok hview'
    constructor
    · rintro rfl
      rw [amountFromZatoshiText_eq hn] at hview
      rw [amountFromZatoshiText_eq hn'] at hview'
      have hsame := exactAmount_injective network (Except.ok.inj (hview.trans hview'.symm))
      rw [← hsame] at hn'
      exact ⟨n, hn, hn'⟩
    · rintro ⟨m, hm, hm'⟩
      rw [amountFromZatoshiText_eq hm] at hview
      rw [amountFromZatoshiText_eq hm'] at hview'
      exact Except.ok.inj (hview.symm.trans hview')

end Exact

section Renderers

variable {network : NetworkProfile}

theorem amount_eq_exactAmount (h : network.decimals ≠ 0) (v : Int) :
    amount network v = exactAmount network v := by
  simp only [amount, exactAmount, if_neg h, numericText_eq, signText, padded]

/-- Without decimals the machine renderer still prints a point and a digit. -/
theorem amount_ne_exactAmount (h : network.decimals = 0) (v : Int) :
    amount network v ≠ exactAmount network v := by
  intro hsame
  have hlen := congrArg (fun view => view.decimal.length) hsame
  simp [amount, exactAmount, signText, h, Nat.mod_one] at hlen

/-- The two renderers show an amount alike on every network with decimals, and on none without. -/
theorem renderers_agree_iff (network : NetworkProfile) (v : Int) :
    amountFromZatoshiText network (numericText v) = .ok (amount network v) ↔
      network.decimals ≠ 0 := by
  rw [amountFromZatoshiText_eq (denotes_numericText v)]
  constructor
  · intro hsame hzero
    exact amount_ne_exactAmount hzero v (Except.ok.inj hsame).symm
  · intro h
    rw [amount_eq_exactAmount h]

/-- A network whose amounts have no fraction. -/
def wholeNetwork : NetworkProfile where
  id := ['t', 'e', 's', 't', 'n', 'e', 't']
  genesisHash := List.replicate 64 '0'
  symbol := ['T', 'W', 'C']
  decimals := 0
  coinbaseMaturity := 100

/-- Five units are shown as `5.0` in one place and as `5` in the other. -/
theorem renderers_differ_without_decimals :
    (amount wholeNetwork 5).decimal = ['5', '.', '0'] ∧
      amountFromZatoshiText wholeNetwork (numericText 5) =
        .ok { zatoshi := ['5'], decimal := ['5'], symbol := wholeNetwork.symbol } ∧
      amountFromZatoshiText wholeNetwork (numericText 5) ≠ .ok (amount wholeNetwork 5) :=
  ⟨by decide, by rw [amountFromZatoshiText_eq (denotes_numericText 5)]; rfl,
    fun h => amount_ne_exactAmount rfl 5 (by
      rw [amountFromZatoshiText_eq (denotes_numericText 5)] at h
      exact (Except.ok.inj h).symm)⟩

end Renderers

end WcashExplorer
