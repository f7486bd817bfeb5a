import WcashExplorer.Codec.Decimal

/-! Integers of a bounded type in decimal: what a text spells, and what a reader of it accepts. -/
namespace Codec

/-- Why a text is no integer of a type. -/
inductive IntErrorKind
  | empty
  | invalidDigit
  | posOverflow
  | negOverflow
  deriving DecidableEq, Repr

/-- Reads digits onto a number for as long as it stays within a bound. -/
def readDigits (bound : Nat) (overflow : IntErrorKind) : Nat → List Char → Except IntErrorKind Nat
  | n, [] => .ok n
  | n, c :: rest =>
    if c.isDigit then
      if 10 * n + (c.toNat - 48) ≤ bound then
        readDigits bound overflow (10 * n + (c.toNat - 48)) rest
      else .error overflow
    else .error .invalidDigit

/-- Reads a number up to a bound; a minus sign is no digit. -/
def parseUnsigned (bound : Nat) (t : List Char) : Except IntErrorKind Nat :=
  match t with
  | [] => .error .empty
  | ['+'] => .error .invalidDigit
  | '+' :: digits => readDigits bound .posOverflow 0 digits
  | digits => readDigits bound .posOverflow 0 digits

/-- Reads a number from `-low` to `high`. -/
def parseSigned (low high : Nat) (t : List Char) : Except IntErrorKind Int :=
  match t with
  | '-' :: [] => .error .invalidDigit
  | '-' :: digits => (readDigits low .negOverflow 0 digits).map fun n => -(n : Int)
  | _ => (parseUnsigned high t).map Int.ofNat

/-- A text spells a number: digits, with or without a plus sign before them. -/
def SpellsNumber (t : List Char) (n : Nat) : Prop :=
  ∃ digits, (t = digits ∨ t = '+' :: digits) ∧ digits ≠ [] ∧ (∀ c ∈ digits, c.isDigit) ∧
    numeralValue digits = n

variable {t digits : List Char} {bound low high m n : Nat} {e : IntErrorKind}

theorem le_ofDigitChars (digits : List Char) (n : Nat) : n ≤ Nat.ofDigitChars 10 digits n := by
  induction digits generalizing n with
  | nil => exact le_rfl
  | cons c rest ih =>
    rw [Nat.ofDigitChars_cons]
    have hrest := ih (10 * n + (c.toNat - '0'.toNat))
    omega

/-- What is read is digits of a number within the bound, and the number is what they spell. -/
theorem readDigits_eq_ok (hn : n ≤ bound) : readDigits bound e n digits = .ok m ↔
    (∀ c ∈ digits, c.isDigit) ∧ Nat.ofDigitChars 10 digits n = m ∧ m ≤ bound := by
  induction digits generalizing n with
  | nil =>
    simp only [readDigits, Nat.ofDigitChars_nil, Except.ok.injEq]
    constructor
    · rintro rfl
      exact ⟨by simp, rfl, hn⟩
    · exact fun h => h.2.1
  | cons c rest ih =>
    have hstep : Nat.ofDigitChars 10 (c :: rest) n =
        Nat.ofDigitChars 10 rest (10 * n + (c.toNat - 48)) := Nat.ofDigitChars_cons
    rw [readDigits, hstep, List.forall_mem_cons]
    split
    · rename_i hdigit
      split
      · rename_i hle
        rw [ih hle]
        simp [hdigit]
      · rename_i hover
        have hmono := le_ofDigitChars rest (10 * n + (c.toNat - 48))
        simp only [reduceCtorEq, false_iff]
        rintro ⟨-, hm, hle⟩
        omega
    · rename_i hdigit
      simp [hdigit]

theorem not_isDigit_plus : ¬ '+'.isDigit := by decide

theorem spells_iff_of_ne (h : t.head? ≠ some '+') :
    SpellsNumber t n ↔ t ≠ [] ∧ (∀ c ∈ t, c.isDigit) ∧ numeralValue t = n := by
  constructor
  · rintro ⟨digits, rfl | rfl, hne, hdigits, hn⟩
    · exact ⟨hne, hdigits, hn⟩
    · exact absurd rfl h
  · rintro ⟨hne, hdigits, hn⟩
    exact ⟨t, .inl rfl, hne, hdigits, hn⟩

theorem spells_plus : SpellsNumber ('+' :: digits) n ↔
    digits ≠ [] ∧ (∀ c ∈ digits, c.isDigit) ∧ numeralValue digits = n := by
  constructor
  · rintro ⟨digits', hsign, hne, hdigits, hn⟩
    rcases hsign with rfl | hsign
    · exact absurd (hdigits '+' List.mem_cons_self) not_isDigit_plus
    · obtain rfl := List.tail_eq_of_cons_eq hsign
      exact ⟨hne, hdigits, hn⟩
  · rintro ⟨hne, hdigits, hn⟩
    exact ⟨digits, .inr rfl, hne, hdigits, hn⟩

/-- A number is read exactly from the texts that spell it, if it is within the bound. -/
theorem parseUnsigned_eq_ok : parseUnsigned bound t = .ok n ↔ SpellsNumber t n ∧ n ≤ bound := by
  have hread {digits : List Char} (h : digits ≠ []) :
      readDigits bound .posOverflow 0 digits = .ok n ↔
        (digits ≠ [] ∧ (∀ c ∈ digits, c.isDigit) ∧ numeralValue digits = n) ∧ n ≤ bound := by
    rw [readDigits_eq_ok (Nat.zero_le _), numeralValue]
    tauto
  unfold parseUnsigned
  split
  · have hnone : ¬ SpellsNumber [] n := fun h => ((spells_iff_of_ne (by simp)).mp h).1 rfl
    simp [hnone]
  · simp [spells_plus]
  · rename_i digits hne
    rw [spells_plus]
    exact hread fun h => hne (h ▸ rfl)
  · rename_i hnil hsingle hplus
    have hhead : t.head? ≠ some '+' := by
      intro h
      obtain ⟨rest, rfl⟩ := List.head?_eq_some_iff.mp h
      exact hplus rest rfl
    rw [spells_iff_of_ne hhead]
    exact hread hnil

/-- Above zero, a signed reader accepts what an unsigned one does. -/
theorem parseSigned_eq_ok (hn : 0 < n) :
    parseSigned low high t = .ok (n : Int) ↔ SpellsNumber t n ∧ n ≤ high := by
  have hminus {digits : List Char} : ¬ SpellsNumber ('-' :: digits) n := by
    rw [spells_iff_of_ne (by simp)]
    rintro ⟨-, hdigits, -⟩
    exact absurd (hdigits '-' List.mem_cons_self) (by decide)
  unfold parseSigned
  split
  · simp [hminus]
  · rename_i digits _
    simp only [hminus, false_and, iff_false]
    cases readDigits low .negOverflow 0 digits with
    | error e => simp [Except.map]
    | ok m =>
      intro h
      have hvalue : -(m : Int) = n := Except.ok.inj h
      omega
  · rw [← parseUnsigned_eq_ok]
    cases parseUnsigned high t with
    | error e => simp [Except.map]
    | ok m => simp [Except.map]

end Codec
