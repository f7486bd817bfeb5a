import WcashExplorer.Hex

/-! Compact difficulty bits: the targets they spell and the ones the decoder returns. -/
namespace WcashExplorer

/-- Eight hexadecimal digits of an exponent, a clear sign bit and a mantissa. -/
structure CompactBits (bits : Text) (exponent mantissa : Nat) : Prop where
  digits : bits.length = 8
  hex : bits.all isHexDigit
  number : hexNumber bits = exponent * 2 ^ 24 + mantissa
  mantissa_lt : mantissa < 2 ^ 23

/-- The whole part of `mantissa * 256 ^ (exponent - 3)`. -/
def expandedTarget (exponent mantissa : Nat) : Nat := mantissa * 256 ^ exponent / 256 ^ 3

/-- The target type holds the non-zero numbers of 256 bits, read from their 32 bytes. -/
def TargetsExact (lib : AuxPowCrate) (value : lib.Target → Nat) : Prop :=
  ∀ bytes : Bytes, bytes.length = 32 →
    (fromLeBytes bytes ≠ 0 →
      ∃ target, lib.targetFromLeBytes bytes = .ok target ∧ value target = fromLeBytes bytes) ∧
    (fromLeBytes bytes = 0 → ∃ message, lib.targetFromLeBytes bytes = .error message)

/-- A text is decoded if it spells a positive target of 256 bits, and to that target. -/
def DecodesExactly (lib : AuxPowCrate) (value : lib.Target → Nat) (bits : Text) : Prop :=
  ((∃ target, compactTarget lib bits = .ok target) ↔
    ∃ exponent mantissa, CompactBits bits exponent mantissa ∧
      0 < expandedTarget exponent mantissa ∧ expandedTarget exponent mantissa < 2 ^ 256) ∧
  ∀ target exponent mantissa, compactTarget lib bits = .ok target →
    CompactBits bits exponent mantissa → value target = expandedTarget exponent mantissa

/-- Bits whose target has 256 bits although its exponent reaches above them. -/
def HighExponent (exponent mantissa : Nat) : Prop :=
  0 < mantissa ∧ (exponent = 33 ∧ mantissa < 2 ^ 16 ∨ exponent = 34 ∧ mantissa < 2 ^ 8)

section Expanded

variable {exponent mantissa : Nat}

theorem expandedTarget_of_le (h : exponent ≤ 3) :
    expandedTarget exponent mantissa = mantissa / 2 ^ (8 * (3 - exponent)) := by
  have hsplit : (256 : Nat) ^ 3 = 2 ^ (8 * (3 - exponent)) * 256 ^ exponent := by
    rw [show (256 : Nat) = 2 ^ 8 from rfl, ← Nat.pow_mul, ← Nat.pow_mul, ← Nat.pow_add]
    congr 1
    omega
  rw [expandedTarget, hsplit, Nat.mul_div_mul_right _ _ (Nat.pow_pos (by decide))]

theorem expandedTarget_of_ge (h : 3 ≤ exponent) :
    expandedTarget exponent mantissa = mantissa * 256 ^ (exponent - 3) := by
  have hsplit : (256 : Nat) ^ exponent = 256 ^ (exponent - 3) * 256 ^ 3 := by
    rw [← Nat.pow_add]
    congr 1
    omega
  rw [expandedTarget, hsplit, ← Nat.mul_assoc, Nat.mul_div_cancel _ (Nat.pow_pos (by decide))]

/-- Above the last exponent the decoder takes, only a short mantissa stays below 256 bits. -/
theorem highExponent_iff (h : 32 < exponent) :
    (0 < expandedTarget exponent mantissa ∧ expandedTarget exponent mantissa < 2 ^ 256) ↔
      HighExponent exponent mantissa := by
  rw [expandedTarget_of_ge (by omega), HighExponent]
  have hpow : 0 < 256 ^ (exponent - 3) := Nat.pow_pos (by decide)
  by_cases h33 : exponent = 33
  · subst h33
    omega
  by_cases h34 : exponent = 34
  · subst h34
    omega
  · have hlarge : (256 : Nat) ^ 32 ≤ 256 ^ (exponent - 3) :=
      Nat.pow_le_pow_right (by decide) (by omega)
    constructor
    · intro ⟨hpos, hlt⟩
      have hmantissa : 1 ≤ mantissa := Nat.pos_of_mul_pos_right hpos
      have hle := Nat.mul_le_mul hmantissa hlarge
      omega
    · omega

end Expanded

section Bytes

variable {exponent mantissa : Nat}

theorem length_compactTargetBytes {compact : Nat} {bytes : Bytes}
    (h : compactTargetBytes compact = .ok bytes) : bytes.length = 32 := by
  unfold compactTargetBytes at h
  dsimp only at h
  split_ifs at h with hword hsmall hlarge
  · cases h
  · rw [← Except.ok.inj h]
    simp [length_toLeBytes]
  · cases h
  · rw [← Except.ok.inj h]
    simp only [List.length_append, List.length_replicate, length_toLeBytes]
    omega

/-- The bytes of a positive mantissa spell its target, up to an exponent of 32. -/
theorem compactTargetBytes_ok (hlt : mantissa < 2 ^ 23) (hpos : 0 < mantissa)
    (hfits : exponent ≤ 32) :
    ∃ bytes, compactTargetBytes (exponent * 2 ^ 24 + mantissa) = .ok bytes ∧
      fromLeBytes bytes = expandedTarget exponent mantissa := by
  have hsize : (exponent * 2 ^ 24 + mantissa) / 2 ^ 24 = exponent := by omega
  have hword : (exponent * 2 ^ 24 + mantissa) % 2 ^ 23 = mantissa := by omega
  have hsign : (exponent * 2 ^ 24 + mantissa) / 2 ^ 23 % 2 = 0 := by omega
  simp only [compactTargetBytes, hsize, hword, hsign]
  rw [if_neg (by simp; omega)]
  by_cases hsmall : exponent ≤ 3
  · rw [if_pos hsmall]
    refine ⟨_, rfl, ?_⟩
    have hle := Nat.div_le_self mantissa (2 ^ (8 * (3 - exponent)))
    rw [fromLeBytes_append, fromLeBytes_toLeBytes, fromLeBytes_replicate_zero,
      expandedTarget_of_le hsmall, Nat.mod_eq_of_lt (by omega), Nat.mul_zero, Nat.add_zero]
  · rw [if_neg hsmall, if_neg (by omega)]
    refine ⟨_, rfl, ?_⟩
    rw [fromLeBytes_append, fromLeBytes_append, fromLeBytes_replicate_zero,
      fromLeBytes_replicate_zero, fromLeBytes_toLeBytes, List.length_replicate,
      expandedTarget_of_ge (by omega), Nat.mod_eq_of_lt (by omega), Nat.mul_zero, Nat.add_zero,
      Nat.zero_add, Nat.mul_comm]

/-- No mantissa, and any mantissa above an exponent of 32, is an error. -/
theorem compactTargetBytes_error (hlt : mantissa < 2 ^ 23) (h : mantissa = 0 ∨ 32 < exponent) :
    ∃ error, compactTargetBytes (exponent * 2 ^ 24 + mantissa) = .error error := by
  have hsize : (exponent * 2 ^ 24 + mantissa) / 2 ^ 24 = exponent := by omega
  have hword : (exponent * 2 ^ 24 + mantissa) % 2 ^ 23 = mantissa := by omega
  simp only [compactTargetBytes, hsize, hword]
  split_ifs with hzero hsmall hlarge
  · exact ⟨_, rfl⟩
  · simp at hzero
    omega
  · exact ⟨_, rfl⟩
  · simp at hzero
    omega

theorem compactTargetBytes_negative {compact : Nat} (h : compact / 2 ^ 23 % 2 = 1) :
    compactTargetBytes compact =
      invalidAuxPow "difficulty target is zero or negative" := by
  simp only [compactTargetBytes, h]
  simp

end Bytes

section Target

variable {lib : AuxPowCrate} {value : lib.Target → Nat} {bits : Text} {exponent mantissa : Nat}

theorem compactTarget_eq (hlen : bits.length = 8) (hhex : bits.all isHexDigit) :
    compactTarget lib bits = compactTargetBytes (hexNumber bits) >>= fun target =>
      asInvalidAuxPow (lib.targetFromLeBytes target) := by
  have hbytes : bits.len = 8 := by rw [len_eq_length hhex, hlen]
  obtain ⟨bytes, hdecode, -, hnumber⟩ := hexDecodeFrom_number 0 hhex (by rw [hlen])
  have hn := hnumber 0
  rw [Nat.mul_zero, Nat.zero_add] at hn
  rw [compactTarget, if_pos (by simp [hbytes, hhex]), hexDecode, if_pos (by rw [hbytes]), hdecode,
    hexNumber, hn]
  rfl

theorem compactTarget_not_hex (h : ¬ (bits.length = 8 ∧ bits.all isHexDigit)) :
    compactTarget lib bits =
      invalidAuxPow "difficulty bits must be exactly four hexadecimal bytes" := by
  rw [compactTarget, if_neg]
  simp only [Bool.and_eq_true, decide_eq_true_eq]
  rintro ⟨hlen, hhex⟩
  exact h ⟨by rw [← len_eq_length hhex, hlen], hhex⟩

theorem CompactBits.unique {exponent' mantissa' : Nat} (h : CompactBits bits exponent mantissa)
    (h' : CompactBits bits exponent' mantissa') : exponent = exponent' ∧ mantissa = mantissa' := by
  have hnumber := h.number.symm.trans h'.number
  have hlt := h.mantissa_lt
  have hlt' := h'.mantissa_lt
  omega

/-- Text that spells no exponent and mantissa is an error. -/
theorem compactTarget_of_none (h : ∀ exponent mantissa, ¬ CompactBits bits exponent mantissa) :
    ∃ error, compactTarget lib bits = .error error := by
  by_cases hbits : bits.length = 8 ∧ bits.all isHexDigit
  · obtain ⟨hlen, hhex⟩ := hbits
    have hsign : hexNumber bits / 2 ^ 23 % 2 = 1 := by
      by_contra hclear
      exact h (hexNumber bits / 2 ^ 24) (hexNumber bits % 2 ^ 24)
        ⟨hlen, hhex, by omega, by omega⟩
    rw [compactTarget_eq hlen hhex, compactTargetBytes_negative hsign]
    exact ⟨_, rfl⟩
  · rw [compactTarget_not_hex hbits]
    exact ⟨_, rfl⟩

/-- Up to an exponent of 32 the target is the expanded one, if that is positive. -/
theorem compactTarget_of_le (hlib : TargetsExact lib value) (h : CompactBits bits exponent mantissa)
    (hle : exponent ≤ 32) :
    (0 < expandedTarget exponent mantissa → ∃ target, compactTarget lib bits = .ok target ∧
      value target = expandedTarget exponent mantissa) ∧
    (expandedTarget exponent mantissa = 0 → ∃ error, compactTarget lib bits = .error error) := by
  rw [compactTarget_eq h.digits h.hex, h.number]
  by_cases hzero : mantissa = 0
  · have hnone : ∃ error, compactTargetBytes (exponent * 2 ^ 24 + mantissa) = .error error :=
      compactTargetBytes_error h.mantissa_lt (Or.inl hzero)
    obtain ⟨error, herror⟩ := hnone
    rw [herror, hzero, expandedTarget, Nat.zero_mul, Nat.zero_div]
    exact ⟨fun hpos => absurd hpos (by decide), fun _ => ⟨error, rfl⟩⟩
  · obtain ⟨bytes, hok, hbytes⟩ :=
      compactTargetBytes_ok h.mantissa_lt (Nat.pos_of_ne_zero hzero) hle
    obtain ⟨haccept, hrefuse⟩ := hlib bytes (length_compactTargetBytes hok)
    rw [hok, ← hbytes]
    constructor
    · intro hpos
      obtain ⟨target, htarget, hvalue⟩ := haccept (Nat.pos_iff_ne_zero.mp hpos)
      refine ⟨target, ?_, hvalue⟩
      change asInvalidAuxPow (lib.targetFromLeBytes bytes) = _
      rw [htarget]
      rfl
    · intro hnone
      obtain ⟨message, hmessage⟩ := hrefuse hnone
      refine ⟨.invalidAuxPow message, ?_⟩
      change asInvalidAuxPow (lib.targetFromLeBytes bytes) = _
      rw [hmessage]
      rfl

theorem expandedTarget_lt (hlt : mantissa < 2 ^ 23) (hle : exponent ≤ 32) :
    expandedTarget exponent mantissa < 2 ^ 256 := by
  have hpow : (256 : Nat) ^ exponent ≤ 256 ^ 32 := Nat.pow_le_pow_right (by decide) hle
  have hmul := Nat.mul_le_mul (Nat.le_of_lt hlt) hpow
  rw [expandedTarget]
  omega

/-- Bits are decoded exactly unless their exponent lies above 32 and their mantissa is short enough
for a target of 256 bits: the overflow test reads the exponent alone. -/
theorem compact_target_exact_iff (hlib : TargetsExact lib value) (bits : Text) :
    DecodesExactly lib value bits ↔
      ∀ exponent mantissa, CompactBits bits exponent mantissa →
        ¬ HighExponent exponent mantissa := by
  by_cases hspelled : ∃ exponent mantissa, CompactBits bits exponent mantissa
  · obtain ⟨exponent, mantissa, h⟩ := hspelled
    by_cases hle : exponent ≤ 32
    · -- the decoder's own range
      obtain ⟨hpos, hzero⟩ := compactTarget_of_le hlib h hle
      refine iff_of_true ⟨⟨?_, ?_⟩, ?_⟩ ?_
      · rintro ⟨target, htarget⟩
        refine ⟨exponent, mantissa, h, Nat.pos_of_ne_zero fun hnone => ?_,
          expandedTarget_lt h.mantissa_lt hle⟩
        obtain ⟨error, herror⟩ := hzero hnone
        rw [htarget] at herror
        cases herror
      · rintro ⟨exponent', mantissa', h', hpositive, -⟩
        obtain ⟨rfl, rfl⟩ := h.unique h'
        obtain ⟨target, htarget, -⟩ := hpos hpositive
        exact ⟨target, htarget⟩
      · intro target exponent' mantissa' htarget h'
        obtain ⟨rfl, rfl⟩ := h.unique h'
        rcases Nat.eq_zero_or_pos (expandedTarget exponent mantissa) with hnone | hpositive
        · obtain ⟨error, herror⟩ := hzero hnone
          rw [htarget] at herror
          cases herror
        · obtain ⟨found, hfound, hvalue⟩ := hpos hpositive
          rw [htarget] at hfound
          rw [Except.ok.inj hfound, hvalue]
      · rintro exponent' mantissa' h' ⟨-, hhigh⟩
        obtain ⟨rfl, rfl⟩ := h.unique h'
        omega
    · -- above it every text is refused
      obtain ⟨error, hbytes⟩ := compactTargetBytes_error h.mantissa_lt
        (Or.inr (Nat.lt_of_not_le hle))
      have hrefused : ∀ target, compactTarget lib bits ≠ .ok target := by
        intro target htarget
        rw [compactTarget_eq h.digits h.hex, h.number, hbytes] at htarget
        cases htarget
      have hiff : _ ↔ HighExponent exponent mantissa := highExponent_iff (Nat.lt_of_not_le hle)
      constructor
      · rintro ⟨⟨-, hsucceeds⟩, -⟩ exponent' mantissa' h' hhigh
        obtain ⟨rfl, rfl⟩ := h.unique h'
        obtain ⟨target, htarget⟩ := hsucceeds ⟨exponent, mantissa, h, hiff.mpr hhigh⟩
        exact hrefused target htarget
      · intro hlow
        refine ⟨⟨fun ⟨target, htarget⟩ => absurd htarget (hrefused target), ?_⟩,
          fun target _ _ htarget _ => absurd htarget (hrefused target)⟩
        rintro ⟨exponent', mantissa', h', hfits⟩
        obtain ⟨rfl, rfl⟩ := h.unique h'
        exact absurd (hiff.mp hfits) (hlow _ _ h)
  · push Not at hspelled
    have hnone : ∃ error, compactTarget lib bits = .error error := compactTarget_of_none hspelled
    obtain ⟨error, herror⟩ := hnone
    refine iff_of_true ⟨⟨?_, ?_⟩, ?_⟩ fun exponent mantissa h => absurd h (hspelled _ _)
    · rintro ⟨target, htarget⟩
      rw [herror] at htarget
      cases htarget
    · rintro ⟨exponent, mantissa, h, -⟩
      exact absurd h (hspelled _ _)
    · intro target exponent mantissa _ h
      exact absurd h (hspelled _ _)

end Target

section Sample

/-- Proof rules over numbers as targets: every proof is refused, every target of 256 bits read. -/
def targetCrate : AuxPowCrate where
  Proof := Empty
  Target := Nat
  Rules := Unit
  proofMagic := [0x57, 0x43, 0x41, 0x5a]
  parentHeaderBytes := 140
  sha256 := fun _ => List.replicate 32 0
  heightTryFrom := some
  rulesForCandidateHeight := fun _ _ => ()
  decode := fun _ => .error "no proof"
  targetFromLeBytes := fun bytes =>
    if bytes.length = 32 && fromLeBytes bytes ≠ 0 then .ok (fromLeBytes bytes)
    else .error "the target is zero"
  isMetByLeHash := fun target hash => fromLeBytes hash ≤ target
  validateWithParentRules := fun proof _ _ _ => proof.elim
  parentHeader := Empty.elim
  parentHeaderHash := Empty.elim
  advertisedNBits := Empty.elim
  parentMerkleDepth := Empty.elim
  parentCoinbaseIndex := Empty.elim
  authDataMerkleDepth := Empty.elim
  authDataCoinbaseIndex := Empty.elim
  auxiliaryMerkleDepth := Empty.elim
  auxiliaryIndex := Empty.elim

theorem targetCrate_exact : TargetsExact targetCrate id := by
  intro bytes hlen
  constructor
  · intro hpos
    exact ⟨fromLeBytes bytes, if_pos (by simp [hlen, hpos]), rfl⟩
  · intro hzero
    exact ⟨"the target is zero", if_neg (by simp [hzero])⟩

def highBits : Text := ['2', '1', '0', '0', '0', '0', '0', '1']

theorem highBits_compact : CompactBits highBits 33 1 :=
  ⟨by decide, by decide, by decide, by decide⟩

/-- The exponent 33 with the mantissa 1 spells a target of 241 bits, and it is refused as an
overflow. -/
theorem high_exponent_refused :
    TargetsExact targetCrate id ∧ CompactBits highBits 33 1 ∧
      0 < expandedTarget 33 1 ∧ expandedTarget 33 1 < 2 ^ 256 ∧
      compactTarget targetCrate highBits = invalidAuxPow "difficulty target overflows 256 bits" ∧
      ¬ DecodesExactly targetCrate id highBits := by
  have hrefused : compactTarget targetCrate highBits =
      invalidAuxPow "difficulty target overflows 256 bits" := by
    rw [compactTarget_eq highBits_compact.digits highBits_compact.hex, highBits_compact.number]
    rfl
  refine ⟨targetCrate_exact, highBits_compact, by decide, by decide, hrefused, ?_⟩
  rintro ⟨⟨-, hsucceeds⟩, -⟩
  obtain ⟨target, htarget⟩ := hsucceeds ⟨33, 1, highBits_compact, by decide, by decide⟩
  rw [hrefused] at htarget
  cases htarget

def bitcoinBits : Text := ['1', 'd', '0', '0', 'f', 'f', 'f', 'f']

/-- Bits of an exponent below 33 are decoded exactly. -/
theorem compact_target_exact_iff_bitcoin : DecodesExactly targetCrate id bitcoinBits := by
  have hbits : CompactBits bitcoinBits 29 65535 := ⟨by decide, by decide, by decide, by decide⟩
  refine (compact_target_exact_iff targetCrate_exact bitcoinBits).mpr ?_
  intro exponent mantissa h hhigh
  obtain ⟨rfl, rfl⟩ := hbits.unique h
  exact absurd hhigh.2 (by decide)

end Sample

end WcashExplorer
