import Mathlib.Data.List.Basic

/-! The unpadded URL-safe Base64 alphabet, with a decoder that accepts canonical text only. -/
namespace Codec

def alphabet : List Char :=
  "ABCDEFGHIJKLMNOPQRSTUVWXYZabcdefghijklmnopqrstuvwxyz0123456789-_".toList

/-- The character of a six-bit value. -/
def symbol (n : Nat) : Char := alphabet.getD n 'A'

/-- The six-bit value of a character. -/
def symbolValue (c : Char) : Option Nat := alphabet.findIdx? fun d => d = c

/-- `URL_SAFE_NO_PAD.encode`: three bytes to four characters, a shorter rest to as few as hold
it. -/
def encode : List UInt8 → List Char
  | a :: b :: c :: rest =>
    symbol (a.toNat / 4) :: symbol (a.toNat % 4 * 16 + b.toNat / 16) ::
      symbol (b.toNat % 16 * 4 + c.toNat / 64) :: symbol (c.toNat % 64) :: encode rest
  | [a, b] =>
    [symbol (a.toNat / 4), symbol (a.toNat % 4 * 16 + b.toNat / 16), symbol (b.toNat % 16 * 4)]
  | [a] => [symbol (a.toNat / 4), symbol (a.toNat % 4 * 16)]
  | [] => []

/-- `URL_SAFE_NO_PAD.decode`: no padding, no other character, and no bit beyond the last byte. -/
def decode : List Char → Option (List UInt8)
  | p :: q :: r :: s :: rest => do
    let p ← symbolValue p
    let q ← symbolValue q
    let r ← symbolValue r
    let s ← symbolValue s
    let bytes ← decode rest
    some (UInt8.ofNat (p * 4 + q / 16) :: UInt8.ofNat (q % 16 * 16 + r / 4) ::
      UInt8.ofNat (r % 4 * 64 + s) :: bytes)
  | [p, q, r] => do
    let p ← symbolValue p
    let q ← symbolValue q
    let r ← symbolValue r
    if r % 4 = 0 then
      some [UInt8.ofNat (p * 4 + q / 16), UInt8.ofNat (q % 16 * 16 + r / 4)]
    else none
  | [p, q] => do
    let p ← symbolValue p
    let q ← symbolValue q
    if q % 16 = 0 then some [UInt8.ofNat (p * 4 + q / 16)] else none
  | [_] => none
  | [] => some []

theorem symbolValue_symbol {n : Nat} (h : n < 64) : symbolValue (symbol n) = some n := by
  have hall : ∀ m : Fin 64, symbolValue (symbol m) = some m.val := by decide +kernel
  exact hall ⟨n, h⟩

/-- Put together again, the two parts of a byte are the byte. -/
theorem ofNat_eq {a : UInt8} {n : Nat} (h : n = a.toNat) : UInt8.ofNat n = a := by
  subst h
  exact UInt8.ofNat_toNat

/-- Decoding gives back the bytes that were encoded. -/
theorem decode_encode (bytes : List UInt8) : decode (encode bytes) = some bytes := by
  induction bytes using encode.induct with
  | case1 a b c rest ih =>
    have ha := a.toNat_lt
    have hb := b.toNat_lt
    have hc := c.toNat_lt
    simp only [encode, decode]
    rw [symbolValue_symbol (by omega), symbolValue_symbol (by omega),
      symbolValue_symbol (by omega), symbolValue_symbol (by omega), ih]
    simp only [Option.bind_eq_bind, Option.bind_some]
    rw [ofNat_eq (a := a) (by omega), ofNat_eq (a := b) (by omega), ofNat_eq (a := c) (by omega)]
  | case2 a b =>
    have ha := a.toNat_lt
    have hb := b.toNat_lt
    simp only [encode, decode]
    rw [symbolValue_symbol (by omega), symbolValue_symbol (by omega),
      symbolValue_symbol (by omega)]
    simp only [Option.bind_eq_bind, Option.bind_some]
    rw [if_pos (by omega), ofNat_eq (a := a) (by omega), ofNat_eq (a := b) (by omega)]
  | case3 a =>
    have ha := a.toNat_lt
    simp only [encode, decode]
    rw [symbolValue_symbol (by omega), symbolValue_symbol (by omega)]
    simp only [Option.bind_eq_bind, Option.bind_some]
    rw [if_pos (by omega), ofNat_eq (a := a) (by omega)]
  | case4 => rfl

/-- A character stands for one value only, and that value is below 64. -/
theorem symbolValue_eq_some {c : Char} {n : Nat} (h : symbolValue c = some n) :
    n < 64 ∧ symbol n = c := by
  obtain ⟨hn, hc, -⟩ := List.findIdx?_eq_some_iff_getElem.mp h
  refine ⟨hn, ?_⟩
  rw [symbol, List.getD_eq_getElem?_getD, List.getElem?_eq_getElem hn, Option.getD_some]
  exact of_decide_eq_true hc

/-- A six-bit part of a number spells the character it was read from. -/
theorem symbol_of_value {c : Char} {m n : Nat} (h : symbolValue c = some n) (hm : m = n) :
    symbol m = c := by
  subst hm
  exact (symbolValue_eq_some h).2

theorem toNat_ofNat_byte {n : Nat} (h : n < 256) : (UInt8.ofNat n).toNat = n :=
  UInt8.toNat_ofNat_of_lt' h

/-- Only the canonical spelling of some bytes decodes to them. -/
theorem encode_of_decode {text : List Char} {bytes : List UInt8} (h : decode text = some bytes) :
    encode bytes = text := by
  induction text using decode.induct generalizing bytes with
  | case1 p q r s rest ih =>
    simp only [decode, Option.bind_eq_bind, Option.bind_eq_some_iff, Option.some.injEq] at h
    obtain ⟨p', hp, q', hq, r', hr, s', hs, tail, htail, rfl⟩ := h
    have hp' := (symbolValue_eq_some hp).1
    have hq' := (symbolValue_eq_some hq).1
    have hr' := (symbolValue_eq_some hr).1
    have hs' := (symbolValue_eq_some hs).1
    have ha : (UInt8.ofNat (p' * 4 + q' / 16)).toNat = p' * 4 + q' / 16 :=
      toNat_ofNat_byte (by omega)
    have hb : (UInt8.ofNat (q' % 16 * 16 + r' / 4)).toNat = q' % 16 * 16 + r' / 4 :=
      toNat_ofNat_byte (by omega)
    have hc : (UInt8.ofNat (r' % 4 * 64 + s')).toNat = r' % 4 * 64 + s' :=
      toNat_ofNat_byte (by omega)
    rw [encode, ih htail, ha, hb, hc, symbol_of_value hp (by omega), symbol_of_value hq (by omega),
      symbol_of_value hr (by omega), symbol_of_value hs (by omega)]
  | case2 p q r =>
    simp only [decode, Option.bind_eq_bind, Option.bind_eq_some_iff, Option.ite_none_right_eq_some,
      Option.some.injEq] at h
    obtain ⟨p', hp, q', hq, r', hr, hzero, rfl⟩ := h
    have hp' := (symbolValue_eq_some hp).1
    have hq' := (symbolValue_eq_some hq).1
    have hr' := (symbolValue_eq_some hr).1
    have ha : (UInt8.ofNat (p' * 4 + q' / 16)).toNat = p' * 4 + q' / 16 :=
      toNat_ofNat_byte (by omega)
    have hb : (UInt8.ofNat (q' % 16 * 16 + r' / 4)).toNat = q' % 16 * 16 + r' / 4 :=
      toNat_ofNat_byte (by omega)
    rw [encode, ha, hb, symbol_of_value hp (by omega), symbol_of_value hq (by omega),
      symbol_of_value hr (by omega)]
  | case3 p q =>
    simp only [decode, Option.bind_eq_bind, Option.bind_eq_some_iff, Option.ite_none_right_eq_some,
      Option.some.injEq] at h
    obtain ⟨p', hp, q', hq, hzero, rfl⟩ := h
    have hp' := (symbolValue_eq_some hp).1
    have hq' := (symbolValue_eq_some hq).1
    have ha : (UInt8.ofNat (p' * 4 + q' / 16)).toNat = p' * 4 + q' / 16 :=
      toNat_ofNat_byte (by omega)
    rw [encode, ha, symbol_of_value hp (by omega), symbol_of_value hq (by omega)]
  | case4 c => cases h
  | case5 =>
    obtain rfl := Option.some.inj h
    rfl

/-- The decoder accepts exactly the encodings. -/
theorem decode_eq_some {text : List Char} {bytes : List UInt8} :
    decode text = some bytes ↔ text = encode bytes := by
  constructor
  · intro h
    exact (encode_of_decode h).symm
  · rintro rfl
    exact decode_encode bytes

end Codec
