import Mathlib.Algebra.Order.BigOperators.Group.List
import Mathlib.Algebra.Order.Ring.Int
import Mathlib.Data.List.Basic
import Mathlib.Data.String.Defs

/-! Machine ranges, text, hexadecimal and the failures of the explorer. -/
namespace WcashExplorer

/-- A Rust `String` or a PostgreSQL `TEXT` value, as its characters. -/
abbrev Text := List Char

abbrev Bytes := List UInt8

/-- An instant in microseconds since the Unix epoch, the resolution of `TIMESTAMPTZ`. -/
abbrev Timestamp := Int

def microsPerSecond : Int := 1000000

def u32Max : Nat := 2 ^ 32 - 1
def u64Max : Nat := 2 ^ 64 - 1
def i32Max : Nat := 2 ^ 31 - 1
def i64Max : Nat := 2 ^ 63 - 1

/-- `u64::saturating_add`. -/
def saturatingAdd (a b : Nat) : Nat := min (a + b) u64Max

theorem saturatingAdd_of_le {a b : Nat} (h : a + b ≤ u64Max) : saturatingAdd a b = a + b :=
  Nat.min_eq_left h

/-- A stored height has a successor. -/
theorem saturatingAdd_one {n : Nat} (h : n ≤ i64Max) : saturatingAdd n 1 = n + 1 := by
  refine saturatingAdd_of_le ?_
  simp only [i64Max, u64Max] at *
  omega

namespace Text

/-- The `len` of a Rust string: its bytes in UTF-8. -/
def len (t : Text) : Nat := (t.map fun c => c.utf8Size).sum

def str (t : Text) : String := String.ofList t

/-- PostgreSQL rejects a text value with a zero byte in it. -/
def storable (t : Text) : Bool := t.all fun c => c != Char.ofNat 0

end Text

def isDigit (c : Char) : Bool := '0' ≤ c && c ≤ '9'

/-- `u8::is_ascii_hexdigit`. -/
def isHexDigit (c : Char) : Bool :=
  isDigit c || ('a' ≤ c && c ≤ 'f') || ('A' ≤ c && c ≤ 'F')

def isLowerHexDigit (c : Char) : Bool := isDigit c || ('a' ≤ c && c ≤ 'f')

/-- `value.len() == 64 && value.bytes().all(|byte| byte.is_ascii_hexdigit())`. -/
def isHash (t : Text) : Bool := t.len == 64 && t.all isHexDigit

/-- The column constraint `~ '^[0-9a-f]{n}$'`. -/
def isLowerHex (n : Nat) (t : Text) : Bool := t.length == n && t.all isLowerHexDigit

def hexDigitValue (c : Char) : Option UInt8 :=
  if isDigit c then some (UInt8.ofNat (c.toNat - 48))
  else if 'a' ≤ c && c ≤ 'f' then some (UInt8.ofNat (c.toNat - 87))
  else if 'A' ≤ c && c ≤ 'F' then some (UInt8.ofNat (c.toNat - 55))
  else none

/-- A byte as Rust's `{:?}` prints it as a character. -/
def debugByte (n : Nat) : String :=
  if n = 9 then "'\\t'"
  else if n = 10 then "'\\n'"
  else if n = 13 then "'\\r'"
  else if n = 39 then "'\\''"
  else if n = 92 then "'\\\\'"
  else if n < 32 || (127 ≤ n && n < 161) || n = 173 then
    "'\\u\x7b" ++ String.ofList (Nat.toDigits 16 n) ++ "\x7d'"
  else "'" ++ String.ofList [Char.ofNat n] ++ "'"

/-- The first byte of a character in UTF-8. -/
def firstByte (c : Char) : Nat :=
  if c.toNat < 128 then c.toNat
  else if c.toNat < 2048 then 192 + c.toNat / 64
  else if c.toNat < 65536 then 224 + c.toNat / 4096
  else 240 + c.toNat / 262144

/-- Decodes pairs of digits, the first of them at byte `index`. -/
def hexDecodeFrom (index : Nat) : Text → Except String Bytes
  | [] => .ok []
  | [_] => .error "Odd number of digits"
  | a :: b :: rest =>
    match hexDigitValue a, hexDigitValue b with
    | some high, some low => do
        let bytes ← hexDecodeFrom (index + 2) rest
        .ok ((high * 16 + low) :: bytes)
    | none, _ => .error s!"Invalid character {debugByte (firstByte a)} at position {index}"
    | _, none => .error s!"Invalid character {debugByte (firstByte b)} at position {index + 1}"

/-- `hex::decode`. -/
def hexDecode (t : Text) : Except String Bytes :=
  if t.len % 2 = 0 then hexDecodeFrom 0 t else .error "Odd number of digits"

/-- `hex::decode_to_slice` into `n` bytes. -/
def hexDecodeExact (n : Nat) (t : Text) : Except String Bytes :=
  if t.len % 2 ≠ 0 then .error "Odd number of digits"
  else if t.len / 2 ≠ n then .error "Invalid string length"
  else hexDecodeFrom 0 t

def hexDigit (n : Nat) : Char := if n < 10 then Char.ofNat (48 + n) else Char.ofNat (87 + n)

/-- `hex::encode`. -/
def hexEncode (bytes : Bytes) : Text :=
  bytes.flatMap fun b => [hexDigit (b.toNat / 16), hexDigit (b.toNat % 16)]

theorem hexDigit_injective : ∀ m < 16, ∀ n < 16, hexDigit m = hexDigit n → m = n := by decide

theorem hexEncode_cons (b : UInt8) (bytes : Bytes) : hexEncode (b :: bytes) =
    hexDigit (b.toNat / 16) :: hexDigit (b.toNat % 16) :: hexEncode bytes := rfl

/-- Digits determine the bytes they encode. -/
theorem hexEncode_injective : Function.Injective hexEncode := by
  intro xs ys h
  induction xs generalizing ys with
  | nil => cases ys with
    | nil => rfl
    | cons y ys => cases h
  | cons x xs ih => cases ys with
    | nil => cases h
    | cons y ys =>
      rw [hexEncode_cons, hexEncode_cons, List.cons.injEq, List.cons.injEq] at h
      obtain ⟨hhigh, hlow, hrest⟩ := h
      have hx := x.toNat_lt
      have hy := y.toNat_lt
      have hhigh' := hexDigit_injective _ (by omega) _ (by omega) hhigh
      have hlow' := hexDigit_injective _ (by omega) _ (by omega) hlow
      have hsame : x = y := UInt8.toNat_inj.mp (by omega)
      rw [hsame, ih hrest]

/-- Failures surfaced by the explorer. -/
inductive ExplorerError
  | config (message : String)
  | database
  | rpcTransport
  | rpc (code : Int) (message : String)
  | invalidNodeResponse (message : String)
  | invalidAuxPow (message : String)
  | notFound
  | invalidRequest (message : String)
  | notReady (message : String)
  deriving DecidableEq, Repr

namespace ExplorerError

/-- The `Display` text of a failure. -/
def display : ExplorerError → String
  | config message => s!"configuration error: {message}"
  | database => "database error"
  | rpcTransport => "node RPC transport error"
  | rpc code message => s!"node RPC {code}: {message}"
  | invalidNodeResponse message => s!"invalid node response: {message}"
  | invalidAuxPow message => s!"invalid AuxPoW proof: {message}"
  | notFound => "resource not found"
  | invalidRequest message => s!"invalid request: {message}"
  | notReady message => s!"service is not ready: {message}"

end ExplorerError

/-- The explorer's result alias. -/
abbrev Result (α : Type) : Type := Except ExplorerError α

/-- Fails with `e` unless the condition holds. -/
def ensure (c : Bool) (e : ExplorerError) : Result Unit := if c then .ok () else .error e

@[simp] theorem ensure_eq_ok {c : Bool} {e : ExplorerError} {u : Unit} :
    ensure c e = .ok u ↔ c = true := by
  cases c <;> simp [ensure]

/-- A sequenced computation succeeds by succeeding in both parts. -/
theorem Result.bind_eq_ok {α β : Type} {x : Result α} {f : α → Result β} {b : β} :
    (x >>= f) = .ok b ↔ ∃ a, x = .ok a ∧ f a = .ok b := by
  cases x <;> simp [bind, Except.bind]

end WcashExplorer
