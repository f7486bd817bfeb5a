import WcashExplorer.Basic

/-! JSON values as the node reports them and as `JSONB` columns store them. -/
namespace WcashExplorer

/-- A JSON number; a floating-point one is kept as its shortest decimal text. -/
inductive JsonNumber
  | posInt (n : Nat)
  | negInt (n : Int)
  | float (text : Text)
  deriving DecidableEq, Repr

namespace JsonNumber

def text : JsonNumber → Text
  | posInt n => (toString n).toList
  | negInt n => (toString n).toList
  | float t => t

/-- `Number::as_u64`. -/
def asU64 : JsonNumber → Option Nat
  | posInt n => some n
  | _ => none

end JsonNumber

inductive Json
  | null
  | bool (b : Bool)
  | number (n : JsonNumber)
  | string (s : Text)
  | array (items : List Json)
  | object (members : List (Text × Json))

namespace Json

def hexDigits4 (n : Nat) : Text :=
  [hexDigit (n / 4096 % 16), hexDigit (n / 256 % 16), hexDigit (n / 16 % 16), hexDigit (n % 16)]

def escapeChar (c : Char) : Text :=
  if c = '"' then ['\\', '"']
  else if c = '\\' then ['\\', '\\']
  else if c.toNat = 8 then ['\\', 'b']
  else if c.toNat = 9 then ['\\', 't']
  else if c.toNat = 10 then ['\\', 'n']
  else if c.toNat = 12 then ['\\', 'f']
  else if c.toNat = 13 then ['\\', 'r']
  else if c.toNat < 32 then '\\' :: 'u' :: hexDigits4 c.toNat
  else [c]

def quote (t : Text) : Text := '"' :: t.flatMap escapeChar ++ ['"']

def separated : List Text → Text
  | [] => []
  | [t] => t
  | t :: rest => t ++ ',' :: separated rest

mutual

/-- The compact serialization, `Value::to_string`. -/
def toText : Json → Text
  | null => ['n', 'u', 'l', 'l']
  | bool true => ['t', 'r', 'u', 'e']
  | bool false => ['f', 'a', 'l', 's', 'e']
  | number n => n.text
  | string s => quote s
  | array items => '[' :: separated (itemTexts items) ++ [']']
  | object members => '{' :: separated (memberTexts members) ++ ['}']

def itemTexts : List Json → List Text
  | [] => []
  | j :: rest => j.toText :: itemTexts rest

def memberTexts : List (Text × Json) → List Text
  | [] => []
  | (k, v) :: rest => (quote k ++ ':' :: v.toText) :: memberTexts rest

end

mutual

/-- PostgreSQL rejects a `JSONB` value with a zero character in a name or a string. -/
def storable : Json → Bool
  | string s => s.storable
  | array items => itemsStorable items
  | object members => membersStorable members
  | _ => true

def itemsStorable : List Json → Bool
  | [] => true
  | j :: rest => j.storable && itemsStorable rest

def membersStorable : List (Text × Json) → Bool
  | [] => true
  | (k, v) :: rest => k.storable && v.storable && membersStorable rest

end

/-- `Map::get`. -/
def get? (members : List (Text × Json)) (key : Text) : Option Json :=
  (members.find? fun m => m.1 = key).map Prod.snd

/-- The order of a `serde_json` map: member names compared by their bytes. -/
def keyLt : Text → Text → Bool
  | [], [] => false
  | [], _ :: _ => true
  | _ :: _, [] => false
  | a :: as, b :: bs => a.toNat < b.toNat || (a = b && keyLt as bs)

/-- `Map::insert`: a member of the same name is replaced. -/
def insert (key : Text) (value : Json) : List (Text × Json) → List (Text × Json)
  | [] => [(key, value)]
  | (k, v) :: rest =>
    if k = key then (key, value) :: rest
    else if keyLt key k then (key, value) :: (k, v) :: rest
    else (k, v) :: insert key value rest

/-- An object from members in serialization order; later ones replace earlier ones. -/
def ofMembers (members : List (Text × Json)) : Json :=
  object (members.foldl (fun acc m => insert m.1 m.2 acc) [])

def ofOption {α : Type} (f : α → Json) : Option α → Json
  | some a => f a
  | none => null

def nat (n : Nat) : Json := number (.posInt n)

def int (n : Int) : Json := if 0 ≤ n then number (.posInt n.toNat) else number (.negInt n)

end Json

/-- `scalar_text`. -/
def scalarText : Json → Text
  | .string value => value
  | .number value => value.text
  | other => other.toText

end WcashExplorer
