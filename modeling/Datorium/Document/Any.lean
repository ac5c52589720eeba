
import Datorium.Document.Canonical
/-!
# Values in memory

A number read from a document is kept as its text (`json.Number`), a number of an update list or of
a search definition is a `float64`; writing a value forgets the difference.
-/
namespace Datorium
open Framework
def parseDigits (digits : List Char) : Option Int :=
  if digits ≠ [] ∧ digits.all Char.isDigit then some (Nat.ofDigitChars 10 digits 0) else none

def atoi (text : List Char) : Option Int :=
  let value := match text with
    | '-' :: digits => (parseDigits digits).map Neg.neg
    | '+' :: digits => parseDigits digits
    | digits => parseDigits digits
  value.filter fun v => -9223372036854775808 ≤ v ∧ v ≤ 9223372036854775807

theorem parseDigits_toDigits (n : Nat) : parseDigits (Nat.toDigits 10 n) = some (n : Int) := by
  have hd : (Nat.toDigits 10 n).all Char.isDigit = true :=
    List.all_eq_true.mpr fun c hc => Nat.isDigit_of_mem_toDigits (by decide) (by decide) hc
  simp [parseDigits, Nat.toDigits_ne_nil, hd, Nat.ofDigitChars_ten_toDigits]

/-- The finite `float64` values, with what `strconv` and `encoding/json` do with them. -/
structure Floats where
  F : Type
  /-- `strconv.ParseFloat`, without a result for text that is out of range. -/
  parse : String → Option F
  /-- `strconv.FormatFloat(f, 'g', -1, 64)`. -/
  format : F → String
  /-- The text `json.Marshal` writes. -/
  marshal : F → String
  /-- `==` and `<`. -/
  eq : F → F → Bool
  lt : F → F → Bool
  zero : F
  /-- `float64(n)`. -/
  ofNat : Nat → F := fun n => (parse (toString n)).getD zero

structure Floats.Decimal (fl : Floats) : Prop where
  injective : Function.Injective fl.format
  /-- A sign or a digit comes first. -/
  leading : ∀ f, ∃ c cs, (fl.format f).toList = c :: cs ∧ (c = '-' ∨ c.isDigit = true)
  /-- `==` is reflexive on finite values. -/
  eq_self : ∀ f, fl.eq f f = true

/-- A value of Go's `any`. -/
inductive Any (F : Type) where
  | null
  | bool (b : Bool)
  | number (text : String)
  | float (f : F)
  | str (s : String)
  | arr (items : List (Any F))
  | obj (fields : List (String × Any F))

namespace Any
variable {F : Type}
mutual

/-- What `ToMapTry`, and a decoder with `UseNumber`, makes of a JSON value. -/
def ofJson : Json → Any F
  | .null => .null
  | .bool b => .bool b
  | .num text => .number text
  | .str s => .str s
  | .arr items => .arr (ofJsonList items)
  | .obj fields => .obj (ofJsonFields fields)

def ofJsonList : List Json → List (Any F)
  | [] => []
  | item :: items => ofJson item :: ofJsonList items

def ofJsonFields : List (String × Json) → List (String × Any F)
  | [] => []
  | field :: fields => ofJsonField field :: ofJsonFields fields

def ofJsonField : String × Json → String × Any F
  | (key, value) => (key, ofJson value)
end

theorem ofJsonList_eq (items : List Json) : ofJsonList (F := F) items = items.map ofJson := by
  induction items with
  | nil => simp [ofJsonList]
  | cons v vs ih => simp [ofJsonList, ih]
end Any
section
variable (fl : Floats)
mutual

/-- The value `json.Marshal` writes; the keys of a map are sorted afterwards. -/
def Any.written : Any fl.F → Json
  | .null => .null
  | .bool b => .bool b
  | .number text => .num text
  | .float f => .num (fl.marshal f)
  | .str s => .str s
  | .arr items => .arr (writtenList items)
  | .obj fields => .obj (writtenFields fields)

def writtenList : List (Any fl.F) → List Json
  | [] => []
  | item :: items => item.written :: writtenList items

def writtenFields : List (String × Any fl.F) → List (String × Json)
  | [] => []
  | field :: fields => writtenField field :: writtenFields fields

def writtenField : String × Any fl.F → String × Json
  | (key, value) => (key, value.written)
end

def Any.marshal (v : Any fl.F) : Json := sortKeys (v.written fl)

mutual

def Any.unmarshal : Json → Option (Any fl.F)
  | .null => some .null
  | .bool b => some (.bool b)
  | .num text => (fl.parse text).map .float
  | .str s => some (.str s)
  | .arr items => (unmarshalList items).map .arr
  | .obj fields => (unmarshalFields fields).map .obj

def unmarshalList : List Json → Option (List (Any fl.F))
  | [] => some []
  | item :: items =>
    match Any.unmarshal item, unmarshalList items with
    | some v, some vs => some (v :: vs)
    | _, _ => none

def unmarshalFields : List (String × Json) → Option (List (String × Any fl.F))
  | [] => some []
  | field :: fields =>
    match unmarshalField field, unmarshalFields fields with
    | some v, some vs => some (v :: vs)
    | _, _ => none

def unmarshalField : String × Json → Option (String × Any fl.F)
  | (key, value) => (Any.unmarshal value).map fun v => (key, v)
end
end

def hexLower (n : Nat) : Char := if n < 10 then Char.ofNat (48 + n) else Char.ofNat (87 + n)

def unicodeEscape (c : Char) : List Char :=
  let n := c.toNat
  ['\\', 'u', hexLower (n / 4096 % 16), hexLower (n / 256 % 16), hexLower (n / 16 % 16),
    hexLower (n % 16)]

/-- A character of a string as `json.Marshal` writes it, HTML characters escaped. -/
def escapeChar (c : Char) : List Char :=
  if c = '"' ∨ c = '\\' then ['\\', c]
  else if c = '\n' then ['\\', 'n']
  else if c = '\r' then ['\\', 'r']
  else if c = '\t' then ['\\', 't']
  else if c.toNat = 8 then ['\\', 'b']
  else if c.toNat = 12 then ['\\', 'f']
  else if c.toNat < 32 ∨ c = '<' ∨ c = '>' ∨ c = '&' ∨ c.toNat = 8232 ∨ c.toNat = 8233 then
    unicodeEscape c
  else [c]

def quoteText (s : String) : String :=
  "\"" ++ String.ofList (s.toList.flatMap escapeChar) ++ "\""

namespace Json
mutual

def encode : Json → String
  | null => "null"
  | bool b => if b then "true" else "false"
  | num t => t
  | str s => quoteText s
  | arr items => "[" ++ ",".intercalate (encodeItems items) ++ "]"
  | obj fields =>
    "\x7b" ++ ",".intercalate
      ((Fields.normal (encodeFields fields)).map fun f => quoteText f.1 ++ ":" ++ f.2) ++ "\x7d"

def encodeItems : List Json → List String
  | [] => []
  | v :: vs => encode v :: encodeItems vs

def encodeFields : List (String × Json) → List (String × String)
  | [] => []
  | f :: fs => (f.1, encodeField f) :: encodeFields fs

def encodeField : String × Json → String
  | (_, v) => encode v
end
end Json

def splitFieldPath (path : String) : List String :=
  let trimmed := if path.toList.head? = some '/' then path.toList.tail else path.toList
  if trimmed = [] then [] else (trimmed.splitOn '/').map String.ofList

namespace Sample
def numberText (f : Fin 3) : String := if f = 0 then "0" else if f = 1 then "-0" else "31"

def floats : Floats where
  F := Fin 3
  parse text := if text = "0" then some 0 else if text = "-0" then some 1
    else if text = "31" then some 2 else none
  format := numberText
  marshal := numberText
  eq a b := decide (a = b ∨ (a ≠ 2 ∧ b ≠ 2))
  lt a b := decide (a ≠ 2 ∧ b = 2)
  zero := 0
end Sample
end Datorium
