import LazyBinding.Json.Reader
import LazyBinding.Object.Error

/-!
# Decoding

The value of a JSON document, and of a text that holds one.
-/
namespace LazyBinding.Value

mutual

/-- The value of a JSON document; a whole number beyond the signed 64-bit integers becomes a
double. -/
def ofJson : Json → Value
  | .null => .null
  | .bool b => .bool b
  | .int n =>
    if Int64.minValue.toInt ≤ n ∧ n ≤ Int64.maxValue.toInt then .int (Int64.ofInt n)
    else .float (Decimal.floatOfInt n)
  | .float x => .float x
  | .str s => .str s
  | .arr items => .array (ofJsonItems items)
  | .obj members => .map (ofJsonMembers members)

def ofJsonItems : List Json → List Value
  | [] => []
  | item :: rest => ofJson item :: ofJsonItems rest

def ofJsonMembers : List (String × Json) → List (String × Value)
  | [] => []
  | (key, v) :: rest => (key, ofJson v) :: ofJsonMembers rest

end

variable [Json.DoubleReader]

/-- Decodes the first JSON value of a text. -/
def decode (c : Json.Cursor) : Except ObjectError Value :=
  match Json.decodeFirst c with
  | .ok document => .ok (ofJson document)
  | .error f => .error (.decode (.json f))

def deserialize (c : Json.Cursor) : Except Json.Fault Value := (Json.decodeWhole c).map ofJson

end LazyBinding.Value
