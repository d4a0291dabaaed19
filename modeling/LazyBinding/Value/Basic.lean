import LazyBinding.FieldType

/-!
# Values

A slot of an object holds decoded data that no class has claimed yet (scalars, arrays and maps) or
a nested object that is bound to a class. Both may stand in one tree. A handle is an outside
resource without a written form.
-/
namespace LazyBinding

abbrev SchemaId := Nat

inductive Kind where
  | null
  | bool
  | int
  | float
  | string
  | array
  | map
  | object
  | handle
  deriving DecidableEq, Repr

def Kind.name : Kind → String
  | null => "null"
  | bool => "bool"
  | int => "int"
  | float => "float"
  | string => "string"
  | array => "array"
  | map => "map"
  | object => "object"
  | handle => "opaque handle"

/-- A tree of data. The entries of a map and the data of an object are dictionaries. -/
inductive Value where
  | null
  | bool (b : Bool)
  | int (n : Int64)
  | float (x : Float)
  | str (s : String)
  | array (items : List Value)
  | map (entries : List (String × Value))
  | object (schema : SchemaId) (cls : ClassPath) (table : FieldTable)
      (data : List (String × Value))
  | handle (id : Nat)
  deriving Inhabited

structure BoundObject where
  schema : SchemaId
  cls : ClassPath
  table : FieldTable
  data : Dict String Value
  deriving Inhabited

namespace Value

def ofObject (o : BoundObject) : Value := .object o.schema o.cls o.table o.data

def kind : Value → Kind
  | .null => .null
  | .bool _ => .bool
  | .int _ => .int
  | .float _ => .float
  | .str _ => .string
  | .array _ => .array
  | .map _ => .map
  | .object .. => .object
  | .handle _ => .handle

def isNull (v : Value) : Bool := v.kind == .null

def isScalar (v : Value) : Bool :=
  match v.kind with
  | .bool | .int | .float | .string => true
  | _ => false

/-- Arrays and maps; a map may still turn out to be a list. -/
def isSequence (v : Value) : Bool :=
  match v.kind with
  | .array | .map => true
  | _ => false

/-- Null, `false`, zero, the texts `""` and `"0"` and empty sequences are not true. -/
def isTruthy : Value → Bool
  | .null => false
  | .bool b => b
  | .int n => n != 0
  | .float x => x != 0
  | .str s => !(s == "" || s == "0")
  | .array items => !items.isEmpty
  | .map entries => !entries.isEmpty
  | .object .. => true
  | .handle _ => true

def asObject? : Value → Option BoundObject
  | .object schema cls table data => some ⟨schema, cls, table, data⟩
  | _ => none

/-- The first position whose key is not the position itself, with that key. A map without one is a
list. -/
def firstOffKey (position : Nat) : List (String × Value) → Option (Nat × String)
  | [] => none
  | (key, _) :: rest =>
    if key = toString position then firstOffKey (position + 1) rest else some (position, key)

mutual

/-- Equality of values: maps and the data of objects compare without order, doubles as numbers,
objects by class and data, handles by identity. -/
def same : Value → Value → Bool
  | .null, .null => true
  | .bool a, .bool b => a == b
  | .int a, .int b => a == b
  | .float a, .float b => a == b
  | .str a, .str b => a == b
  | .array xs, .array ys => sameItems xs ys
  | .map m, .map n => m.length == n.length && sameEntries m n
  | .object _ c _ m, .object _ d _ n => c == d && m.length == n.length && sameEntries m n
  | .handle a, .handle b => a == b
  | _, _ => false

def sameItems : List Value → List Value → Bool
  | [], [] => true
  | x :: xs, y :: ys => same x y && sameItems xs ys
  | _, _ => false

def sameEntries : List (String × Value) → List (String × Value) → Bool
  | [], _ => true
  | (key, v) :: rest, other =>
    (match Dict.get? other key with
      | some w => same v w
      | none => false) && sameEntries rest other

end

end Value

namespace BoundObject

def slot? (o : BoundObject) (field : String) : Option Value := Dict.get? o.data field

def hasDeclared (o : BoundObject) (field : String) : Bool := Dict.has o.table field

def hasData (o : BoundObject) (field : String) : Bool := Dict.has o.data field

def has (o : BoundObject) (field : String) : Bool := o.hasDeclared field || o.hasData field

def isTruthy (o : BoundObject) (field : String) : Bool :=
  match o.slot? field with
  | some v => v.isTruthy
  | none => false

def unset (o : BoundObject) (field : String) : BoundObject :=
  { o with data := Dict.remove o.data field }

def put (o : BoundObject) (field : String) (v : Value) : BoundObject :=
  { o with data := Dict.put o.data field v }

end BoundObject

end LazyBinding
