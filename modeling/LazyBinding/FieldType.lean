import LazyBinding.ClassPath
import LazyBinding.Dict

/-!
# Field types

The type of a field is a base under a number of array levels.
-/
namespace LazyBinding

inductive Primitive where
  | bool
  | int
  | float
  | string
  deriving DecidableEq, Repr

namespace Primitive

def keyword : Primitive → String
  | bool => "bool"
  | int => "int"
  | float => "float"
  | string => "string"

/-- A primitive's keyword or its second name, in letters of either case. -/
def ofWord? (word : String) : Option Primitive :=
  match String.ofList (word.toList.map Char.toLower) with
  | "bool" | "boolean" => some bool
  | "int" | "integer" => some int
  | "float" | "double" => some float
  | "string" => some string
  | _ => none

theorem ofWord?_keyword (k : Primitive) : ofWord? k.keyword = some k := by
  cases k <;> rfl

end Primitive

/-- What stands below the array levels. -/
inductive BaseType where
  | any
  | primitive (kind : Primitive)
  | object (cls : ClassPath)
  deriving DecidableEq, Repr

structure FieldType where
  base : BaseType
  /-- How many array levels there are; below `2^32` in types with definitions of a length that
  occurs (`peelBrackets_lt_size`). -/
  depth : Nat
  deriving DecidableEq, Repr

namespace FieldType

def untyped : FieldType := ⟨.any, 0⟩

def class? (t : FieldType) : Option ClassPath :=
  match t.base with
  | .object cls => some cls
  | _ => none

def isObject (t : FieldType) : Bool := t.class?.isSome

def isUntyped (t : FieldType) : Bool := t.base == .any

/-- The definition that reads back as the type from inside any class. -/
def text (t : FieldType) : String :=
  let word :=
    match t.base with
    | .any => "any"
    | .primitive kind => kind.keyword
    | .object cls => "\\" ++ cls.text
  word ++ String.ofList (List.replicate t.depth ['[', ']']).flatten

end FieldType

abbrev FieldTable := Dict String FieldType

end LazyBinding
