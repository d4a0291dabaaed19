import LazyBinding.Json.Number
import LazyBinding.Json.Fault
import LazyBinding.SchemaError

/-!
# Faults in manifests

What is wrong with the text of a manifest: it is no JSON, or the JSON has not the shape of a
manifest. A fault belongs to the class in whose entry it was found.
-/
namespace LazyBinding.Manifest

inductive Shape where
  | text
  | sequence
  | map
  | manifest
  | classEntry
  deriving DecidableEq, Repr

def Shape.name : Shape → String
  | text => "a string"
  | sequence => "a sequence"
  | map => "a map"
  | manifest => "struct Manifest"
  | classEntry => "struct ClassEntry"

def foundText : Json → String
  | .null => "null"
  | .bool b => "boolean `" ++ (if b then "true" else "false") ++ "`"
  | .int n => "integer `" ++ toString n ++ "`"
  | .float x => "floating point `" ++ Json.numberLayout.write x ++ "`"
  | .str s => "string " ++ Text.quoted s
  | .arr _ => "sequence"
  | .obj _ => "map"

inductive Problem where
  | json (p : Json.Problem)
  | missingField (name : String)
  | duplicateField (name : String)
  | unknownField (name : String) (known : List String)
  | wrongType (found : Json) (expected : Shape)
  /-- An array for the whole manifest has no item. -/
  | noClasses
  /-- A field entry is neither a name with a type nor an import. -/
  | noFieldEntry

def ticked (name : String) : String := "`" ++ name ++ "`"

def Problem.message : Problem → String
  | json p => p.message
  | missingField name => "missing field " ++ ticked name
  | duplicateField name => "duplicate field " ++ ticked name
  | unknownField name known =>
    "unknown field " ++ ticked name ++ ", expected " ++ " or ".intercalate (known.map ticked)
  | wrongType found expected =>
    "invalid type: " ++ foundText found ++ ", expected " ++ expected.name
  | noClasses => "invalid length 0, expected struct Manifest with 1 element"
  | noFieldEntry => "data did not match any variant of untagged enum FieldEntry"

structure Fault where
  path : Json.Path
  problem : Problem
  position : Json.Position

namespace Fault

def ofJson (f : Json.Fault) : Fault := ⟨f.path, .json f.problem, f.position⟩

def within (segment : Json.Segment) (f : Fault) : Fault := { f with path := segment :: f.path }

/-- The class in whose entry the fault is; the entries stand two steps down. -/
def cls (f : Fault) : ClassPath :=
  match f.path with
  | _ :: .key name :: _ => ⟨name⟩
  | _ => ⟨"<manifest>"⟩

def toError (f : Fault) : SchemaError :=
  .badSchema f.cls
    (.manifest f.path.text (f.problem.message ++ " at " ++ f.position.text))

end Fault

end LazyBinding.Manifest
