import LazyBinding.FieldType
import LazyBinding.Registry

/-!
# Type definitions

The definition of a field's type is a word followed by a pair of brackets for each array level:
nothing, `any` or `mixed` for an untyped field, the keyword of a primitive, or a reference to a
class.
-/
namespace LazyBinding.FieldType

def peelBrackets : List Char → (depth : Nat) → List Char × Nat
  | ']' :: '[' :: rest, depth => peelBrackets rest (depth + 1)
  | rest, depth => (rest, depth)

def parseBase (r : Registry) (source : ClassPath) (word : String) :
    Except DefinitionFault BaseType :=
  match String.ofList (word.toList.map Char.toLower) with
  | "" | "any" | "mixed" => .ok .any
  | _ =>
    match Primitive.ofWord? word with
    | some kind => .ok (.primitive kind)
    | none =>
      if ClassPath.isWellFormedText (word.toList.dropWhile (· == '\\')) then
        match r.resolve word source with
        | some cls => .ok (.object cls)
        | none => .error (.unknownClass word)
      else .error .notAType

/-- Reads a definition written inside the class `source`; blanks around it do not count. -/
def parse (r : Registry) (source : ClassPath) (definition : String) :
    Except DefinitionError FieldType :=
  let (reversed, depth) := peelBrackets (Text.trim definition.toList).reverse 0
  if reversed.any (fun c => c == '[' || c == ']') then .error ⟨definition, .malformedBrackets⟩
  else
    match parseBase r source (String.ofList reversed.reverse) with
    | .ok base => .ok ⟨base, depth⟩
    | .error fault => .error ⟨definition, fault⟩

end LazyBinding.FieldType
