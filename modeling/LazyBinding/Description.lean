import LazyBinding.Json.Tree
import LazyBinding.Schema

/-!
# Descriptions of classes

A compiled class is described by a JSON Schema document, which defines every class that can be
reached through object-typed fields once, or by a table of its fields. Describing a class compiles
what is not compiled yet.
-/
namespace LazyBinding

def ClassPath.definitionRef (cls : ClassPath) : String := "#/$defs/" ++ cls.text

def Primitive.schemaWord : Primitive → String
  | .bool => "boolean"
  | .int => "integer"
  | .float => "number"
  | .string => "string"

namespace Description

def nullable (inner : Json) : Json :=
  .obj [("oneOf", .arr [inner, .obj [("type", .str "null")]])]

def baseSchema : BaseType → Json
  | .any => .obj []
  | .primitive kind => nullable (.obj [("type", .str kind.schemaWord)])
  | .object cls => nullable (.obj [("$ref", .str cls.definitionRef)])

/-- What a base type allows under a number of array levels. Null is allowed at every level. -/
def levelSchema (base : BaseType) : (depth : Nat) → Json
  | 0 => baseSchema base
  | depth + 1 => nullable (.obj [("type", .str "array"), ("items", levelSchema base depth)])

def fieldSchema (type : FieldType) : Json := levelSchema type.base type.depth

/-- The definition of a class with a table. The parent is named as it is declared. -/
def classSchema (r : Registry) (cls : ClassPath) (table : FieldTable) : Json :=
  let properties := table.map fun (name, type) => (name, fieldSchema type)
  let description :=
    match (r.get? cls).bind ClassDecl.parent with
    | some parent => [("description", Json.str ("extends " ++ parent))]
    | none => []
  .obj ([("type", .str "object"), ("properties", .obj properties)] ++ description)

def references (table : FieldTable) : List ClassPath :=
  (Dict.values table).filterMap FieldType.class?

/-- The definitions of the classes in a queue and of those they lead to, breadth first. Each class
that is defined uses up one unit of the budget, so the number of registered classes suffices. -/
def definitions (budget : Nat) (queue : List ClassPath) (seen : OrderedSet ClassPath) (s : Schema) :
    Schema × Except SchemaError (List (String × Json)) :=
  match budget, queue with
  | _, [] => (s, .ok [])
  | 0, _ :: _ => (s, .ok [])
  | budget + 1, cls :: rest =>
    if cls ∈ seen then definitions (budget + 1) rest seen s
    else
      match s.table cls with
      | (s, .error e) => (s, .error e)
      | (s, .ok table) =>
        let seen := OrderedSet.add seen cls
        let next := (references table).filter fun target => target ∉ seen
        match definitions budget (rest ++ next) seen s with
        | (s, .error e) => (s, .error e)
        | (s, .ok others) => (s, .ok ((cls.text, classSchema s.registry cls table) :: others))
  termination_by (budget, queue.length)

end Description

namespace Schema

/-- The JSON Schema document of a class. -/
def jsonSchema (s : Schema) (cls : ClassPath) : Schema × Except SchemaError Json :=
  match Description.definitions (s.registry.classes.length + 1) [cls] [] s with
  | (s, .error e) => (s, .error e)
  | (s, .ok definitions) =>
    (s, .ok (.obj [
      ("title", .str cls.text),
      ("$ref", .str cls.definitionRef),
      ("$defs", .obj definitions)]))

def padded (width : Nat) (text : String) : String :=
  text ++ String.ofList (List.replicate (width - text.length) ' ')

def textTable (s : Schema) (cls : ClassPath) : Schema × Except SchemaError String :=
  match s.table cls with
  | (s, .error e) => (s, .error e)
  | (s, .ok table) =>
    let width := ((Dict.keys table).map String.length).foldl max 0
    let line := fun (entry : String × FieldType) =>
      "  " ++ padded width entry.1 ++ "  " ++ entry.2.text ++ "\n"
    (s, .ok (cls.text ++ "\n" ++ String.join (table.map line)))

end Schema

end LazyBinding
