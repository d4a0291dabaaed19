import LazyBinding.Json.Writer
import LazyBinding.Object

/-!
# Serialization

The compact JSON text of a value, written in one pass without a document in between. Objects are
exported on the way and a handle has no text.
-/
namespace LazyBinding

inductive SerializationFault where
  | handle
  | object (e : ObjectError)
  deriving DecidableEq, Repr

def SerializationFault.message : SerializationFault → String
  | handle => "opaque handles have no serialized representation"
  | object e => e.message

mutual

/-- The text of a value with each object in it replaced by what `object` makes of it. -/
def Value.serializeWith
    (object : BoundObject → Session → Session × Except SerializationFault (List Char)) :
    Value → Session → Session × Except SerializationFault (List Char)
  | .null, s => (s, .ok "null".toList)
  | .bool b, s => (s, .ok (if b then "true".toList else "false".toList))
  | .int n, s => (s, .ok (toString n.toInt).toList)
  | .float x, s => (s, .ok (Json.numberLayout.write x).toList)
  | .str text, s => (s, .ok (Json.writeString text))
  | .array items, s =>
    match Value.serializeItems object items s with
    | (s, .ok pieces) => (s, .ok ('[' :: Json.commaSeparated pieces ++ [']']))
    | (s, .error e) => (s, .error e)
  | .map entries, s =>
    match Value.serializeEntries object entries s with
    | (s, .ok pieces) => (s, .ok ('\x7b' :: Json.commaSeparated pieces ++ ['\x7d']))
    | (s, .error e) => (s, .error e)
  | .object schema cls table data, s => object ⟨schema, cls, table, data⟩ s
  | .handle _, s => (s, .error .handle)

def Value.serializeItems
    (object : BoundObject → Session → Session × Except SerializationFault (List Char)) :
    List Value → Session → Session × Except SerializationFault (List (List Char))
  | [], s => (s, .ok [])
  | v :: rest, s =>
    match Value.serializeWith object v s with
    | (s, .error e) => (s, .error e)
    | (s, .ok piece) =>
      match Value.serializeItems object rest s with
      | (s, .ok pieces) => (s, .ok (piece :: pieces))
      | (s, .error e) => (s, .error e)

def Value.serializeEntries
    (object : BoundObject → Session → Session × Except SerializationFault (List Char)) :
    List (String × Value) → Session → Session × Except SerializationFault (List (List Char))
  | [], s => (s, .ok [])
  | (key, v) :: rest, s =>
    match Value.serializeWith object v s with
    | (s, .error e) => (s, .error e)
    | (s, .ok piece) =>
      match Value.serializeEntries object rest s with
      | (s, .ok pieces) => (s, .ok ((Json.writeString key ++ ':' :: piece) :: pieces))
      | (s, .error e) => (s, .error e)

end

def BoundObject.serializedExport (o : BoundObject) (s : Session) :
    Session × Except SerializationFault (List Char) :=
  match o.exported s with
  | (s, .error e) => (s, .error (.object e))
  | (s, .ok v) => v.serializeWith (fun o s => (s, .error (.object (.endless o.cls)))) s

def Value.serialize (v : Value) (s : Session) : Session × Except SerializationFault String :=
  match v.serializeWith BoundObject.serializedExport s with
  | (s, .ok text) => (s, .ok (String.ofList text))
  | (s, .error e) => (s, .error e)

end LazyBinding
