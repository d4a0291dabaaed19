import LazyBinding.Json.Writer
import LazyBinding.Object

/-!
# Encoding

The JSON document of a value. Objects are exported on the way; a double that is not finite becomes
null; a handle has no document.
-/
namespace LazyBinding

mutual

/-- The document of a value with each object in it replaced by what `object` makes of it. -/
def Value.toJsonWith (object : BoundObject → Session → Session × Except ObjectError Json) :
    Value → Session → Session × Except ObjectError Json
  | .null, s => (s, .ok .null)
  | .bool b, s => (s, .ok (.bool b))
  | .int n, s => (s, .ok (.int n.toInt))
  | .float x, s => (s, .ok (if x.isFinite then .float x else .null))
  | .str text, s => (s, .ok (.str text))
  | .array items, s =>
    match Value.itemsToJson object items s with
    | (s, .ok items) => (s, .ok (.arr items))
    | (s, .error e) => (s, .error e)
  | .map entries, s =>
    match Value.entriesToJson object entries s with
    | (s, .ok members) => (s, .ok (.obj members))
    | (s, .error e) => (s, .error e)
  | .object schema cls table data, s => object ⟨schema, cls, table, data⟩ s
  | .handle _, s => (s, .error (.decode .handle))

def Value.itemsToJson (object : BoundObject → Session → Session × Except ObjectError Json) :
    List Value → Session → Session × Except ObjectError (List Json)
  | [], s => (s, .ok [])
  | v :: rest, s =>
    match Value.toJsonWith object v s with
    | (s, .error e) => (s, .error e)
    | (s, .ok v) =>
      match Value.itemsToJson object rest s with
      | (s, .ok items) => (s, .ok (v :: items))
      | (s, .error e) => (s, .error e)

def Value.entriesToJson (object : BoundObject → Session → Session × Except ObjectError Json) :
    List (String × Value) → Session → Session × Except ObjectError (List (String × Json))
  | [], s => (s, .ok [])
  | (key, v) :: rest, s =>
    match Value.toJsonWith object v s with
    | (s, .error e) => (s, .error e)
    | (s, .ok v) =>
      match Value.entriesToJson object rest s with
      | (s, .ok members) => (s, .ok ((key, v) :: members))
      | (s, .error e) => (s, .error e)

end

def Value.plainToJson (v : Value) (s : Session) : Session × Except ObjectError Json :=
  v.toJsonWith (fun o s => (s, .error (.endless o.cls))) s

def BoundObject.toJson (o : BoundObject) (s : Session) : Session × Except ObjectError Json :=
  match o.exported s with
  | (s, .error e) => (s, .error e)
  | (s, .ok v) => v.plainToJson s

def Value.toJson (v : Value) (s : Session) : Session × Except ObjectError Json :=
  v.toJsonWith BoundObject.toJson s

def BoundObject.toJsonText (o : BoundObject) (indented : Bool) (s : Session) :
    Session × Except ObjectError String :=
  match o.toJson s with
  | (s, .error e) => (s, .error e)
  | (s, .ok document) => (s, .ok (document.encode indented))

end LazyBinding
