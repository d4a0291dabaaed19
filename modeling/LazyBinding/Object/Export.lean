import LazyBinding.Object.Analysis

/-!
# Export

An export is the data of an object with every field converted and every nested object turned back
into a map. The object itself stays as it is. One field that does not convert, at any depth, and
there is no export.
-/
namespace LazyBinding

mutual

/-- A value with each object in it replaced by what `object` makes of it. -/
def Value.exportWith (object : BoundObject → Session → Session × Except ObjectError Value) :
    Value → Session → Session × Except ObjectError Value
  | .object schema cls table data, s => object ⟨schema, cls, table, data⟩ s
  | .array items, s =>
    match Value.exportItems object items s with
    | (s, .ok items) => (s, .ok (.array items))
    | (s, .error e) => (s, .error e)
  | .map entries, s =>
    match Value.exportEntries object entries s with
    | (s, .ok entries) => (s, .ok (.map entries))
    | (s, .error e) => (s, .error e)
  | v, s => (s, .ok v)

def Value.exportItems (object : BoundObject → Session → Session × Except ObjectError Value) :
    List Value → Session → Session × Except ObjectError (List Value)
  | [], s => (s, .ok [])
  | v :: rest, s =>
    match Value.exportWith object v s with
    | (s, .error e) => (s, .error e)
    | (s, .ok v) =>
      match Value.exportItems object rest s with
      | (s, .ok items) => (s, .ok (v :: items))
      | (s, .error e) => (s, .error e)

def Value.exportEntries (object : BoundObject → Session → Session × Except ObjectError Value) :
    List (String × Value) → Session → Session × Except ObjectError (List (String × Value))
  | [], s => (s, .ok [])
  | (key, v) :: rest, s =>
    match Value.exportWith object v s with
    | (s, .error e) => (s, .error e)
    | (s, .ok v) =>
      match Value.exportEntries object rest s with
      | (s, .ok entries) => (s, .ok ((key, v) :: entries))
      | (s, .error e) => (s, .error e)

end

namespace BoundObject

/-- Exports converted fields in order. A failure is wrapped with the class and its field. -/
def exportFields (cls : ClassPath)
    (object : BoundObject → Session → Session × Except ObjectError Value) :
    List (String × Value) → Session → Session × Except ObjectError (List (String × Value))
  | [], s => (s, .ok [])
  | (name, v) :: rest, s =>
    match v.exportWith object s with
    | (s, .error e) => (s, .error (.exportFailure cls (.field name e)))
    | (s, .ok v) =>
      match exportFields cls object rest s with
      | (s, .ok entries) => (s, .ok ((name, v) :: entries))
      | (s, .error e) => (s, .error e)

def exportWith (build : Builder) :
    (depth : Nat) → BoundObject → Session → Session × Except ObjectError Value
  | 0, o, s => (s, .error (.endless o.cls))
  | depth + 1, o, s =>
    let found := o.analyseFlat build s
    if found.report.hasBad then
      (found.session, .error (.exportFailure o.cls (.badFields found.report)))
    else
      match exportFields o.cls (exportWith build depth) found.object.data found.session with
      | (s, .ok entries) => (s, .ok (.map entries))
      | (s, .error e) => (s, .error e)

end BoundObject

end LazyBinding
