import LazyBinding.Conversion

/-!
# Fields of an object

Reading a field converts the stored value in place; writing one converts the given value first and
stores nothing if that fails. A field that is stored but not declared is untyped.
-/
namespace LazyBinding

/-- What an operation on an object leaves: it may have converted data even when it failed. -/
structure Effect (α : Type) where
  session : Session
  object : BoundObject
  result : Except ObjectError α

namespace BoundObject

/-- The type of a field: the declared one, else untyped for a field in the data. -/
def fieldType (o : BoundObject) (field : String) : Except ObjectError FieldType :=
  match Dict.get? o.table field with
  | some type => .ok type
  | none => if o.hasData field then .ok .untyped else .error (.noSuchField o.cls field)

def passage (o : BoundObject) (field : String) (type : FieldType) (direction : Direction) :
    Passage :=
  ⟨o.schema, field, type, direction⟩

/-- Converts a stored value of the object for a reader and puts it back. -/
def materializeSlot (build : Builder) (o : BoundObject) (field : String) (type : FieldType)
    (v : Value) (s : Session) : Effect Value :=
  let converted := (o.passage field type .materialize).convert build v s
  let o := o.put field converted.value
  match converted.error with
  | some e => ⟨converted.session, o, .error (.conversion e)⟩
  | none => ⟨converted.session, o, .ok converted.value⟩

/-- Reads a field. A declared field without data reads as null. -/
def readWith (build : Builder) (o : BoundObject) (field : String) (s : Session) : Effect Value :=
  match o.fieldType field with
  | .error e => ⟨s, o, .error e⟩
  | .ok type =>
    match o.slot? field with
    | none => ⟨s, o, .ok .null⟩
    | some v => o.materializeSlot build field type v s

/-- Reads a field to write into its slot. A declared field without data gets a null slot. -/
def openSlotWith (build : Builder) (o : BoundObject) (field : String) (s : Session) :
    Effect Value :=
  match o.fieldType field with
  | .error e => ⟨s, o, .error e⟩
  | .ok type => o.materializeSlot build field type ((o.slot? field).getD .null) s

def writeWith (build : Builder) (o : BoundObject) (field : String) (v : Value) (s : Session) :
    Effect Unit :=
  match o.fieldType field with
  | .error e => ⟨s, o, .error e⟩
  | .ok type =>
    let converted := (o.passage field type .accept).convert build v s
    match converted.error with
    | some e => ⟨converted.session, o, .error (.conversion e)⟩
    | none => ⟨converted.session, o.put field converted.value, .ok ()⟩

end BoundObject

end LazyBinding
