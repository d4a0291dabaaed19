import LazyBinding.Object.Construction
import LazyBinding.Value.Decoding

/-!
# Objects

The operations on an object. Each allows more levels of nested objects than any memory can hold, so
that nesting without end is the only reason to stop early.
-/
namespace LazyBinding

namespace BoundObject

/-- How many levels of objects may lie below each other. -/
def levelLimit : Nat := Nat.pow 2 62

def builder : Builder := construct levelLimit

def make (schema : SchemaId) (cls : ClassPath) (data : Dict String Value) (s : Session) :
    Session × Except ObjectError BoundObject :=
  builder schema cls data s

/-- Fails with the whole report if anything is wrong with the object or below it. -/
def validate (o : BoundObject) (s : Session) : Effect Unit :=
  o.validateWith builder levelLimit s

/-- Makes an object; if it is to be `strict`, it must also pass validation. -/
def makeValidated (strict : Bool) (schema : SchemaId) (cls : ClassPath)
    (data : Dict String Value) (s : Session) : Session × Except ObjectError BoundObject :=
  match make schema cls data s with
  | (s, .error e) => (s, .error e)
  | (s, .ok o) =>
    if strict then
      let checked := o.validate s
      (checked.session, checked.result.map fun _ => checked.object)
    else (s, .ok o)

def instantiate (schema : SchemaId) (cls : ClassPath) (data : Dict String Value) (s : Session) :
    Session × Except ObjectError BoundObject :=
  makeValidated (s.schema schema).strict schema cls data s

def ofDecoded (schema : SchemaId) (cls : ClassPath) (decoded : Except ObjectError Value)
    (s : Session) : Session × Except ObjectError BoundObject :=
  match decoded with
  | .error e => (s, .error e)
  | .ok (.map data) => make schema cls data s
  | .ok (.array []) => make schema cls [] s
  | .ok v => (s, .error (.decode (.notAnObject v.kind)))

def ofJsonText [Json.DoubleReader] (schema : SchemaId) (cls : ClassPath) (text : String)
    (s : Session) : Session × Except ObjectError BoundObject :=
  ofDecoded schema cls (Value.decode (.ofText text)) s

/-- Binds a JSON document, which must be an object. -/
def ofDocument (schema : SchemaId) (cls : ClassPath) (document : Json) (s : Session) :
    Session × Except ObjectError BoundObject :=
  match Value.ofJson document with
  | .map data => instantiate schema cls data s
  | v => (s, .error (.decode (.notAnObject v.kind)))

/-- Replaces all data and runs the hook. -/
def assign (o : BoundObject) (data : Dict String Value) (s : Session) : Effect Unit :=
  runHook levelLimit { o with data := data } s

def get (o : BoundObject) (field : String) (s : Session) : Effect Value :=
  o.readWith builder field s

/-- Reads a field whose value is an object; null, absence or another value gives none. -/
def getObject (o : BoundObject) (field : String) (s : Session) : Effect (Option BoundObject) :=
  let read := o.get field s
  ⟨read.session, read.object, read.result.map Value.asObject?⟩

/-- Reads a field and makes sure that it has a slot, so that it can be overwritten without a
check. -/
def openSlot (o : BoundObject) (field : String) (s : Session) : Effect Value :=
  o.openSlotWith builder field s

/-- Accepts a value into a field; a value that does not convert changes nothing. -/
def set (o : BoundObject) (field : String) (v : Value) (s : Session) : Effect Unit :=
  o.writeWith builder field v s

def analyze (o : BoundObject) (deep : Bool) (s : Session) : Effect Report :=
  o.analyzeWith builder levelLimit deep s

def exported (o : BoundObject) (s : Session) : Session × Except ObjectError Value :=
  o.exportWith builder levelLimit s

end BoundObject

end LazyBinding
