import LazyBinding.Object.Error
import LazyBinding.Session
import LazyBinding.Value.Scalar

/-!
# Conversion

Converting the value of a field checks it against the type of the field and changes it in place:
lists written as maps become arrays, scalars are cast, and on the way out to a reader maps become
objects. A nested object is built one level at a time; its own fields stay as they are. Null passes
at every level. Items are converted in order, and those before a bad one stay converted.
-/
namespace LazyBinding

inductive Direction where
  /-- Stored data on its way to a reader; maps become objects. -/
  | materialize
  /-- A given value on its way into storage; objects must exist already. -/
  | accept
  deriving DecidableEq, Repr

abbrev Builder :=
  SchemaId → ClassPath → Dict String Value → Session → Session × Except ObjectError BoundObject

structure Passage where
  schema : SchemaId
  field : String
  type : FieldType
  direction : Direction

/-- What a conversion leaves in the slot, and why it stopped if it did. -/
structure Converted where
  session : Session
  value : Value
  error : Option ConversionError

structure ConvertedItems where
  session : Session
  items : List Value
  error : Option ConversionError

mutual

/-- The first part of a tree that has no place in an untyped field: an object or a handle. -/
def Value.unfit? : Value → Option Kind
  | .object .. => some .object
  | .handle _ => some .handle
  | .array items => unfitInItems? items
  | .map entries => unfitInEntries? entries
  | _ => none

def Value.unfitInItems? : List Value → Option Kind
  | [] => none
  | v :: rest => v.unfit?.or (unfitInItems? rest)

def Value.unfitInEntries? : List (String × Value) → Option Kind
  | [] => none
  | (_, v) :: rest => v.unfit?.or (unfitInEntries? rest)

end

namespace Passage

/-- Untyped trees nest freely around scalars; below array levels only scalars are allowed. -/
def checkUntyped (p : Passage) (v : Value) : Option ConversionError :=
  if v.isSequence ∧ 0 < p.type.depth then
    some (.shapeMismatch p.field (.scalarInside p.type) v.kind)
  else v.unfit?.map (.illegalUntyped p.field)

def toPrimitive (p : Passage) (kind : Primitive) (v : Value) : Value × Option ConversionError :=
  match kind, v with
  | .bool, .bool _ | .int, .int _ | .float, .float _ | .string, .str _ => (v, none)
  | _, _ =>
    if v.isSequence then (v, some (.shapeMismatch p.field (.primitive kind) v.kind))
    else
      match v.cast? kind with
      | some w => (w, none)
      | none => (v, some (.coercionFailure p.field kind v.kind))

def checkInstance (p : Passage) (s : Session) (cls actual : ClassPath) : Option ConversionError :=
  if (s.registry p.schema).isA actual cls then none
  else some (.typeMismatch p.field cls (.instanceOf actual))

def construct (build : Builder) (p : Passage) (cls : ClassPath) (v : Value)
    (data : Dict String Value) (s : Session) : Converted :=
  match build p.schema cls data s with
  | (s, .ok o) => ⟨s, .ofObject o, none⟩
  | (s, .error e) => ⟨s, v, some (.nestedConstruction p.field cls e)⟩

/-- On the way out a map, or an empty array, becomes an object. -/
def materialize (build : Builder) (p : Passage) (cls : ClassPath) (v : Value) (s : Session) :
    Converted :=
  match v with
  | .object _ actual _ _ => ⟨s, v, p.checkInstance s cls actual⟩
  | .map entries => p.construct build cls v entries s
  | .array [] => p.construct build cls v [] s
  | .array _ => ⟨s, v, some (.shapeMismatch p.field (.objectOf cls) .array)⟩
  | v => ⟨s, v, some (.typeMismatch p.field cls (.value v.kind))⟩

def accept (p : Passage) (cls : ClassPath) (v : Value) (s : Session) : Option ConversionError :=
  match v with
  | .object _ actual _ _ => p.checkInstance s cls actual
  | v => some (.typeMismatch p.field cls (.value v.kind))

def convertBase (build : Builder) (p : Passage) (v : Value) (s : Session) : Converted :=
  match p.type.base with
  | .any => ⟨s, v, p.checkUntyped v⟩
  | .primitive kind =>
    let (v, error) := p.toPrimitive kind v
    ⟨s, v, error⟩
  | .object cls =>
    match p.direction with
    | .materialize => p.materialize build cls v s
    | .accept => ⟨s, v, p.accept cls v s⟩

def convertItems (item : Value → Session → Converted) : List Value → Session → ConvertedItems
  | [], s => ⟨s, [], none⟩
  | v :: rest, s =>
    let first := item v s
    match first.error with
    | some e => ⟨first.session, first.value :: rest, some e⟩
    | none =>
      let others := convertItems item rest first.session
      ⟨others.session, first.value :: others.items, others.error⟩

/-- Converts a value under `remaining` array levels. A map is an array if its keys count up from
zero. -/
def convertLevel (build : Builder) (p : Passage) : (remaining : Nat) → Value → Session → Converted
  | _, .null, s => ⟨s, .null, none⟩
  | 0, v, s => p.convertBase build v s
  | remaining + 1, v, s =>
    let level := p.type.depth - remaining
    let convertAll (items : List Value) : Converted :=
      let all := convertItems (convertLevel build p remaining) items s
      ⟨all.session, .array all.items, all.error⟩
    match v with
    | .array items => convertAll items
    | .map entries =>
      match Value.firstOffKey 0 entries with
      | some (index, key) => ⟨s, v, some (.keySequence p.field level index key)⟩
      | none => convertAll (Dict.values entries)
    | v => ⟨s, v, some (.shapeMismatch p.field (.arrayAt level) v.kind)⟩

def convert (build : Builder) (p : Passage) (v : Value) (s : Session) : Converted :=
  p.convertLevel build p.type.depth v s

end Passage

end LazyBinding
