import LazyBinding.Schema

/-!
# Sessions

The schemas that objects of one run are bound to. Using an object may compile classes, so operations
on objects hand the session on.
-/
namespace LazyBinding

structure Session where
  schemas : List Schema

namespace Session

/-- The schema of an id; an id that was never given out means an empty schema. -/
def schema (s : Session) (id : SchemaId) : Schema := s.schemas.getD id default

def registry (s : Session) (id : SchemaId) : Registry := (s.schema id).registry

/-- The table that a class compiles to on its own, whatever is compiled already. -/
def coldTable (s : Session) (id : SchemaId) (cls : ClassPath) : Except SchemaError FieldTable :=
  (SchemaCache.empty.compile (s.registry id) cls).2

def onSchema {α : Type} (s : Session) (id : SchemaId) (f : Schema → Schema × α) : Session × α :=
  let (schema, result) := f (s.schema id)
  (⟨s.schemas.set id schema⟩, result)

def table (s : Session) (id : SchemaId) (cls : ClassPath) :
    Session × Except SchemaError FieldTable :=
  s.onSchema id fun schema => schema.table cls

end Session

end LazyBinding
