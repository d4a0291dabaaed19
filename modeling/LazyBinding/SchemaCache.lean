import LazyBinding.FieldType
import LazyBinding.OrderedSet

/-!
# Schema cache

The field tables compiled so far and the classes that are being compiled, each in order of arrival.
-/
namespace LazyBinding

structure SchemaCache where
  tables : Dict ClassPath FieldTable
  locks : OrderedSet ClassPath
  deriving DecidableEq, Repr

namespace SchemaCache

def empty : SchemaCache := ⟨[], []⟩

instance : Inhabited SchemaCache := ⟨empty⟩

def get? (c : SchemaCache) (cls : ClassPath) : Option FieldTable := Dict.get? c.tables cls

def has (c : SchemaCache) (cls : ClassPath) : Bool := Dict.has c.tables cls

def classes (c : SchemaCache) : List ClassPath := Dict.keys c.tables

/-- Stores a table; an older one of the class is replaced in place. -/
def put (c : SchemaCache) (cls : ClassPath) (table : FieldTable) : SchemaCache :=
  { c with tables := Dict.put c.tables cls table }

def erase (c : SchemaCache) (cls : ClassPath) : SchemaCache :=
  { c with tables := Dict.remove c.tables cls }

def eraseAll (c : SchemaCache) (classes : List ClassPath) : SchemaCache := classes.foldl erase c

def isLocked (c : SchemaCache) (cls : ClassPath) : Bool := cls ∈ c.locks

def lock (c : SchemaCache) (cls : ClassPath) : SchemaCache :=
  { c with locks := OrderedSet.add c.locks cls }

def lockAll (c : SchemaCache) (classes : List ClassPath) : SchemaCache := classes.foldl lock c

def unlock (c : SchemaCache) (cls : ClassPath) : SchemaCache :=
  { c with locks := c.locks.erase cls }

def unlockAll (c : SchemaCache) (classes : List ClassPath) : SchemaCache := classes.foldl unlock c

def size (c : SchemaCache) : Nat := c.tables.length

end SchemaCache

end LazyBinding
