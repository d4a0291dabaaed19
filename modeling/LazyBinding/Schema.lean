import LazyBinding.Compilation

/-!
# Schemas

A schema is a registry with the tables compiled from it so far. Tables are compiled on first use.
-/
namespace LazyBinding

structure Schema where
  registry : Registry
  cache : SchemaCache
  /-- Objects made by `instantiate` are validated as a whole. -/
  strict : Bool

namespace Schema

def ofRegistry (registry : Registry) (strict : Bool) : Schema := ⟨registry, .empty, strict⟩

instance : Inhabited Schema := ⟨ofRegistry .empty false⟩

def table (s : Schema) (cls : ClassPath) : Schema × Except SchemaError FieldTable :=
  let (cache, result) := s.cache.compile s.registry cls
  ({ s with cache := cache }, result)

def compile (s : Schema) (cls : ClassPath) : Schema × Except SchemaError Unit :=
  let (s, result) := s.table cls
  (s, result.map fun _ => ())

def isCompiled (s : Schema) (cls : ClassPath) : Bool := s.cache.has cls

def clearCache (s : Schema) : Schema × Nat := ({ s with cache := .empty }, s.cache.size)

end Schema

end LazyBinding
