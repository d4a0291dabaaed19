import LazyBinding.Proofs.Evolution
import LazyBinding.Proofs.History

/-!
# Operations on schemas

What can be done with the schemas of a session and with objects bound to them, in any order and with
any success. Between two operations no class is locked and the cached classes are closed under every
reference; and what a schema answers does not depend on the operations before.
-/
namespace LazyBinding

namespace Session

/-- One schema that has compiled nothing for each registry. -/
def fresh (registries : List (Registry × Bool)) : Session :=
  ⟨registries.map fun (registry, strict) => Schema.ofRegistry registry strict⟩

/-- Something that is done from outside. Objects and data may be any, made in the session or not. -/
inductive Operation where
  | table (schema : SchemaId) (cls : ClassPath)
  | compile (schema : SchemaId) (cls : ClassPath)
  | clearCache (schema : SchemaId)
  | describe (schema : SchemaId) (cls : ClassPath)
  | tabulate (schema : SchemaId) (cls : ClassPath)
  | instantiate (schema : SchemaId) (cls : ClassPath) (data : Dict String Value)
  | make (strict : Bool) (schema : SchemaId) (cls : ClassPath) (data : Dict String Value)
  /-- Makes an object from what a text has been decoded to. -/
  | makeDecoded (schema : SchemaId) (cls : ClassPath) (decoded : Except ObjectError Value)
  | bind (schema : SchemaId) (cls : ClassPath) (document : Json)
  | assign (o : BoundObject) (data : Dict String Value)
  | get (o : BoundObject) (field : String)
  | openSlot (o : BoundObject) (field : String)
  | set (o : BoundObject) (field : String) (v : Value)
  | call (o : BoundObject) (accessor : String) (arguments : List Value)
  | validate (o : BoundObject)
  | analyze (o : BoundObject) (deep : Bool)
  | exportObject (o : BoundObject)

/-- The session that an operation leaves, whether it succeeds or not. -/
def perform (s : Session) : Operation → Session
  | .table schema cls => (s.table schema cls).1
  | .compile schema cls => (s.onSchema schema fun schema => schema.compile cls).1
  | .clearCache schema => (s.onSchema schema Schema.clearCache).1
  | .describe schema cls => (s.onSchema schema fun schema => schema.jsonSchema cls).1
  | .tabulate schema cls => (s.onSchema schema fun schema => schema.textTable cls).1
  | .instantiate schema cls data => (BoundObject.instantiate schema cls data s).1
  | .make strict schema cls data => (BoundObject.makeValidated strict schema cls data s).1
  | .makeDecoded schema cls decoded => (BoundObject.ofDecoded schema cls decoded s).1
  | .bind schema cls document => (BoundObject.ofDocument schema cls document s).1
  | .assign o data => (o.assign data s).session
  | .get o field => (o.get field s).session
  | .openSlot o field => (o.openSlot field s).session
  | .set o field v => (o.set field v s).session
  | .call o accessor arguments => (o.call accessor arguments s).session
  | .validate o => (o.validate s).session
  | .analyze o deep => (o.analyze deep s).session
  | .exportObject o => (o.exported s).1

/-- The session that operations leave. -/
def run (s : Session) (operations : List Operation) : Session := operations.foldl perform s

/-- All that changes while operations are performed is which tables are cached, and each cache is
settled. -/
structure Keeps (start s : Session) : Prop where
  registry : ∀ id, s.registry id = start.registry id
  settled : ∀ id, (s.schema id).cache.Settled (start.registry id)

theorem keeps_fresh (registries : List (Registry × Bool)) :
    (fresh registries).Keeps (fresh registries) := by
  refine ⟨fun _ => rfl, fun id => ?_⟩
  have hempty : ((fresh registries).schema id).cache = .empty := by
    cases h : registries[id]? with
    | none => simp [fresh, schema, h]; rfl
    | some entry => simp [fresh, schema, h, Schema.ofRegistry]
  rw [hempty]
  exact SchemaCache.settled_empty _

theorem schema_onSchema {α : Type} (s : Session) (id other : SchemaId) (f : Schema → Schema × α) :
    other = id ∧ (s.onSchema id f).1.schema other = (f (s.schema id)).1 ∨
      (s.onSchema id f).1.schema other = s.schema other := by
  by_cases hid : id < s.schemas.length
  · by_cases ho : other = id
    · subst ho
      exact Or.inl ⟨rfl, s.schema_set other _ hid⟩
    · refine Or.inr ?_
      simp [onSchema, schema, List.getElem?_set_ne (Ne.symm ho)]
  · refine Or.inr ?_
    simp [onSchema, List.set_eq_of_length_le (Nat.le_of_not_lt hid)]

/-- An operation only asks for tables and forgets them. -/
theorem perform_evolves (s : Session) (operation : Operation) :
    s.Evolves (s.perform operation) := by
  cases operation with
  | table id cls => exact .table id cls .refl
  | compile id cls => exact .table id cls .refl
  | clearCache id => exact .clear id .refl
  | describe id cls => exact (Schema.jsonSchema_evolves _ cls).onSchema
  | tabulate id cls => exact (Schema.textTable_evolves _ cls).onSchema
  | instantiate id cls data => exact BoundObject.makeValidated_evolves _ id cls data s
  | make strict id cls data => exact BoundObject.makeValidated_evolves strict id cls data s
  | makeDecoded id cls decoded => exact BoundObject.ofDecoded_evolves id cls decoded s
  | bind id cls document => exact BoundObject.ofDocument_evolves id cls document s
  | assign o data => exact o.assign_evolves data s
  | get o field => exact o.readWith_evolves (BoundObject.construct_evolves _) field s
  | openSlot o field => exact o.openSlotWith_evolves (BoundObject.construct_evolves _) field s
  | set o field v => exact o.writeWith_evolves (BoundObject.construct_evolves _) field v s
  | call o accessor arguments => exact o.call_evolves accessor arguments s
  | validate o => exact o.validate_evolves s
  | analyze o deep => exact o.analyze_evolves deep s
  | exportObject o => exact o.exported_evolves s

namespace Keeps

variable {start s t : Session}

theorem self (h : start.Keeps s) : s.Keeps s := by
  refine ⟨fun _ => rfl, fun id => ?_⟩
  rw [h.registry id]
  exact h.settled id

theorem onSchema {α : Type} {id : SchemaId} {f : Schema → Schema × α} (h : start.Keeps s)
    (registry : (f (s.schema id)).1.registry = (s.schema id).registry)
    (settled : (f (s.schema id)).1.cache.Settled (start.registry id)) :
    start.Keeps (s.onSchema id f).1 := by
  refine ⟨fun other => ?_, fun other => ?_⟩
  · rcases s.schema_onSchema id other f with ⟨rfl, hs⟩ | hs
    · rw [Session.registry, hs, registry]
      exact h.registry other
    · rw [Session.registry, hs]
      exact h.registry other
  · rcases s.schema_onSchema id other f with ⟨rfl, hs⟩ | hs
    · rw [hs]
      exact settled
    · rw [hs]
      exact h.settled other

theorem table (h : start.Keeps s) (id : SchemaId) (cls : ClassPath) :
    start.Keeps (s.table id cls).1 := by
  refine h.onSchema rfl ?_
  have hr : (s.schema id).registry = start.registry id := h.registry id
  have := (h.settled id).compile cls
  rwa [← hr] at this ⊢

theorem clear (h : start.Keeps s) (id : SchemaId) :
    start.Keeps (s.onSchema id Schema.clearCache).1 :=
  h.onSchema rfl (SchemaCache.settled_empty _)

theorem evolves (h : start.Keeps s) (ht : s.Evolves t) : start.Keeps t := by
  induction ht with
  | refl => exact h
  | table id cls _ ih => exact ih.table id cls
  | clear id _ ih => exact ih.clear id

theorem perform (h : start.Keeps s) (operation : Operation) :
    start.Keeps (s.perform operation) := h.evolves (s.perform_evolves operation)

theorem run (h : start.Keeps s) (operations : List Operation) :
    start.Keeps (s.run operations) := by
  induction operations generalizing s with
  | nil => exact h
  | cons operation rest ih => exact ih (h.perform operation)

end Keeps

/-- Whatever has been done before, a schema answers like one that is fresh: with the same table, or
with the same error. -/
theorem table_after_run (registries : List (Registry × Bool)) (operations : List Operation)
    (id : SchemaId) (cls : ClassPath) (strict : Bool) :
    (((fresh registries).run operations).table id cls).2 =
      ((Schema.ofRegistry ((fresh registries).registry id) strict).table cls).2 := by
  have h := (keeps_fresh registries).run operations
  have hr := h.registry id
  have heq := (h.settled id).compile_eq cls
  rw [← hr] at heq ⊢
  exact heq

/-- Between two operations nothing is locked. A cached class is in order, its parent is cached, and
so is every class that it imports or that one of its fields, overridden or not, refers to. -/
theorem caches_closed (registries : List (Registry × Bool)) (operations : List Operation)
    (id : SchemaId) :
    let schema := ((fresh registries).run operations).schema id
    schema.cache.locks = [] ∧
    ∀ k, schema.isCompiled k = true →
      schema.registry.Sound k ∧
      (k ≠ .root → ∃ p, schema.registry.HasParent k p ∧ schema.isCompiled p = true) ∧
      (∀ u, schema.registry.Imports k u → schema.isCompiled u = true) ∧
      ∀ u, schema.registry.FieldRefers k u → schema.isCompiled u = true := by
  intro schema
  have h := (keeps_fresh registries).run operations
  have hr : schema.registry = (fresh registries).registry id := h.registry id
  have hs : schema.cache.Settled schema.registry := hr ▸ h.settled id
  refine ⟨hs.unlocked, fun k hk => ⟨(hs.grounded hk).sound, fun hne => ?_, fun u hu => ?_,
    fun u hu => ?_⟩⟩
  · obtain ⟨chain, ha⟩ := Registry.exists_ancestry (hs.grounded hk).rooted
    obtain ⟨p, hp⟩ := ha.exists_parent hne
    exact ⟨p, hp, hs.refersTo hk (Or.inl (Or.inl hp))⟩
  · exact hs.refersTo hk (Or.inl (Or.inr hu))
  · exact hs.refersTo hk (Or.inr hu)

end Session

end LazyBinding
