import LazyBinding.Proofs.Evolution
import LazyBinding.Proofs.Acceptance

/-!
# Which classes a description defines

The definitions of a description are closed: each class that the table of a defined class refers to
is defined as well. The budget suffices, because each definition takes one of the registered
classes, and no class on the way fails to compile if the first one compiles.
-/
namespace LazyBinding

open Relation (ReflTransGen TransGen)

theorem Schema.table_registry (s : Schema) (cls : ClassPath) :
    (s.table cls).1.registry = s.registry := rfl

theorem Schema.Evolves.registry {s t : Schema} (h : s.Evolves t) : t.registry = s.registry := by
  induction h with
  | refl => rfl
  | table cls _ ih => exact ih

namespace Description

variable {r : Registry} {s t : Schema} {budget : Nat} {cls c : ClassPath}
variable {queue rest : List ClassPath} {seen : OrderedSet ClassPath} {table : FieldTable}

/-- The classes to define behind a class that has just been defined. -/
def behind (seen : OrderedSet ClassPath) (cls : ClassPath) (table : FieldTable) : List ClassPath :=
  (references table).filter fun target => target ∉ OrderedSet.add seen cls

theorem definitions_seen (known : cls ∈ seen) :
    definitions (budget + 1) (cls :: rest) seen s = definitions (budget + 1) rest seen s := by
  rw [definitions, if_pos known]

theorem definitions_failed {e : SchemaError} (new : cls ∉ seen)
    (failed : (s.table cls).2 = .error e) :
    (definitions (budget + 1) (cls :: rest) seen s).2 = .error e := by
  have hs : s.table cls = ((s.table cls).1, .error e) := Prod.ext rfl failed
  rw [definitions, if_neg new, hs]

theorem definitions_compiled (new : cls ∉ seen) (compiled : (s.table cls).2 = .ok table) :
    (definitions (budget + 1) (cls :: rest) seen s).2 =
      (definitions budget (rest ++ behind seen cls table) (OrderedSet.add seen cls)
        (s.table cls).1).2.map fun others =>
          (cls.text, classSchema s.registry cls table) :: others := by
  have hs : s.table cls = ((s.table cls).1, .ok table) := Prod.ext rfl compiled
  have hregistry := (definitions_evolves budget (rest ++ behind seen cls table)
    (OrderedSet.add seen cls) (s.table cls).1).registry
  rw [definitions, if_neg new, hs]
  simp only [behind] at hregistry ⊢
  split
  · next e failed =>
    rw [failed]
    rfl
  · next others made =>
    rw [made] at hregistry ⊢
    simp only [Schema.table_registry] at hregistry
    simp only [hregistry]
    rfl

theorem mem_references (entry : String × FieldType) (hentry : entry ∈ table)
    (ht : entry.2.class? = some c) : c ∈ references table :=
  List.mem_filterMap.2 ⟨entry.2, List.mem_map_of_mem hentry, ht⟩

theorem references_reachable (h : r.Flattens cls table) (hc : c ∈ references table) :
    ReflTransGen r.RefersTo cls c := by
  obtain ⟨type, htype, hclass⟩ := List.mem_filterMap.1 hc
  obtain ⟨entry, hentry, rfl⟩ := List.mem_map.1 htype
  exact (h.refersTo hentry hclass).to_reflTransGen

/-- How many registered classes have not been seen. -/
def unseen (r : Registry) (seen : OrderedSet ClassPath) : Nat :=
  (r.ids.filter fun c => c ∉ seen).length

theorem unseen_le (r : Registry) (seen : OrderedSet ClassPath) :
    unseen r seen ≤ r.classes.length := by
  have := List.length_filter_le (fun c => decide (c ∉ seen)) r.ids
  simpa only [unseen, Registry.ids, List.length_map] using this

theorem unseen_lt (registered : r.contains cls = true) (new : cls ∉ seen) :
    unseen r (OrderedSet.add seen cls) < unseen r seen := by
  refine length_filter_lt (a := cls) (fun k hk => ?_) ?_ ?_ ?_
  · simp only [decide_eq_true_eq, OrderedSet.mem_add, not_or] at hk ⊢
    exact hk.1
  · simpa [Registry.contains] using registered
  · simpa using new
  · simp [OrderedSet.mem_add]

/-- Definitions of classes by their tables, with nothing left open but what has been seen before:
the queue is defined, and so is what the tables of defined classes refer to. -/
structure Covers (r : Registry) (seen : OrderedSet ClassPath) (queue : List ClassPath)
    (defs : List (String × Json)) : Prop where
  described : ∀ entry ∈ defs, ∃ c table, r.Flattens c table ∧
    entry = (c.text, classSchema r c table)
  queued : ∀ c ∈ queue, c ∈ seen ∨ c.text ∈ Dict.keys defs
  closed : ∀ c table, c.text ∈ Dict.keys defs → r.Flattens c table →
    ∀ t ∈ references table, t ∈ seen ∨ t.text ∈ Dict.keys defs

namespace Covers

variable {defs : List (String × Json)}

theorem get? (h : Covers r seen queue defs) (defined : c.text ∈ Dict.keys defs)
    (flat : r.Flattens c table) : Dict.get? defs c.text = some (classSchema r c table) := by
  cases found : Dict.get? defs c.text with
  | none => exact absurd defined ((Dict.get?_eq_none_iff _ _).1 found)
  | some d =>
    obtain ⟨c', table', flat', same⟩ := h.described _ (Dict.mem_of_get? found)
    obtain ⟨htext, rfl⟩ := Prod.mk.inj same
    obtain rfl : c = c' := congrArg ClassPath.mk htext
    rw [flat.unique flat']

theorem seen_first (h : Covers r seen rest defs) (known : cls ∈ seen) :
    Covers r seen (cls :: rest) defs := by
  refine ⟨h.described, ?_, h.closed⟩
  intro c hc
  rcases List.mem_cons.1 hc with rfl | hc
  · exact Or.inl known
  · exact h.queued c hc

theorem define (h : Covers r (OrderedSet.add seen cls) (rest ++ behind seen cls table) defs)
    (flat : r.Flattens cls table) :
    Covers r seen (cls :: rest) ((cls.text, classSchema r cls table) :: defs) := by
  have known : ∀ c, c ∈ OrderedSet.add seen cls ∨ c.text ∈ Dict.keys defs →
      c ∈ seen ∨ c.text ∈ Dict.keys ((cls.text, classSchema r cls table) :: defs) := by
    intro c hc
    rcases hc with hc | hc
    · rcases OrderedSet.mem_add.1 hc with hc | rfl
      · exact Or.inl hc
      · exact Or.inr List.mem_cons_self
    · exact Or.inr (List.mem_cons_of_mem _ hc)
  refine ⟨?_, ?_, ?_⟩
  · intro entry hentry
    rcases List.mem_cons.1 hentry with rfl | hentry
    · exact ⟨cls, table, flat, rfl⟩
    · exact h.described entry hentry
  · intro c hc
    rcases List.mem_cons.1 hc with rfl | hc
    · exact Or.inr List.mem_cons_self
    · exact known c (h.queued c (List.mem_append_left _ hc))
  · intro c table' hc flat' t ht
    rcases List.mem_cons.1 hc with hc | hc
    · obtain rfl : c = cls := congrArg ClassPath.mk hc
      obtain rfl := flat.unique flat'
      by_cases hseen : t ∈ OrderedSet.add seen c
      · exact known t (Or.inl hseen)
      · refine known t (h.queued t (List.mem_append_right _ ?_))
        exact List.mem_filter.2 ⟨ht, by simpa using hseen⟩
    · exact known t (h.closed c table' hc flat' t ht)

end Covers

/-- Where everything that the queue leads to is in order, it is all defined. -/
theorem definitions_cover (budget : Nat) (queue : List ClassPath) (seen : OrderedSet ClassPath)
    (s : Schema) (settled : s.cache.Settled s.registry)
    (sound : ∀ c ∈ queue, ∀ u, ReflTransGen s.registry.RefersTo c u → s.registry.Sound u)
    (enough : unseen s.registry seen < budget) :
    ∃ defs, (definitions budget queue seen s).2 = .ok defs ∧
      Covers s.registry seen queue defs := by
  induction budget generalizing queue seen s with
  | zero => omega
  | succ budget ih =>
    induction queue with
    | nil => exact ⟨[], by rw [definitions], by simp, by simp, by simp [Dict.keys]⟩
    | cons cls rest ih' =>
      have others : ∀ c ∈ rest, ∀ u, ReflTransGen s.registry.RefersTo c u →
          s.registry.Sound u := fun c hc => sound c (List.mem_cons_of_mem _ hc)
      by_cases known : cls ∈ seen
      · obtain ⟨defs, made, covers⟩ := ih' others
        exact ⟨defs, by rw [definitions_seen known, made], covers.seen_first known⟩
      · have first := sound cls List.mem_cons_self
        obtain ⟨table, compiled⟩ := settled.compile_of_sound first
        have flat : s.registry.Flattens cls table := settled.flattens compiled
        have next : ∀ c ∈ rest ++ behind seen cls table, ∀ u,
            ReflTransGen s.registry.RefersTo c u → s.registry.Sound u := by
          intro c hc u hu
          rcases List.mem_append.1 hc with hc | hc
          · exact others c hc u hu
          · have hbelow := references_reachable flat (List.mem_filter.1 hc).1
            exact first u (hbelow.trans hu)
        have fewer := unseen_lt (first cls .refl).registered known
        obtain ⟨defs, made, covers⟩ := ih (rest ++ behind seen cls table)
          (OrderedSet.add seen cls) (s.table cls).1 (settled.compile cls) next
          (by rw [s.table_registry cls]; omega)
        refine ⟨(cls.text, classSchema s.registry cls table) :: defs, ?_, covers.define flat⟩
        rw [definitions_compiled known compiled, made]
        rfl

end Description

/-- The document of a class with some definitions. -/
def Description.document (cls : ClassPath) (defs : List (String × Json)) : Json :=
  .obj [("title", .str cls.text), ("$ref", .str cls.definitionRef), ("$defs", .obj defs)]

/-- A class that compiles has a document, in which every class is defined that its table, or that
of another defined class, refers to. -/
theorem Schema.jsonSchema_covers {s : Schema} {cls : ClassPath} {table : FieldTable}
    (settled : s.cache.Settled s.registry) (compiled : (s.table cls).2 = .ok table) :
    ∃ defs, (s.jsonSchema cls).2 = .ok (Description.document cls defs) ∧
      Description.Covers s.registry [] [cls] defs := by
  have sound : ∀ c ∈ [cls], ∀ u, ReflTransGen s.registry.RefersTo c u → s.registry.Sound u := by
    intro c hc u hu
    obtain rfl := List.mem_singleton.1 hc
    exact settled.sound_of_compile compiled hu
  have enough : Description.unseen s.registry [] < s.registry.classes.length + 1 :=
    Nat.lt_succ_of_le (Description.unseen_le s.registry [])
  obtain ⟨defs, made, covers⟩ :=
    Description.definitions_cover _ [cls] [] s settled sound enough
  refine ⟨defs, ?_, covers⟩
  have hdefs : Description.definitions (s.registry.classes.length + 1) [cls] [] s =
      ((Description.definitions (s.registry.classes.length + 1) [cls] [] s).1, .ok defs) :=
    Prod.ext rfl made
  rw [jsonSchema, hdefs]
  rfl

end LazyBinding
