import LazyBinding.Proofs.DescribedExport
import LazyBinding.Proofs.History

/-!
# Descriptions are closed and exact

The search for the classes that a description defines, as one that nothing bounds. Each definition
takes a class that has not been seen, so the search ends all the same, and the description is what
it ends with. It defines the classes that the fields of compiled tables lead to, each once, and its
references lead nowhere else.
-/
namespace LazyBinding

open Relation (ReflTransGen)

/-- A field in the compiled table of `c` holds objects of the class `t`. -/
def Schema.Leads (s : Schema) (c t : ClassPath) : Prop :=
  ∃ table, (s.table c).2 = .ok table ∧ ∃ entry ∈ table, entry.2.class? = some t

theorem Schema.table_again {s : Schema} (settled : s.cache.Settled s.registry)
    (cls c : ClassPath) : ((s.table cls).1.table c).2 = (s.table c).2 :=
  ((settled.compile cls).compile_eq c).trans (settled.compile_eq c).symm

/-! ### References in a document -/

namespace Json

mutual

/-- The texts that stand as references in a document, at any depth. -/
def references : Json → List String
  | .arr items => itemReferences items
  | .obj members => memberReferences members
  | _ => []

def itemReferences : List Json → List String
  | [] => []
  | item :: rest => references item ++ itemReferences rest

def memberReferences : List (String × Json) → List String
  | [] => []
  | ("$ref", .str reference) :: rest => reference :: memberReferences rest
  | (_, v) :: rest => references v ++ memberReferences rest

end

theorem memberReferences_eq_flatMap {members : List (String × Json)}
    (noText : ∀ member ∈ members, ∀ text, member.2 ≠ .str text) :
    memberReferences members = members.flatMap fun member => member.2.references := by
  induction members with
  | nil => rfl
  | cons member rest ih =>
    obtain ⟨first, others⟩ := List.forall_mem_cons.1 noText
    rw [memberReferences, ih others, List.flatMap_cons]
    intro text _ h
    exact first text h

end Json

namespace Description

theorem references_nullable (inner : Json) : (nullable inner).references = inner.references := by
  simp [nullable, Json.references, Json.memberReferences, Json.itemReferences]

theorem references_fieldSchema (type : FieldType) :
    (fieldSchema type).references = type.class?.toList.map ClassPath.definitionRef := by
  obtain ⟨base, depth⟩ := type
  rw [fieldSchema]
  induction depth with
  | zero =>
    cases base <;> simp [levelSchema, baseSchema, references_nullable, Json.references,
      Json.memberReferences, FieldType.class?]
  | succ depth ih =>
    rw [levelSchema, references_nullable]
    simpa [Json.references, Json.memberReferences, FieldType.class?] using ih

theorem fieldSchema_ne_str (type : FieldType) (text : String) : fieldSchema type ≠ .str text := by
  obtain ⟨base, _ | depth⟩ := type
  · cases base <;> exact Json.noConfusion
  · exact Json.noConfusion

theorem references_classSchema (r : Registry) (cls : ClassPath) (table : FieldTable) :
    (classSchema r cls table).references = (references table).map ClassPath.definitionRef := by
  have properties : Json.memberReferences
      (table.map fun entry => (entry.1, fieldSchema entry.2)) =
        (references table).map ClassPath.definitionRef := by
    have noText : ∀ member ∈ table.map fun entry => (entry.1, fieldSchema entry.2),
        ∀ text, member.2 ≠ .str text := by
      rintro member hmember text
      obtain ⟨entry, -, rfl⟩ := List.mem_map.1 hmember
      exact fieldSchema_ne_str entry.2 text
    rw [Json.memberReferences_eq_flatMap noText, List.flatMap_map, references, Dict.values,
      List.filterMap_map, List.filterMap_eq_flatMap_toList, List.map_flatMap]
    exact List.flatMap_congr fun entry _ => references_fieldSchema entry.2
  unfold classSchema
  split <;> simp [Json.references, Json.memberReferences, properties]

theorem references_document (cls : ClassPath) (defs : List (String × Json)) :
    (document cls defs).references = cls.definitionRef :: (Json.obj defs).references := by
  simp [document, Json.references, Json.memberReferences]

/-! ### The search -/

/-- The search for what is to be defined, with a queue of classes and those that have been seen. A
search that never ends has no result. -/
inductive Defines : List ClassPath → OrderedSet ClassPath → Schema →
    Except SchemaError (List (String × Json)) → Prop where
  | done {seen s} : Defines [] seen s (.ok [])
  | again {cls rest seen s result} (known : cls ∈ seen) (later : Defines rest seen s result) :
      Defines (cls :: rest) seen s result
  | failed {cls rest seen s e} (new : cls ∉ seen) (h : (s.table cls).2 = .error e) :
      Defines (cls :: rest) seen s (.error e)
  | defined {cls rest seen s table result} (new : cls ∉ seen) (h : (s.table cls).2 = .ok table)
      (later : Defines (rest ++ behind seen cls table) (OrderedSet.add seen cls) (s.table cls).1
        result) :
      Defines (cls :: rest) seen s
        (result.map fun others => (cls.text, classSchema s.registry cls table) :: others)

variable {s start : Schema} {budget : Nat} {cls c : ClassPath} {queue rest : List ClassPath}
variable {seen : OrderedSet ClassPath} {table : FieldTable} {defs : List (String × Json)}

/-- A search that may define as many classes as there are ends as one without a bound. -/
theorem defines_definitions (settled : s.cache.Settled s.registry)
    (enough : unseen s.registry seen < budget) :
    Defines queue seen s (definitions budget queue seen s).2 := by
  induction budget generalizing queue seen s with
  | zero => omega
  | succ budget ih =>
    induction queue with
    | nil =>
      rw [definitions]
      exact .done
    | cons cls rest ih' =>
      by_cases known : cls ∈ seen
      · rw [definitions_seen known]
        exact .again known ih'
      · cases found : (s.table cls).2 with
        | error e =>
          rw [definitions_failed known found]
          exact .failed known found
        | ok table =>
          have registered := (settled.sound_of_compile found .refl).registered
          have fewer := unseen_lt registered known
          rw [definitions_compiled known found]
          refine .defined known found (ih (settled.compile cls) ?_)
          rw [s.table_registry cls]
          omega

namespace Defines

variable {result result' : Except SchemaError (List (String × Json))}

theorem unique (h : Defines queue seen s result) (h' : Defines queue seen s result') :
    result = result' := by
  induction h generalizing result' with
  | done =>
    cases h' with
    | done => rfl
  | again known _ ih =>
    cases h' with
    | again _ later => exact ih later
    | failed new => exact absurd known new
    | defined new => exact absurd known new
  | failed new failed =>
    cases h' with
    | again known => exact absurd known new
    | failed _ failed' => cases failed.symm.trans failed'; rfl
    | defined _ compiled => cases failed.symm.trans compiled
  | defined new compiled _ ih =>
    cases h' with
    | again known => exact absurd known new
    | failed _ failed => cases failed.symm.trans compiled
    | defined _ compiled' later =>
      cases compiled.symm.trans compiled'
      rw [ih later]

theorem new (h : Defines queue seen s (.ok defs)) (defined : c.text ∈ Dict.keys defs) :
    c ∉ seen := by
  generalize hresult : Except.ok defs = result at h
  induction h generalizing defs with
  | done => cases hresult; cases defined
  | again _ _ ih => exact ih defined hresult
  | failed => cases hresult
  | @defined cls rest seen s table result new _ _ ih =>
    obtain ⟨others, rfl, rfl⟩ := map_eq_ok_iff.1 hresult.symm
    rcases List.mem_cons.1 defined with first | later
    · obtain rfl : c = cls := congrArg ClassPath.mk first
      exact new
    · intro known
      exact ih later rfl (OrderedSet.mem_add.2 (Or.inl known))

theorem nodup (h : Defines queue seen s (.ok defs)) : (Dict.keys defs).Nodup := by
  generalize hresult : Except.ok defs = result at h
  induction h generalizing defs with
  | done => cases hresult; exact List.nodup_nil
  | again _ _ ih => exact ih hresult
  | failed => cases hresult
  | defined _ _ later ih =>
    obtain ⟨others, rfl, rfl⟩ := map_eq_ok_iff.1 hresult.symm
    refine List.nodup_cons.2 ⟨fun twice => ?_, ih rfl⟩
    exact later.new twice (OrderedSet.mem_add.2 (Or.inr rfl))

theorem reached (h : Defines queue seen s (.ok defs)) (settled : s.cache.Settled s.registry)
    (same : ∀ c, (s.table c).2 = (start.table c).2) (defined : c.text ∈ Dict.keys defs) :
    ∃ q ∈ queue, ReflTransGen start.Leads q c := by
  generalize hresult : Except.ok defs = result at h
  induction h generalizing defs with
  | done => cases hresult; cases defined
  | again _ _ ih =>
    obtain ⟨q, hq, leads⟩ := ih settled same defined hresult
    exact ⟨q, List.mem_cons_of_mem _ hq, leads⟩
  | failed => cases hresult
  | @defined cls rest seen s table result _ compiled _ ih =>
    obtain ⟨others, rfl, rfl⟩ := map_eq_ok_iff.1 hresult.symm
    rcases List.mem_cons.1 defined with first | later
    · obtain rfl : c = cls := congrArg ClassPath.mk first
      exact ⟨c, List.mem_cons_self, .refl⟩
    · obtain ⟨q, hq, leads⟩ := ih (settled.compile cls)
        (fun c => (Schema.table_again settled cls c).trans (same c)) later rfl
      rcases List.mem_append.1 hq with hq | hq
      · exact ⟨q, List.mem_cons_of_mem _ hq, leads⟩
      · obtain ⟨type, htype, hclass⟩ := List.mem_filterMap.1 (List.mem_filter.1 hq).1
        obtain ⟨entry, hentry, rfl⟩ := List.mem_map.1 htype
        refine ⟨cls, List.mem_cons_self, .head ?_ leads⟩
        exact ⟨table, (same cls).symm.trans compiled, entry, hentry, hclass⟩

end Defines

/-! ### The document -/

namespace Covers

variable {t : ClassPath}

theorem leads (h : Covers s.registry [] queue defs) (settled : s.cache.Settled s.registry)
    (defined : c.text ∈ Dict.keys defs) (leads : s.Leads c t) : t.text ∈ Dict.keys defs := by
  obtain ⟨table, compiled, entry, hentry, hclass⟩ := leads
  have listed := mem_references entry hentry hclass
  exact (h.closed c table defined (settled.flattens compiled) t listed).resolve_left (by simp)

theorem references {r : Registry} {reference : String} (h : Covers r [] queue defs)
    (hmem : reference ∈ (Json.obj defs).references) :
    ∃ t : ClassPath, reference = t.definitionRef ∧ t.text ∈ Dict.keys defs := by
  have noText : ∀ member ∈ defs, ∀ text, member.2 ≠ .str text := by
    intro member hmember text
    obtain ⟨c, table, -, rfl⟩ := h.described member hmember
    exact Json.noConfusion
  rw [Json.references, Json.memberReferences_eq_flatMap noText] at hmem
  obtain ⟨member, hmember, hmem⟩ := List.mem_flatMap.1 hmem
  obtain ⟨c, table, flat, rfl⟩ := h.described member hmember
  rw [references_classSchema] at hmem
  obtain ⟨t, ht, rfl⟩ := List.mem_map.1 hmem
  have defined : c.text ∈ Dict.keys defs := List.mem_map_of_mem hmember
  exact ⟨t, rfl, (h.closed c table defined flat t ht).resolve_left (by simp)⟩

end Covers

end Description

namespace Schema

variable {s : Schema} {cls c : ClassPath} {table : FieldTable}

/-- Whatever the fields of a class that compiles lead to compiles too. -/
theorem compiles_of_leads (settled : s.cache.Settled s.registry)
    (compiled : (s.table cls).2 = .ok table) (leads : ReflTransGen s.Leads cls c) :
    ∃ below, (s.table c).2 = .ok below := by
  induction leads with
  | refl => exact ⟨table, compiled⟩
  | tail _ last =>
    obtain ⟨table', compiled', entry, hentry, hclass⟩ := last
    have reach := Description.references_reachable (settled.flattens compiled')
      (Description.mem_references entry hentry hclass)
    exact settled.compile_of_sound fun u hu => settled.sound_of_compile compiled' (reach.trans hu)

theorem jsonSchema_eq_map (s : Schema) (cls : ClassPath) :
    (s.jsonSchema cls).2 =
      (Description.definitions (s.registry.classes.length + 1) [cls] [] s).2.map
        (Description.document cls) := by
  rw [jsonSchema]
  rcases Description.definitions (s.registry.classes.length + 1) [cls] [] s with ⟨t, e | defs⟩ <;>
    rfl

theorem defines_jsonSchema (settled : s.cache.Settled s.registry) (cls : ClassPath) :
    ∃ result, (∀ other, Description.Defines [cls] [] s other ↔ other = result) ∧
      (s.jsonSchema cls).2 = result.map (Description.document cls) := by
  have enough := Nat.lt_succ_of_le (Description.unseen_le s.registry [])
  have ends : Description.Defines [cls] [] s _ := Description.defines_definitions settled enough
  refine ⟨_, fun other => ?_, jsonSchema_eq_map s cls⟩
  constructor
  · intro ends'
    exact ends'.unique ends
  · rintro rfl
    exact ends

theorem compile_eq_ok_iff : (s.compile cls).2 = .ok () ↔ ∃ table, (s.table cls).2 = .ok table := by
  simp only [compile, map_eq_ok_iff, and_true]

theorem exists_jsonSchema_iff (settled : s.cache.Settled s.registry) :
    (∃ document, (s.jsonSchema cls).2 = .ok document) ↔ (s.compile cls).2 = .ok () := by
  rw [compile_eq_ok_iff]
  constructor
  · rintro ⟨document, made⟩
    obtain ⟨result, ends, described⟩ := defines_jsonSchema settled cls
    cases found : (s.table cls).2 with
    | ok table => exact ⟨table, rfl⟩
    | error e =>
      obtain rfl := (ends (.error e)).1 (.failed List.not_mem_nil found)
      cases made.symm.trans described
  · rintro ⟨table, compiled⟩
    obtain ⟨defs, made, -⟩ := jsonSchema_covers settled compiled
    exact ⟨_, made⟩

/-- A description that is made is that of a class that compiles, covers what the class refers to,
and comes from the search. -/
theorem covers_of_jsonSchema {document : Json} (settled : s.cache.Settled s.registry)
    (made : (s.jsonSchema cls).2 = .ok document) :
    ∃ table defs, (s.table cls).2 = .ok table ∧ document = Description.document cls defs ∧
      Description.Defines [cls] [] s (.ok defs) ∧ Description.Covers s.registry [] [cls] defs := by
  obtain ⟨table, compiled⟩ := compile_eq_ok_iff.1 ((exists_jsonSchema_iff settled).1 ⟨_, made⟩)
  obtain ⟨defs, made', covers⟩ := jsonSchema_covers settled compiled
  obtain rfl := Except.ok.inj (made.symm.trans made')
  obtain ⟨result, ends, described⟩ := defines_jsonSchema settled cls
  obtain ⟨others, rfl, same⟩ := map_eq_ok_iff.1 (described.symm.trans made)
  simp only [Description.document, Json.obj.injEq, List.cons.injEq, Prod.mk.injEq, true_and,
    and_true] at same
  subst same
  exact ⟨table, _, compiled, rfl, (ends _).2 rfl, covers⟩

end Schema

/-- Whatever has been done before, the search for what a description defines ends, and it fails
exactly if its class does not compile. A description defines the classes that are reached from its
class through the fields of compiled tables and no others, each of them once and as its table has
it. Every reference in it leads to one of them. -/
theorem Session.description_closed (registries : List (Registry × Bool))
    (operations : List Operation) (id : SchemaId) (cls : ClassPath) :
    let s := ((fresh registries).run operations).schema id
    (∃ result, (∀ other, Description.Defines [cls] [] s other ↔ other = result) ∧
      (s.jsonSchema cls).2 = result.map (Description.document cls)) ∧
    ((∃ document, (s.jsonSchema cls).2 = .ok document) ↔ (s.compile cls).2 = .ok ()) ∧
    ∀ document, (s.jsonSchema cls).2 = .ok document →
      ∃ defs, document = Description.document cls defs ∧ (Dict.keys defs).Nodup ∧
        (∀ c : ClassPath, c.text ∈ Dict.keys defs ↔ ReflTransGen s.Leads cls c) ∧
        (∀ c : ClassPath, c.text ∈ Dict.keys defs → ∃ table, (s.table c).2 = .ok table ∧
          Dict.get? defs c.text = some (Description.classSchema s.registry c table)) ∧
        ∀ reference ∈ document.references, ∃ c : ClassPath, reference = c.definitionRef ∧
          c.text ∈ Dict.keys defs ∧ document.referenced? reference = Dict.get? defs c.text := by
  intro s
  have h := (keeps_fresh registries).run operations
  have hregistry : s.registry = (fresh registries).registry id := h.registry id
  have settled : s.cache.Settled s.registry := hregistry ▸ h.settled id
  refine ⟨s.defines_jsonSchema settled cls, s.exists_jsonSchema_iff settled, ?_⟩
  intro document made
  obtain ⟨table, defs, compiled, rfl, search, covers⟩ := s.covers_of_jsonSchema settled made
  have first : cls.text ∈ Dict.keys defs :=
    (covers.queued cls List.mem_cons_self).resolve_left (by simp)
  have reached : ∀ c : ClassPath, c.text ∈ Dict.keys defs → ReflTransGen s.Leads cls c := by
    intro c defined
    obtain ⟨q, hq, leads⟩ := search.reached settled (fun _ => rfl) defined
    rwa [List.mem_singleton.1 hq] at leads
  have compiles : ∀ c : ClassPath, c.text ∈ Dict.keys defs → ∃ table, (s.table c).2 = .ok table :=
    fun c defined => s.compiles_of_leads settled compiled (reached c defined)
  refine ⟨defs, rfl, search.nodup, fun c => ⟨reached c, fun leads => ?_⟩, fun c defined => ?_,
    fun reference hmem => ?_⟩
  · induction leads with
    | refl => exact first
    | tail _ last ih => exact covers.leads settled ih last
  · obtain ⟨table, compiled⟩ := compiles c defined
    exact ⟨table, compiled, covers.get? defined (settled.flattens compiled)⟩
  · have target : ∃ c : ClassPath, reference = c.definitionRef ∧ c.text ∈ Dict.keys defs := by
      rw [Description.references_document] at hmem
      rcases List.mem_cons.1 hmem with rfl | hmem
      · exact ⟨cls, rfl, first⟩
      · exact covers.references hmem
    obtain ⟨c, rfl, defined⟩ := target
    obtain ⟨table, compiled⟩ := compiles c defined
    have registered := (settled.sound_of_compile compiled .refl).registered
    exact ⟨c, rfl, defined,
      Description.referenced?_definition (Registry.isPath_of_contains registered)⟩

end LazyBinding
