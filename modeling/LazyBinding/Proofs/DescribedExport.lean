import LazyBinding.Proofs.DescribedClasses
import LazyBinding.Proofs.FieldClasses
import LazyBinding.Proofs.NormalForm
import LazyBinding.Proofs.PlainDocument
import LazyBinding.Proofs.References
import LazyBinding.Proofs.SchemaValidation

/-!
# Exports are as described

The types of fields are read twice: by conversions and by descriptions. Both readings agree: where
no hook runs, what is exported of an object that is made from plain data passes the JSON Schema of
its class.
-/
namespace LazyBinding

open Json (Decides)

/-! ### Definitions are where references lead -/

namespace Json

theorem unescapePointer_plain {step : List Char} (plain : '~' ∉ step) :
    unescapePointer step = step := by
  induction step with
  | nil => rfl
  | cons ch rest ih =>
    simp only [List.mem_cons, not_or] at plain
    rw [unescapePointer.eq_def]
    split
    · simp_all
    · simp_all
    · simp_all
    · simp_all

end Json

theorem Description.referenced?_definition {cls c : ClassPath} {defs : List (String × Json)}
    (h : ClassPath.IsPath c.text.toList) :
    (Description.document cls defs).referenced? c.definitionRef = Dict.get? defs c.text := by
  have noSlash := h.notMem '/' (by decide) (by decide)
  have noTilde := h.notMem '~' (by decide) (by decide)
  have noPercent := h.notMem '%' (by decide) (by decide)
  have text : c.definitionRef.toList = '#' :: '/' :: ("$defs".toList ++ '/' :: c.text.toList) := by
    simp [ClassPath.definitionRef]
  have steps : ("$defs".toList ++ '/' :: c.text.toList).splitOn '/' =
      ["$defs".toList, c.text.toList] := by
    rw [List.splitOn_append_cons_self_of_not_mem (by decide), List.splitOn_eq_singleton noSlash]
  have percent : '%' ∉ '/' :: ("$defs".toList ++ '/' :: c.text.toList) := by
    simpa using noPercent
  have plain : Json.unescapePointer "$defs".toList = "$defs".toList :=
    Json.unescapePointer_plain (by decide)
  have definitions : (Description.document cls defs).step? "$defs".toList = some (.obj defs) := by
    rfl
  have definition : (Json.obj defs).step? c.text.toList = Dict.get? defs c.text := by
    rw [Json.step?, String.ofList_toList]
  rw [Json.referenced?, text]
  simp only [if_neg percent, Json.pointer?, String.toList_ofList, steps, List.foldlM_cons,
    List.foldlM_nil, plain, definitions, Json.unescapePointer_plain noTilde]
  exact (congrArg (· >>= pure) definition).trans (bind_pure _)

/-! ### What an export shows passes what is described -/

theorem Primitive.hasType_document {kind : Primitive} {v : Value} (h : v.kind = kind.kind)
    (shown : v.document ≠ .null) : v.document.hasType kind.schemaWord = true := by
  cases v with
  | bool | int | str =>
    cases kind <;> first | rfl | cases h
  | float x =>
    cases kind with
    | float =>
      by_cases finite : x.isFinite = true
      · simp only [Value.document, if_pos finite]
        rfl
      · simp only [Value.document, if_neg finite] at shown
        exact absurd rfl shown
    | _ => cases h
  | _ => cases kind <;> cases h

section

variable {start s t : Session} {p : Passage} {n : Nat} {v w : Value} {o x : BoundObject}
variable {E : BoundObject → Value → Prop} {root : Json}
variable {schema : SchemaId} {cls : ClassPath} {table : FieldTable} {data : Dict String Value}

/-- A whole description defines some classes, and with each of them what its fields refer to. -/
structure Describes (start : Session) (schema : SchemaId) (root : Json)
    (defined : ClassPath → Prop) : Prop where
  definition : ∀ {c table}, defined c → (start.table schema c).2 = .ok table →
    root.referenced? c.definitionRef =
      some (Description.classSchema (start.registry schema) c table)
  closed : ∀ {c below}, defined c → start.FieldRefers schema c below → defined below

theorem classSchema_eq (r : Registry) (cls : ClassPath) (table : FieldTable) :
    ∃ notes, (∀ note ∈ notes, note.1 ∉ Json.Decides.assertions) ∧
      Description.classSchema r cls table =
        .obj ([("type", .str "object"), ("properties", .obj (table.map fun entry =>
          (entry.1, Description.fieldSchema entry.2)))] ++ notes) := by
  unfold Description.classSchema
  split
  · next parent _ =>
    refine ⟨[("description", .str ("extends " ++ parent))], ?_, rfl⟩
    simp [Json.Decides.assertions]
  · exact ⟨[], by simp, rfl⟩

/-- What an export shows of plain data under some array levels passes what is described of them, if
that holds of the maps that it shows of objects. -/
theorem Passage.Renders.passes
    (referred : ∀ below, p.type.base = .object below →
      Decides root (.obj [("$ref", .str below.definitionRef)]) .null false)
    (below : ∀ below, p.type.base = .object below → ∀ v x u, v.unfit? = none →
      v.isWellKeyed = true → p.Holds start v x → E x u →
        Decides root (.obj [("$ref", .str below.definitionRef)]) u.document true)
    (plain : v.unfit? = none) (keyed : v.isWellKeyed = true) (h : p.Renders start E n v w) :
    Decides root (Description.levelSchema p.type.base n) w.document true := by
  have nonnull : ∀ {v w n}, p.Renders start E n v w → w.document ≠ .null → v ≠ .null := by
    rintro v w n h shown rfl
    rw [renders_null.1 h] at shown
    exact shown rfl
  induction n generalizing v w with
  | zero =>
    rw [Description.levelSchema]
    cases base : p.type.base with
    | any => exact Decides.empty
    | primitive kind =>
      refine Decides.nullable (by cases kind <;> exact Decides.typed _) ?_
      intro shown
      rw [renders_zero (nonnull h shown), RendersBase, base] at h
      have typed := Primitive.hasType_document (toPrimitive_kind h) shown
      rw [← typed]
      exact Decides.typed _
    | object cls =>
      refine Decides.nullable (referred cls base) ?_
      intro shown
      rw [renders_zero (nonnull h shown), RendersBase, base] at h
      obtain ⟨x, holds, hx⟩ := h
      exact below cls base v x w plain keyed holds hx
  | succ n ih =>
    refine Decides.nullable Decides.array_null ?_
    intro shown
    obtain ⟨items, ws, source, rfl, all⟩ := (renders_succ (nonnull h shown)).1 h
    have plain := Value.fit_items plain source
    have keyed := Value.wellKeyed_items keyed source
    rw [Value.document, Value.documents_eq_map]
    refine Decides.array (List.forall_mem_map.2 ?_)
    exact forall_of_forall₂ all fun v hv w hw => ih (plain v hv) (keyed v hv) hw

namespace Describes

variable {defined : ClassPath → Prop}

theorem reference (h : Describes start schema root defined) (known : defined cls)
    (compiled : (start.table schema cls).2 = .ok table) {d : Json} {b : Bool}
    (answer : Decides root (Description.classSchema (start.registry schema) cls table) d b) :
    Decides root (.obj [("$ref", .str cls.definitionRef)]) d b :=
  Decides.reference (h.definition known compiled) answer

theorem reference_null (h : Describes start schema root defined) (known : defined cls)
    (compiled : (start.table schema cls).2 = .ok table) :
    Decides root (.obj [("$ref", .str cls.definitionRef)]) .null false := by
  obtain ⟨notes, silent, hschema⟩ := classSchema_eq (start.registry schema) cls table
  refine h.reference known compiled ?_
  rw [hschema]
  exact Decides.object_null silent

end Describes

/-- The export of an object of a defined class passes the definition. -/
theorem BoundObject.ExportsTo.passes {defined : ClassPath → Prop} (hstart : start.Keeps start)
    (describes : Describes start schema root defined) {depth : Nat} (known : defined cls)
    (hookless : start.HooklessFrom schema cls) (compiled : (start.table schema cls).2 = .ok table)
    (keyed : Dict.isWellKeyed data = true) (plain : Value.unfitInEntries? data = none)
    (h : BoundObject.ExportsTo start depth ⟨schema, cls, table, data⟩ v) :
    Decides root (Description.classSchema (start.registry schema) cls table) v.document true := by
  induction depth generalizing cls table data v with
  | zero => cases h
  | succ depth ih =>
    obtain ⟨distinct, inner⟩ := Dict.isWellKeyed_iff.1 keyed
    obtain ⟨entries, rfl, related⟩ := (exportsTo_iff hstart distinct).1 h
    obtain ⟨notes, silent, hschema⟩ := classSchema_eq (start.registry schema) cls table
    rw [hschema, Value.document, Value.members_eq_map]
    refine Decides.object silent (List.forall_mem_map.2 (forall_of_forall₂ related ?_))
    rintro ⟨field, v⟩ hentry ⟨_, w⟩ ⟨rfl, shows⟩ fieldSchema found
    rw [Dict.get?_map] at found
    obtain ⟨type, declared, rfl⟩ := Option.map_eq_some_iff.1 found
    rw [ShowsField, outlet_eq declared] at shows
    have refers : ∀ {below}, type.base = .object below → start.FieldRefers schema cls below := by
      intro below base
      exact ⟨table, field, type, compiled, declared, by rw [FieldType.class?, base]⟩
    refine shows.passes ?_ ?_ (Value.unfitInEntries?_eq_none.1 plain _ hentry) (inner _ hentry)
    · intro below base
      have hclass : type.class? = some below := by rw [FieldType.class?, base]
      obtain ⟨table', compiled'⟩ :=
        hstart.field_class hstart compiled (Dict.mem_of_get? declared) hclass
      exact describes.reference_null (describes.closed known (refers base)) compiled'
    · intro below base v x u plain keyed holds exported
      have hookless := hookless.field (refers base)
      obtain ⟨data, source, made⟩ := holds.made base rfl plain
      obtain ⟨table', compiled', rfl⟩ := (builder_hookless hstart hstart hookless.self).1 made
      have known := describes.closed known (refers base)
      refine describes.reference known compiled' ?_
      exact ih known hookless compiled' (Value.wellKeyed_objectData keyed source)
        (Value.unfitInEntries?_eq_none.2 (Value.fit_objectData plain source)) exported

theorem Description.decides_document {defs : List (String × Json)} {definition d : Json} {b : Bool}
    (found : (document cls defs).referenced? cls.definitionRef = some definition)
    (h : Decides (document cls defs) definition d b) :
    Decides (document cls defs) (document cls defs) d b := by
  obtain ⟨fuel, known⟩ := h
  have answer : Json.checkReference (document cls defs) (Json.check (document cls defs) fuel)
      (.str cls.definitionRef) d = some b := by
    rw [Json.checkReference, found]
    exact known
  refine ⟨fuel + 1, ?_⟩
  have answers : [("title", Json.str cls.text), ("$ref", .str cls.definitionRef),
      ("$defs", .obj defs)].map (Json.checkKeyword (document cls defs)
        (Json.check (document cls defs) fuel) d) = [true, b, true].map some := by
    simp only [List.map_cons, List.map_nil, Json.checkKeyword, answer]
    rfl
  rw [document, Json.check, ← document, Json.allOf, Json.mapM_id_eq_some.2 answers]
  cases b <;> rfl

theorem Session.Keeps.describes (hstart : start.Keeps start) (ht : start.Keeps t)
    (compiled : (start.table schema cls).2 = .ok table) :
    ∃ defs defined, ((t.schema schema).jsonSchema cls).2 = .ok (Description.document cls defs) ∧
      Describes start schema (Description.document cls defs) defined ∧ defined cls := by
  have hregistry : (t.schema schema).registry = start.registry schema := ht.registry schema
  have settled : (t.schema schema).cache.Settled (t.schema schema).registry :=
    hregistry ▸ ht.settled schema
  have compiled' : ((t.schema schema).table cls).2 = .ok table :=
    (Session.table_steady schema cls ht hstart).trans compiled
  obtain ⟨defs, made, covers⟩ := Schema.jsonSchema_covers settled compiled'
  rw [hregistry] at covers
  have flat : ∀ {c table}, (start.table schema c).2 = .ok table →
      (start.registry schema).Flattens c table := fun h => (hstart.settled schema).flattens h
  refine ⟨defs, fun c => c.text ∈ Dict.keys defs, made, ⟨?_, ?_⟩, ?_⟩
  · intro c table known compiled
    have registered : (start.registry schema).contains c = true :=
      ((hstart.settled schema).sound_of_compile compiled .refl).registered
    rw [Description.referenced?_definition (Registry.isPath_of_contains registered)]
    exact covers.get? known (flat compiled)
  · rintro c below known ⟨table, field, type, compiled, declared, hclass⟩
    have listed := Description.mem_references _ (Dict.mem_of_get? declared) hclass
    exact (covers.closed c table known (flat compiled) below listed).resolve_left (by simp)
  · exact (covers.queued cls List.mem_cons_self).resolve_left (by simp)

namespace BoundObject

/-- Where no hook runs, neither in the class nor in one that can be reached from it, the document of
what is exported of an object that is made from plain data passes the JSON Schema of the class,
whatever has been done before and since. -/
theorem export_validates (registries : List (Registry × Bool))
    (operations : List Session.Operation) (schema : SchemaId) (cls : ClassPath)
    (data : Dict String Value) (hookless : (Session.fresh registries).HooklessFrom schema cls)
    (keyed : Dict.isWellKeyed data = true) (plain : Value.unfitInEntries? data = none) :
    let s := (Session.fresh registries).run operations
    ∀ s₁ o, make schema cls data s = (s₁, .ok o) → ∀ s₂ v, o.exported s₁ = (s₂, .ok v) →
      ∃ d, (∀ t, v.toJson t = (t, .ok d)) ∧
        ∀ later, ∃ description,
          (((s₂.run later).schema schema).jsonSchema cls).2 = .ok description ∧
            description.Validates d := by
  intro s s₁ o made s₂ v exported
  have hstart := Session.keeps_fresh registries
  have hs := hstart.run operations
  have hs₁ := hs.evolves ((make_evolves schema cls data s).along made)
  have hs₂ := hs₁.evolves ((o.exported_evolves s₁).along exported)
  obtain ⟨table, compiled, rfl⟩ :=
    (builder_hookless hstart hs hookless.self).1 (congrArg Prod.snd made)
  have first : ExportsTo (Session.fresh registries) levelLimit ⟨schema, cls, table, data⟩ v :=
    ((exportWith_exporter _ levelLimit).steady _ hstart hs₁).trans (congrArg Prod.snd exported)
  have keyedObject : IsWellKeyed ⟨schema, cls, table, data⟩ := keyed
  refine ⟨v.document, Value.toJsonWith_document (first.fit hstart keyedObject), ?_⟩
  intro later
  obtain ⟨defs, defined, description, describes, known⟩ :=
    hstart.describes (hs₂.run later) compiled
  have passes := first.passes hstart describes known hookless compiled keyed plain
  exact ⟨_, description, Description.decides_document (describes.definition known compiled) passes⟩

end BoundObject

end

open LinkExample in
theorem link_export_validates :
    ∃ s₁ o s₂, BoundObject.make 0 ⟨"Link"⟩ draft session = (s₁, .ok o) ∧
      o.exported s₁ = (s₂, .ok (.map settledDraft)) ∧
      ∃ d, (Value.map settledDraft).toJson s₂ = (s₂, .ok d) ∧
        ∀ later, ∃ description,
          (((s₂.run later).schema 0).jsonSchema ⟨"Link"⟩).2 = .ok description ∧
            description.Validates d := by
  obtain ⟨d, encoded, valid⟩ := BoundObject.export_validates [(registry, false)] [] 0 ⟨"Link"⟩
    draft hookless (by rfl) (by rfl) _ _ draft_made _ _ draft_exported
  exact ⟨_, _, _, draft_made, draft_exported, d, encoded _, valid⟩

end LazyBinding
