import LazyBinding.Proofs.CompleteExport
import Mathlib

/-!
# The classes of fields

A class only compiles if everything compiles that it refers to. So the classes of the fields of an
object compile as long as the session lasts, whatever is forgotten or fails to compile meanwhile,
and data in such a field fails to become an object only if the hook of the class fails.
-/
namespace LazyBinding

open Relation (ReflTransGen)

variable {start s t : Session} {p : Passage} {n : Nat} {v : Value} {o o' : BoundObject}
variable {registries : List (Registry × Bool)}

/-- A state of a session between two operations or in the midst of one. -/
def Session.Occurs (registries : List (Registry × Bool)) (s : Session) : Prop :=
  ∃ operations, ((fresh registries).run operations).Evolves s

theorem Session.Occurs.keeps (h : Session.Occurs registries s) : (fresh registries).Keeps s := by
  obtain ⟨operations, evolves⟩ := h
  exact ((keeps_fresh registries).run operations).evolves evolves

theorem Session.Occurs.evolves (h : Session.Occurs registries s) (next : s.Evolves t) :
    Session.Occurs registries t := by
  obtain ⟨operations, evolves⟩ := h
  exact ⟨operations, evolves.trans next⟩

/-! ### Objects that have been built -/

namespace BoundObject

variable {schema : SchemaId} {cls : ClassPath} {data : Dict String Value}

/-- An object has been made from data, by itself or inside another one, and may have been used and
assigned new data since. -/
inductive IsBuilt (registries : List (Registry × Bool)) : BoundObject → Prop where
  | made {s : Session} {depth : Nat} {schema : SchemaId} {cls : ClassPath}
      {data : Dict String Value} {o : BoundObject} (occurs : Session.Occurs registries s)
      (made : (construct depth schema cls data s).2 = .ok o) : IsBuilt registries o
  | revised {o o' : BoundObject} (built : IsBuilt registries o) (next : o.Revises o') :
      IsBuilt registries o'
  | assigned {o : BoundObject} {data : Dict String Value} {s : Session} (depth : Nat)
      (built : IsBuilt registries o) (occurs : Session.Occurs registries s) :
      IsBuilt registries (runHook depth { o with data := data } s).object

theorem isBuilt_of_makeValidated (occurs : Session.Occurs registries s) {strict : Bool}
    (made : (makeValidated strict schema cls data s).2 = .ok o) : o.IsBuilt registries := by
  unfold makeValidated at made
  split at made
  · cases made
  · next s' o' hmake =>
    have built : o'.IsBuilt registries := by
      refine .made occurs (?_ : (construct levelLimit schema cls data s).2 = .ok o')
      exact congrArg Prod.snd hmake
    by_cases checked : strict = true
    · rw [if_pos checked] at made
      have revises := o'.validateWith_revises builder levelLimit s'
      dsimp only at made
      cases valid : (o'.validate s').result with
      | error e =>
        rw [valid] at made
        cases made
      | ok _ =>
        rw [valid] at made
        cases made
        exact built.revised revises
    · rw [if_neg checked] at made
      cases made
      exact built

theorem isBuilt_of_ofDecoded (occurs : Session.Occurs registries s)
    {decoded : Except ObjectError Value}
    (made : (ofDecoded schema cls decoded s).2 = .ok o) : o.IsBuilt registries := by
  unfold ofDecoded at made
  split at made
  · cases made
  · exact .made occurs made
  · exact .made occurs made
  · cases made

theorem isBuilt_of_ofDocument (occurs : Session.Occurs registries s) {document : Json}
    (made : (ofDocument schema cls document s).2 = .ok o) : o.IsBuilt registries := by
  unfold ofDocument at made
  split at made
  · exact isBuilt_of_makeValidated occurs made
  · cases made

theorem IsBuilt.isBound (built : o.IsBuilt registries) : o.IsBound (Session.fresh registries) := by
  induction built with
  | made occurs made => exact construct_isBound occurs.keeps made
  | revised _ next ih => exact ih.revised next
  | assigned depth _ occurs ih => exact runHook_isBound depth (ih.revised ⟨_, rfl⟩) occurs.keeps

theorem IsBuilt.table (built : o.IsBuilt registries) (occurs : Session.Occurs registries s) :
    (s.table o.schema o.cls).2 = .ok o.table :=
  built.isBound.table occurs.keeps

end BoundObject

theorem Session.Keeps.compiled (hs : start.Keeps s) {schema : SchemaId} {cls : ClassPath}
    {table : FieldTable} (found : (s.table schema cls).2 = .ok table) :
    ((s.schema schema).cache.compile (start.registry schema) cls).2 = .ok table := by
  rw [← hs.registry schema]
  exact found

theorem Session.Keeps.flattens (hs : start.Keeps s) {schema : SchemaId} {cls : ClassPath}
    {table : FieldTable} (found : (s.table schema cls).2 = .ok table) :
    (start.registry schema).Flattens cls table :=
  (hs.settled schema).flattens (hs.compiled found)

theorem Session.Keeps.field_class {schema : SchemaId} {cls target : ClassPath} {table : FieldTable}
    (hs : start.Keeps s) (ht : start.Keeps t) (compiled : (s.table schema cls).2 = .ok table)
    {entry : String × FieldType} (declared : entry ∈ table)
    (typed : entry.2.class? = some target) :
    ∃ table', (t.table schema target).2 = .ok table' := by
  have settled := hs.settled schema
  have settled' := ht.settled schema
  have known := hs.compiled compiled
  have reached := (settled.flattens known).refersTo declared typed
  obtain ⟨table', compiled'⟩ := settled'.compile_of_sound fun c hc =>
    settled.sound_of_compile known (reached.to_reflTransGen.trans hc)
  refine ⟨table', ?_⟩
  rw [← ht.registry schema] at compiled'
  exact compiled'

/-! ### Why data does not become an object -/

namespace Passage

variable {f : String} {c : ClassPath} {e : ObjectError}

/-- The data that a value offers in a field of a class does not become an object of the class. -/
structure Rejects (p : Passage) (s : Session) (v : Value) (f : String) (c : ClassPath)
    (e : ObjectError) : Prop where
  typed : p.type.base = .object c
  field : f = p.field
  failed : ∃ data, v.objectData? = some data ∧ (BoundObject.builder p.schema c data s).2 = .error e

theorem construct_nested {cls : ClassPath} {data : Dict String Value}
    (failed : (p.construct BoundObject.builder cls v data s).error =
      some (.nestedConstruction f c e)) :
    f = p.field ∧ c = cls ∧ (BoundObject.builder p.schema cls data s).2 = .error e := by
  unfold construct at failed
  split at failed
  · cases failed
  · next made =>
    cases failed
    exact ⟨rfl, rfl, congrArg Prod.snd made⟩

theorem construct_failed {cls : ClassPath} {data : Dict String Value}
    (failed : (BoundObject.builder p.schema cls data s).2 = .error e) :
    (p.construct BoundObject.builder cls v data s).error =
      some (.nestedConstruction p.field cls e) := by
  have hbuild : BoundObject.builder p.schema cls data s =
      ((BoundObject.builder p.schema cls data s).1, .error e) := Prod.ext rfl failed
  unfold construct
  rw [hbuild]

theorem construct_made {cls : ClassPath} {data : Dict String Value}
    (made : (BoundObject.builder p.schema cls data s).2 = .ok o) :
    (p.construct BoundObject.builder cls v data s).error = none ∧
      (p.construct BoundObject.builder cls v data s).value = .ofObject o := by
  have hbuild : BoundObject.builder p.schema cls data s =
      ((BoundObject.builder p.schema cls data s).1, .ok o) := Prod.ext rfl made
  unfold construct
  rw [hbuild]
  exact ⟨rfl, rfl⟩

theorem checkInstance_ne_nested (cls actual : ClassPath) :
    p.checkInstance s cls actual ≠ some (.nestedConstruction f c e) := by
  unfold checkInstance
  split <;> simp

theorem toPrimitive_ne_nested (kind : Primitive) (v : Value) :
    (p.toPrimitive kind v).2 ≠ some (.nestedConstruction f c e) := by
  unfold toPrimitive
  split
  case h_5 =>
    by_cases sequence : v.isSequence = true
    · simp [sequence]
    · rw [if_neg sequence]
      split <;> simp
  all_goals simp

theorem checkUntyped_ne_nested (v : Value) :
    p.checkUntyped v ≠ some (.nestedConstruction f c e) := by
  unfold checkUntyped
  split <;> simp

theorem materialize_nested {cls : ClassPath}
    (failed : (p.materialize BoundObject.builder cls v s).error =
      some (.nestedConstruction f c e)) :
    f = p.field ∧ c = cls ∧ ∃ data, v.objectData? = some data ∧
      (BoundObject.builder p.schema cls data s).2 = .error e := by
  unfold materialize at failed
  split at failed
  · exact absurd failed (checkInstance_ne_nested _ _)
  · next entries =>
    obtain ⟨hf, hc, hbuild⟩ := construct_nested failed
    exact ⟨hf, hc, entries, rfl, hbuild⟩
  · obtain ⟨hf, hc, hbuild⟩ := construct_nested failed
    exact ⟨hf, hc, [], rfl, hbuild⟩
  · cases failed
  · cases failed

theorem convertBase_rejects
    (failed : (p.convertBase BoundObject.builder v s).error = some (.nestedConstruction f c e)) :
    p.Rejects s v f c e := by
  cases base : p.type.base with
  | any =>
    simp only [convertBase, base] at failed
    exact absurd failed (checkUntyped_ne_nested v)
  | primitive kind =>
    simp only [convertBase, base] at failed
    exact absurd failed (toPrimitive_ne_nested kind v)
  | object cls =>
    simp only [convertBase, base] at failed
    cases direction : p.direction with
    | materialize =>
      rw [direction] at failed
      obtain ⟨hf, rfl, hbuild⟩ := materialize_nested failed
      exact ⟨base, hf, hbuild⟩
    | accept =>
      rw [direction] at failed
      unfold accept at failed
      dsimp only at failed
      split at failed
      · exact absurd failed (checkInstance_ne_nested _ _)
      · cases failed

theorem convertItems_failed {item : Value → Session → Converted} {items : List Value}
    {e : ConversionError} (he : ∀ v (s : Session), s.Evolves (item v s).session)
    (failed : (convertItems item items s).error = some e) :
    ∃ v ∈ items, ∃ t, s.Evolves t ∧ (item v t).error = some e := by
  induction items generalizing s with
  | nil => cases failed
  | cons v rest ih =>
    simp only [convertItems] at failed
    cases first : (item v s).error with
    | some e' =>
      rw [first] at failed
      cases failed
      exact ⟨v, List.mem_cons_self, s, .refl, first⟩
    | none =>
      rw [first] at failed
      obtain ⟨w, hw, t, evolves, hfails⟩ := ih failed
      exact ⟨w, List.mem_cons_of_mem v hw, t, (he v s).trans evolves, hfails⟩

/-- A conversion only fails to construct an object where data stands below the array levels. -/
theorem convertLevel_rejects
    (failed : (p.convertLevel BoundObject.builder n v s).error =
      some (.nestedConstruction f c e)) :
    ∃ u t, v.LevelsBelow n u ∧ s.Evolves t ∧ p.Rejects t u f c e := by
  induction n generalizing v s with
  | zero =>
    have nonnull : v ≠ .null := by
      rintro rfl
      simp [convertLevel] at failed
    rw [convertLevel_zero nonnull] at failed
    exact ⟨v, s, .here v, .refl, convertBase_rejects failed⟩
  | succ n ih =>
    cases source : v.items? with
    | none =>
      have nonnull : v ≠ .null := by
        rintro rfl
        simp [convertLevel] at failed
      obtain ⟨e', shape, stuck⟩ := p.convertLevel_noItems n nonnull source
      rw [stuck] at failed
      exact absurd (Option.some.inj failed) (shape f c e)
    | some items =>
      rw [convertLevel_items source, convertLevel_array] at failed
      have evolves := p.convertLevel_evolves BoundObject.builder_evolves n
      obtain ⟨w, hw, t, before, hfails⟩ := convertItems_failed evolves failed
      obtain ⟨u, t', below, after, rejects⟩ := ih hfails
      exact ⟨u, t', .item source hw below, before.trans after, rejects⟩

end Passage

/-! ### The guarantee -/

namespace BoundObject

/-- The hook that a class runs, its own or that of its nearest ancestor with one, fails on the
object that has just been bound to data. -/
def HookFails (s : Session) (schema : SchemaId) (cls : ClassPath) (data : Dict String Value)
    (e : ObjectError) : Prop :=
  ∃ hook table, (s.registry schema).hook? cls = some hook ∧
    (s.table schema cls).2 = .ok table ∧
    let o : BoundObject := ⟨schema, cls, table, data⟩
    ((hook o).run (runHook (levelLimit - 1)) (levelLimit - 1) o s).result = .error e

theorem hookFails_of_builder (hs : start.Keeps s) {schema : SchemaId} {cls : ClassPath}
    {data : Dict String Value} {table : FieldTable} {e : ObjectError}
    (compiled : (s.table schema cls).2 = .ok table)
    (failed : (builder schema cls data s).2 = .error e) : HookFails s schema cls data e := by
  obtain ⟨limit, hlimit⟩ := Nat.exists_eq_add_of_le' (show 1 ≤ levelLimit by decide)
  have htable : s.table schema cls = ((s.table schema cls).1, .ok table) := Prod.ext rfl compiled
  have hs' : start.Keeps (s.table schema cls).1 := hs.table schema cls
  have steady := runHook_steady start (limit + 1) ⟨schema, cls, table, data⟩ hs' hs
  have result := congrArg Prod.snd steady
  dsimp only [Effect.outcome] at result
  rw [builder, hlimit, construct, HookRunner.builder, htable] at failed
  simp only [result] at failed
  cases outcome : (runHook (limit + 1) ⟨schema, cls, table, data⟩ s).result with
  | ok _ =>
    rw [outcome] at failed
    cases failed
  | error e' =>
    rw [outcome] at failed
    cases failed
    cases hhook : (s.registry schema).hook? cls with
    | none =>
      rw [runHook_hookless hhook] at outcome
      cases outcome
    | some hook =>
      rw [runHook_succ hhook] at outcome
      refine ⟨hook, table, hhook, compiled, ?_⟩
      rw [hlimit, Nat.add_sub_cancel]
      exact outcome

section

variable {field : String} {type : FieldType} {cls : ClassPath}

theorem IsBuilt.class_compiles (built : o.IsBuilt registries)
    (occurs : Session.Occurs registries s) (declared : Dict.get? o.table field = some type)
    (typed : type.class? = some cls) : ∃ table, (s.table o.schema cls).2 = .ok table := by
  have compiled := built.table occurs
  exact occurs.keeps.field_class occurs.keeps compiled (Dict.mem_of_get? declared) typed

theorem base_of_class? (typed : type.class? = some cls) : type.base = .object cls := by
  unfold FieldType.class? at typed
  split at typed
  · next base =>
    cases typed
    exact base
  · cases typed

/-- Where the class of a field compiles, data in the field, below its array levels, only fails to
become an object if the hook of the class fails on it. -/
theorem hookFails_of_convert (occurs : Session.Occurs registries s)
    (declared : Dict.get? o.table field = some type) (base : type.base = .object cls)
    {table : FieldTable} (compiled : (s.table o.schema cls).2 = .ok table) {f : String}
    {c : ClassPath} {e : ObjectError} (failed : ((o.outlet field).convert builder v s).error =
      some (.nestedConstruction f c e)) :
    f = field ∧ c = cls ∧ ∃ u data, v.LevelsBelow type.depth u ∧ u.objectData? = some data ∧
      HookFails s o.schema cls data e := by
  rw [outlet_eq declared] at failed
  obtain ⟨u, t, below, evolves, rejects⟩ := Passage.convertLevel_rejects failed
  obtain ⟨data, source, hbuild⟩ := rejects.failed
  have same : c = cls := by
    have := rejects.typed.symm.trans base
    cases this
    rfl
  subst same
  -- The data was rejected in the midst of the conversion, and would be rejected at its start too.
  have steady := builder_steady (Session.fresh registries) o.schema c data
    (occurs.evolves evolves).keeps occurs.keeps
  have hbuild' : (builder o.schema c data s).2 = .error e := steady.symm.trans hbuild
  exact ⟨rejects.field, rfl, u, data, below, source,
    hookFails_of_builder occurs.keeps compiled hbuild'⟩

theorem convert_data (occurs : Session.Occurs registries s)
    (declared : Dict.get? o.table field = some type) (base : type.base = .object cls)
    {table : FieldTable} (compiled : (s.table o.schema cls).2 = .ok table) (flat : type.depth = 0)
    {data : Dict String Value} (source : v.objectData? = some data) :
    (∃ x, (make o.schema cls data s).2 = .ok x ∧ ((o.outlet field).convert builder v s).error = none ∧
      ((o.outlet field).convert builder v s).value = .ofObject x) ∨
    ∃ e, HookFails s o.schema cls data e ∧ ((o.outlet field).convert builder v s).error =
      some (.nestedConstruction field cls e) := by
  have houtlet := outlet_eq declared
  have nonnull : v ≠ .null := by
    rintro rfl
    cases source
  have converted : (o.outlet field).convert builder v s =
      (o.outlet field).construct builder cls v data s := by
    rw [houtlet, Passage.convert, flat, Passage.convertLevel_zero nonnull]
    exact Passage.convertBase_data base rfl source s
  rw [converted, houtlet]
  cases made : (builder o.schema cls data s).2 with
  | ok x => exact Or.inl ⟨x, made, Passage.construct_made made⟩
  | error e =>
    have hook := hookFails_of_builder occurs.keeps compiled made
    exact Or.inr ⟨e, hook, Passage.construct_failed made⟩

/-- As long as the session lasts, whatever is forgotten or fails to compile meanwhile, the class of
a field of an object compiles. Data in the field, below its array levels, only fails to become an
object if the hook of the class fails on it; and data in a field without array levels becomes the
object that is made of it or fails with what the hook says. -/
theorem IsBuilt.fields_guaranteed (built : o.IsBuilt registries)
    (occurs : Session.Occurs registries s) (declared : Dict.get? o.table field = some type)
    (typed : type.class? = some cls) :
    (∃ table, (s.table o.schema cls).2 = .ok table) ∧
    (∀ v f c e, ((o.outlet field).convert builder v s).error = some (.nestedConstruction f c e) →
      f = field ∧ c = cls ∧ ∃ u data, v.LevelsBelow type.depth u ∧ u.objectData? = some data ∧
        HookFails s o.schema cls data e) ∧
    (type.depth = 0 → ∀ v data, v.objectData? = some data →
      (∃ x, (make o.schema cls data s).2 = .ok x ∧ ((o.outlet field).convert builder v s).error = none ∧
        ((o.outlet field).convert builder v s).value = .ofObject x) ∨
      ∃ e, HookFails s o.schema cls data e ∧
        ((o.outlet field).convert builder v s).error =
          some (.nestedConstruction field cls e)) := by
  obtain ⟨table, compiled⟩ := built.class_compiles occurs declared typed
  have base : type.base = .object cls := base_of_class? typed
  refine ⟨⟨table, compiled⟩, ?_, ?_⟩
  · intro v f c e failed
    exact hookFails_of_convert occurs declared base compiled failed
  · intro flat v data source
    exact convert_data occurs declared base compiled flat source

end

end BoundObject

namespace CrateExample

open BoundObject

/-- A class with a field of a class whose hook always fails. -/
def registry : Registry where
  declared := [⟨⟨"Crate"⟩, none, [.field "lid" "Lid"], none⟩,
    ⟨⟨"Lid"⟩, none, [], some fun o => .finish o (some (.other ["no lid"]))⟩]
  wellFormed := by decide
  distinct := by decide

def table : FieldTable := [("lid", ⟨.object ⟨"Lid"⟩, 0⟩)]

def crate : BoundObject := ⟨0, ⟨"Crate"⟩, table, [("lid", .map [])]⟩

/-- Between the making of the object and its use the cache is cleared, and a class does not
compile. -/
def later : Session :=
  (Session.fresh [(registry, false)]).run
    [.make false 0 ⟨"Crate"⟩ [("lid", .map [])], .clearCache 0, .compile 0 ⟨"Cover"⟩]

theorem first_occurs : Session.Occurs [(registry, false)] (Session.fresh [(registry, false)]) :=
  ⟨[], .refl⟩

theorem later_occurs : Session.Occurs [(registry, false)] later := ⟨_, .refl⟩

theorem crate_built : crate.IsBuilt [(registry, false)] := by
  have made : (construct 1 0 ⟨"Crate"⟩ [("lid", .map [])]
      (Session.fresh [(registry, false)])).2 = .ok crate := by cbv
  exact .made first_occurs made

theorem lid_fails :
    (builder 0 ⟨"Lid"⟩ [] later).2 = .error (.hookFailure ⟨"Lid"⟩ ["no lid"]) := by
  obtain ⟨limit, hlimit⟩ := Nat.exists_eq_add_of_le' (show 1 ≤ levelLimit by decide)
  have steady := builder_steady _ 0 ⟨"Lid"⟩ [] later_occurs.keeps first_occurs.keeps
  refine steady.trans ?_
  dsimp only
  rw [builder, hlimit]
  cbv

end CrateExample

open CrateExample BoundObject in
theorem crate_fields_guaranteed :
    (∃ table, (later.table 0 ⟨"Lid"⟩).2 = .ok table) ∧
      ((crate.outlet "lid").convert builder (.map []) later).error =
        some (.nestedConstruction "lid" ⟨"Lid"⟩ (.hookFailure ⟨"Lid"⟩ ["no lid"])) ∧
      HookFails later 0 ⟨"Lid"⟩ [] (.hookFailure ⟨"Lid"⟩ ["no lid"]) := by
  have declared : Dict.get? crate.table "lid" = some ⟨.object ⟨"Lid"⟩, 0⟩ := rfl
  have failed : ((crate.outlet "lid").convert builder (.map []) later).error =
      some (.nestedConstruction "lid" ⟨"Lid"⟩ (.hookFailure ⟨"Lid"⟩ ["no lid"])) :=
    Passage.construct_failed lid_fails
  obtain ⟨compiles, fails, -⟩ := crate_built.fields_guaranteed later_occurs declared rfl
  obtain ⟨-, -, u, data, below, source, hook⟩ := fails _ _ _ _ failed
  cases below
  cases source
  exact ⟨compiles, failed, hook⟩

end LazyBinding
