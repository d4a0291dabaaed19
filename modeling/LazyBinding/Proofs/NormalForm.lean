import LazyBinding.Proofs.Admission
import LazyBinding.Proofs.CompleteExport
import Mathlib

/-!
# Exports are normal forms

Where no hook runs, an object that is made from plain data holds just that data, so all that an
export does is to convert. What it converts to is stable: a scalar that has been cast, a map that has
become an array, an empty array that has become an object and then a map all convert to themselves.
An object that is made from an export therefore exports to the same again.
-/
namespace LazyBinding

section

variable {start s t : Session} {p : Passage} {n : Nat} {v w : Value} {o x : BoundObject}
variable {E : BoundObject → Value → Prop}
variable {schema : SchemaId} {cls : ClassPath} {table : FieldTable} {data : Dict String Value}

namespace Session

/-- A field that the table of the first class declares holds objects of the second one. -/
def FieldRefers (s : Session) (schema : SchemaId) (cls below : ClassPath) : Prop :=
  ∃ table field type, (s.table schema cls).2 = .ok table ∧ Dict.get? table field = some type ∧
    type.class? = some below

theorem FieldRefers.of_outlet {field : String} {below : ClassPath}
    (compiled : (start.table schema cls).2 = .ok table)
    (base : (FieldTable.outlet schema table field).type.base = .object below) :
    start.FieldRefers schema cls below := by
  cases declared : Dict.get? table field with
  | none =>
    simp only [FieldTable.outlet, FieldTable.typeOf, declared] at base
    cases base
  | some type =>
    simp only [FieldTable.outlet, FieldTable.typeOf, declared, Option.getD_some] at base
    refine ⟨table, field, type, compiled, declared, ?_⟩
    rw [FieldType.class?, base]

/-- Neither the class nor one that can be reached from it over fields with objects has a hook. -/
def HooklessFrom (s : Session) (schema : SchemaId) (cls : ClassPath) : Prop :=
  ∀ below, Relation.ReflTransGen (s.FieldRefers schema) cls below →
    (s.registry schema).hook? below = none

theorem HooklessFrom.self (h : start.HooklessFrom schema cls) :
    (start.registry schema).hook? cls = none := h cls .refl

theorem HooklessFrom.field {below : ClassPath} (h : start.HooklessFrom schema cls)
    (refers : start.FieldRefers schema cls below) : start.HooklessFrom schema below :=
  fun c path => h c (.head refers path)

end Session

theorem Value.fit_items {items : List Value} (plain : v.unfit? = none)
    (source : v.items? = some items) : ∀ v ∈ items, v.unfit? = none := by
  obtain rfl | ⟨entries, rfl, -, rfl⟩ := Value.items?_cases source
  · exact Value.unfitInItems?_eq_none.1 plain
  · intro v hv
    obtain ⟨entry, hentry, rfl⟩ := List.mem_map.1 hv
    exact Value.unfitInEntries?_eq_none.1 plain entry hentry

theorem Value.wellKeyed_objectData (keyed : v.isWellKeyed = true)
    (source : v.objectData? = some data) : Dict.isWellKeyed data = true := by
  unfold objectData? at source
  split at source
  · cases source
    exact keyed
  · cases source
    rfl
  · cases source

namespace Passage

theorem Holds.made (base : p.type.base = .object cls) (outward : p.direction = .materialize)
    (plain : v.unfit? = none) (h : p.Holds start v x) :
    ∃ data, v.objectData? = some data ∧
      (BoundObject.builder p.schema cls data start).2 = .ok x := by
  obtain ⟨error, value⟩ := h
  cases source : v.objectData? with
  | none =>
    simp only [convertBase, base, outward] at error
    unfold materialize at error
    split at error
    · cases plain
    · cases source
    · cases source
    · cases error
    · cases error
  | some data =>
    rw [convertBase_data base outward source] at error value
    unfold construct at error value
    rcases made : BoundObject.builder p.schema cls data start with ⟨s, _ | o⟩
    · rw [made] at error
      cases error
    · rw [made] at value
      obtain rfl : o = x := Value.ofObject_inj value
      exact ⟨data, rfl, congrArg Prod.snd made⟩

theorem holds_of_made (base : p.type.base = .object cls) (outward : p.direction = .materialize)
    (source : v.objectData? = some data)
    (made : (BoundObject.builder p.schema cls data start).2 = .ok x) : p.Holds start v x := by
  have hmade : BoundObject.builder p.schema cls data start =
      ((BoundObject.builder p.schema cls data start).1, .ok x) := Prod.ext rfl made
  rw [Holds, convertBase_data base outward source, construct, hmade]
  exact ⟨rfl, rfl⟩

/-- What an export shows of plain data it shows as itself, if it does so below objects. -/
theorem Renders.again
    (again : ∀ cls, p.type.base = .object cls → ∀ v x u, v.unfit? = none → v.isWellKeyed = true →
      p.Holds start v x → E x u → ∃ y, p.Holds start u y ∧ E y u)
    (plain : v.unfit? = none) (keyed : v.isWellKeyed = true) (h : p.Renders start E n v w) :
    p.Renders start E n w w := by
  induction n generalizing v w with
  | zero =>
    by_cases hv : v = .null
    · subst hv
      obtain rfl := renders_null.1 h
      exact h
    · by_cases hw : w = .null
      · subst hw
        exact renders_null.2 rfl
      · rw [renders_zero hv, RendersBase] at h
        rw [renders_zero hw, RendersBase]
        cases base : p.type.base with
        | any =>
          rw [base] at h
          obtain ⟨untyped, rfl⟩ := h
          exact ⟨untyped, rfl⟩
        | primitive kind =>
          rw [base] at h
          exact toPrimitive_again h
        | object cls =>
          rw [base] at h
          obtain ⟨x, holds, hx⟩ := h
          exact again cls base v x w plain keyed holds hx
  | succ n ih =>
    by_cases hv : v = .null
    · subst hv
      obtain rfl := renders_null.1 h
      exact h
    · obtain ⟨items, ws, source, rfl, all⟩ := (renders_succ hv).1 h
      have plain := Value.fit_items plain source
      have keyed := Value.wellKeyed_items keyed source
      refine (renders_items rfl).2 ⟨ws, rfl, List.forall₂_same.2 ?_⟩
      exact forall_of_forall₂ all fun v hv w hw => ih (plain v hv) (keyed v hv) hw

end Passage

namespace BoundObject

/-- An object that holds what it exports to exports to the same. -/
theorem ExportsTo.again (hstart : start.Keeps start) {depth : Nat} {entries : Dict String Value}
    (hookless : start.HooklessFrom schema cls) (compiled : (start.table schema cls).2 = .ok table)
    (keyed : Dict.isWellKeyed data = true) (plain : Value.unfitInEntries? data = none)
    (h : ExportsTo start depth ⟨schema, cls, table, data⟩ (.map entries)) :
    ExportsTo start depth ⟨schema, cls, table, entries⟩ (.map entries) := by
  induction depth generalizing cls table data entries with
  | zero => cases h
  | succ depth ih =>
    obtain ⟨distinct, inner⟩ := Dict.isWellKeyed_iff.1 keyed
    obtain ⟨_, same, related⟩ := (exportsTo_iff hstart distinct).1 h
    cases same
    have distinct' : Dict.Distinct entries := by
      rw [Dict.Distinct, related.keys]
      exact distinct
    refine (exportsTo_iff hstart distinct').2 ⟨entries, rfl, List.forall₂_same.2 ?_⟩
    refine forall_of_forall₂ related ?_
    rintro ⟨field, v⟩ hentry ⟨_, w⟩ ⟨rfl, shows⟩
    refine ⟨rfl, shows.again ?_ (Value.unfitInEntries?_eq_none.1 plain _ hentry)
      (inner _ hentry)⟩
    -- What is shown of an object is a map, from which an object of the same class is made again.
    intro below base v x u plain keyed holds exported
    have hookless := hookless.field (.of_outlet compiled base)
    obtain ⟨data, source, made⟩ := holds.made base rfl plain
    obtain ⟨table, compiled, rfl⟩ :=
      (builder_hookless hstart hstart hookless.self).1 made
    obtain ⟨entries, rfl⟩ := exported.isMap hstart
    refine ⟨⟨schema, below, table, entries⟩, ?_, ?_⟩
    · refine Passage.holds_of_made base rfl rfl ?_
      exact (builder_hookless hstart hstart hookless.self).2 ⟨table, compiled, rfl⟩
    · exact ih hookless compiled (Value.wellKeyed_objectData keyed source)
        (Value.unfitInEntries?_eq_none.2 (Value.fit_objectData plain source)) exported

/-- Where no hook runs, neither in the class nor in one that can be reached from it, an object that
is made from plain data has an export that is stable: whenever an object of the class is made from
it, that succeeds, and the object exports to the same. -/
theorem export_stable (registries : List (Registry × Bool)) (operations : List Session.Operation)
    (schema : SchemaId) (cls : ClassPath) (data : Dict String Value)
    (hookless : (Session.fresh registries).HooklessFrom schema cls)
    (keyed : Dict.isWellKeyed data = true) (plain : Value.unfitInEntries? data = none) :
    let s := (Session.fresh registries).run operations
    ∀ s₁ o, make schema cls data s = (s₁, .ok o) →
      ∀ s₂ v, o.exported s₁ = (s₂, .ok v) →
        ∃ entries, v = .map entries ∧ ∀ later, ∃ s₃ o',
          make schema cls entries (s₂.run later) = (s₃, .ok o') ∧ (o'.exported s₃).2 = .ok v := by
  intro s s₁ o made s₂ v exported
  have hstart := Session.keeps_fresh registries
  have hs₁ := (hstart.run operations).evolves ((make_evolves schema cls data s).along made)
  have hs₂ := hs₁.evolves ((o.exported_evolves s₁).along exported)
  obtain ⟨table, compiled, rfl⟩ := (builder_hookless hstart (hstart.run operations)
    hookless.self).1 (congrArg Prod.snd made)
  have steady := (exportWith_exporter (Session.fresh registries) levelLimit).steady
  have first : ExportsTo (Session.fresh registries) levelLimit ⟨schema, cls, table, data⟩ v :=
    (steady _ hstart hs₁).trans (congrArg Prod.snd exported)
  obtain ⟨entries, rfl⟩ := first.isMap hstart
  refine ⟨entries, rfl, fun later => ?_⟩
  have ht := hs₂.run later
  have made' : (make schema cls entries (s₂.run later)).2 = .ok ⟨schema, cls, table, entries⟩ :=
    (builder_hookless hstart ht hookless.self).2 ⟨table, compiled, rfl⟩
  refine ⟨_, _, Prod.ext rfl made', ?_⟩
  have ht' := ht.evolves (make_evolves schema cls entries (s₂.run later))
  exact (steady _ ht' hstart).trans (first.again hstart hookless compiled keyed plain)

end BoundObject

end

namespace LinkExample

open BoundObject

/-- Data that changes in an export: a text to be cast, and an empty array to become an object. -/
def draft : Dict String Value := [("size", .str "3"), ("next", .array [])]

def settledDraft : Dict String Value := [("size", .int 3), ("next", .map [])]

theorem hookless : (Session.fresh [(registry, false)]).HooklessFrom 0 ⟨"Link"⟩ := by
  intro below _
  exact Registry.hook?_eq_none (by decide) below

theorem draft_exports :
    ExportsTo (Session.fresh [(registry, false)]) levelLimit ⟨0, ⟨"Link"⟩, table, draft⟩
      (.map settledDraft) := by
  have hstart := Session.keeps_fresh [(registry, false)]
  have empty : ExportsTo (Session.fresh [(registry, false)]) 1 ⟨0, ⟨"Link"⟩, table, []⟩
      (.map []) :=
    (exportsTo_iff hstart Dict.distinct_nil).2 ⟨[], rfl, .nil⟩
  have two : ExportsTo (Session.fresh [(registry, false)]) 2 ⟨0, ⟨"Link"⟩, table, draft⟩
      (.map settledDraft) := by
    have keyed : Dict.isWellKeyed draft = true := by rfl
    refine (exportsTo_iff hstart (Dict.isWellKeyed_iff.1 keyed).1).2 ⟨settledDraft, rfl, ?_⟩
    refine .cons ⟨rfl, ?_⟩ (.cons ⟨rfl, ?_⟩ .nil)
    · exact (Passage.renders_zero (by simp)).2 (by rfl)
    · refine (Passage.renders_zero (by simp)).2 ⟨_, ?_, empty⟩
      refine Passage.holds_of_made rfl rfl rfl ?_
      exact (builder_hookless hstart hstart hookless.self).2 ⟨table, compiled, rfl⟩
  exact two.mono hstart (Nat.le_self_pow (by decide) 2)

/-- What making the object from the draft leaves, and what exporting it leaves then. -/
def draftMade : Session := (BoundObject.make 0 ⟨"Link"⟩ draft session).1

def draftExported : Session := (exported ⟨0, ⟨"Link"⟩, table, draft⟩ draftMade).1

theorem draft_made :
    BoundObject.make 0 ⟨"Link"⟩ draft session = (draftMade, .ok ⟨0, ⟨"Link"⟩, table, draft⟩) :=
  Prod.ext rfl (made draft)

theorem draft_exported :
    exported ⟨0, ⟨"Link"⟩, table, draft⟩ draftMade = (draftExported, .ok (.map settledDraft)) := by
  have hstart := Session.keeps_fresh [(registry, false)]
  have hmade : (Session.fresh [(registry, false)]).Keeps draftMade :=
    (hstart.run []).evolves (make_evolves 0 ⟨"Link"⟩ draft session)
  have steady := (exportWith_exporter (Session.fresh [(registry, false)]) levelLimit).steady
    ⟨0, ⟨"Link"⟩, table, draft⟩
  exact Prod.ext rfl ((steady hmade hstart).trans draft_exports)

end LinkExample

open LinkExample in
theorem link_export_stable :
    ∃ s₁ o s₂, BoundObject.make 0 ⟨"Link"⟩ draft session = (s₁, .ok o) ∧
      o.exported s₁ = (s₂, .ok (.map settledDraft)) ∧ ∀ later, ∃ s₃ o',
        BoundObject.make 0 ⟨"Link"⟩ settledDraft (s₂.run later) = (s₃, .ok o') ∧
          (o'.exported s₃).2 = .ok (.map settledDraft) := by
  obtain ⟨_, same, stable⟩ := BoundObject.export_stable [(registry, false)] [] 0 ⟨"Link"⟩ draft
    hookless (by rfl) (by rfl) _ _ draft_made _ _ draft_exported
  cases same
  exact ⟨_, _, _, draft_made, draft_exported, stable⟩

end LazyBinding
