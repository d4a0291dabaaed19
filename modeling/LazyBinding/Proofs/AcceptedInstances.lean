import LazyBinding.Proofs.Admission
import LazyBinding.Proofs.FieldClasses
import LazyBinding.Proofs.InheritedFields

/-!
# Accepted instances

A field takes an object for the name of its class only: the name has to descend from the class of
the field in the schema of the field, whatever schema the object is bound to. So an object has the
fields of that class if its own schema makes its class of the same parents, names and imports.
-/
namespace LazyBinding

open Relation (ReflTransGen)

/-! ### Outlines -/

/-- What a declaration contributes to the names of a class; an import may lead nowhere. -/
inductive Contribution where
  | name (field : String)
  | namesOf (target : Option ClassPath)
  deriving DecidableEq

/-- A class without the types of its fields. -/
structure ClassOutline where
  parent : Option ClassPath
  contributions : List Contribution
  deriving DecidableEq

namespace Registry

variable {r r' : Registry} {c p a : ClassPath} {ds ds' : List Declaration}
variable {table table' : FieldTable}

def contribution (r : Registry) (source : ClassPath) : Declaration → Contribution
  | .field name _ => .name name
  | .imports reference => .namesOf (r.resolve reference source)

def outline? (r : Registry) (c : ClassPath) : Option ClassOutline :=
  (r.get? c).map fun d =>
    ⟨(r.parent? d).toOption, d.declarations.map (r.contribution d.id)⟩

/-- The registries make a class, and all that it depends on in the first one, in the same way. -/
def OutlinesAlike (r r' : Registry) (c : ClassPath) : Prop :=
  ∀ k, ReflTransGen r.DependsOn c k → r.outline? k = r'.outline? k

theorem OutlinesAlike.refl (r : Registry) (c : ClassPath) : r.OutlinesAlike r c := fun _ _ => rfl

theorem OutlinesAlike.below (h : r.OutlinesAlike r' c) (reaches : ReflTransGen r.DependsOn c a) :
    r.OutlinesAlike r' a :=
  fun k hk => h k (reaches.trans hk)

theorem outlinesAlike_of_ids (registered : c ∈ r.ids)
    (same : ∀ k ∈ r.ids, r.outline? k = r'.outline? k) : r.OutlinesAlike r' c := by
  intro k reaches
  rcases ReflTransGen.cases_tail reaches with rfl | ⟨_, -, last⟩
  · exact same _ registered
  · exact same k (mem_ids_iff.2 (contains_iff.1 last.contains))

theorem outline?_eq_some_iff {o : ClassOutline} : r.outline? c = some o ↔
    ∃ d, r.get? c = some d ∧
      ⟨(r.parent? d).toOption, d.declarations.map (r.contribution c)⟩ = o := by
  rw [outline?, Option.map_eq_some_iff]
  constructor
  · rintro ⟨d, hd, same⟩
    rw [get?_id hd] at same
    exact ⟨d, hd, same⟩
  · rintro ⟨d, hd, same⟩
    refine ⟨d, hd, ?_⟩
    rw [get?_id hd]
    exact same

theorem OutlinesAlike.counterpart (h : r.OutlinesAlike r' c) {d : ClassDecl}
    (hd : r.get? c = some d) :
    ∃ d', r'.get? c = some d' ∧ (r'.parent? d').toOption = (r.parent? d).toOption ∧
      d'.declarations.map (r'.contribution c) = d.declarations.map (r.contribution c) := by
  have here : r'.outline? c = some _ := (h c .refl).symm.trans (outline?_eq_some_iff.2 ⟨d, hd, rfl⟩)
  obtain ⟨d', hd', same⟩ := outline?_eq_some_iff.1 here
  exact ⟨d', hd', congrArg ClassOutline.parent same, congrArg ClassOutline.contributions same⟩

theorem OutlinesAlike.hasParent (h : r.OutlinesAlike r' c) (hp : r.HasParent c p) :
    r'.HasParent c p := by
  obtain ⟨d, hd, inner, parent⟩ := hp
  obtain ⟨d', hd', same, -⟩ := h.counterpart hd
  refine ⟨d', hd', inner, ?_⟩
  rw [parent] at same
  cases parent' : r'.parent? d' with
  | error e => rw [parent'] at same; cases same
  | ok q => rw [parent'] at same; cases same; rfl

theorem OutlinesAlike.descends (h : r.OutlinesAlike r' c) (descends : r.Descends c a) :
    r'.Descends c a := by
  induction descends with
  | refl => exact .refl
  | tail descends hp ih => exact ih.tail ((h.below (Descends.dependsOn descends)).hasParent hp)

/-! ### Field names -/

theorem Replays.keys_eq {d : ClassDecl} (replays : r.Replays c ds table)
    (alike : r.OutlinesAlike r' c) (hd : r.get? c = some d)
    (own : ∀ x ∈ ds, x ∈ d.declarations)
    (same : ds'.map (r'.contribution c) = ds.map (r.contribution c))
    (replays' : r'.Replays c ds' table') : Dict.keys table = Dict.keys table' := by
  induction replays generalizing d ds' table' with
  | root =>
    cases List.map_eq_nil_iff.1 same
    rcases replays'.of_nil with ⟨-, rfl⟩ | ⟨p, -, hp, -⟩
    · rfl
    · exact absurd rfl hp.ne_root
  | @start c p parent table hp hparent _ ih =>
    cases List.map_eq_nil_iff.1 same
    have hp' := alike.hasParent hp
    have above := alike.below (.single (Or.inl hp))
    rcases replays'.of_nil with ⟨rfl, -⟩ | ⟨q, parent', hq, hparent', replays'⟩
    · exact absurd rfl hp.ne_root
    · cases hp'.unique hq
      obtain ⟨_, hd', -, same⟩ := above.counterpart hparent
      cases hparent'.symm.trans hd'
      exact ih above hparent (fun _ => id) same replays'
  | @field c ds name definition type table _ _ ih =>
    rw [List.map_append] at same
    obtain ⟨ds', last, rfl, earlier, hlast⟩ := List.map_eq_append_iff.1 same
    obtain ⟨x, rfl, hx⟩ := List.map_eq_singleton_iff.1 hlast
    cases x with
    | imports reference => cases hx
    | field name' definition' =>
      obtain rfl : name' = name := Contribution.name.inj hx
      obtain ⟨before, type', prior, -, rfl⟩ := replays'.of_field
      rw [Dict.keys_put, Dict.keys_put,
        ih alike hd (fun x hx => own x (List.mem_append_left _ hx)) earlier prior]
  | @imports c ds reference t imports table imported _ resolved himports _ ih ih' =>
    rw [List.map_append] at same
    obtain ⟨ds', last, rfl, earlier, hlast⟩ := List.map_eq_append_iff.1 same
    obtain ⟨x, rfl, hx⟩ := List.map_eq_singleton_iff.1 hlast
    cases x with
    | field name definition => cases hx
    | imports reference' =>
      have target : r'.resolve reference' c = some t := by
        rw [← resolved]
        exact Contribution.namesOf.inj hx
      obtain ⟨before, t', imports', imported', prior, resolved', himports', more, rfl⟩ :=
        replays'.of_imports
      cases target.symm.trans resolved'
      have below : r.OutlinesAlike r' t := alike.below
        (.single (Or.inr ⟨d, reference, hd, own _ (by simp), resolved⟩))
      obtain ⟨_, hd', -, same'⟩ := below.counterpart himports
      cases himports'.symm.trans hd'
      rw [Dict.keys_putAll, Dict.keys_putAll, ih' below himports (fun _ => id) same' more,
        ih alike hd (fun x hx => own x (List.mem_append_left _ hx)) earlier prior]

theorem Flattens.keys_eq (h : r.Flattens c table) (alike : r.OutlinesAlike r' c)
    (h' : r'.Flattens c table') : Dict.keys table = Dict.keys table' := by
  obtain ⟨d, hd, replays⟩ := h
  obtain ⟨d', hd', replays'⟩ := h'
  obtain ⟨_, hd'', -, same⟩ := alike.counterpart hd
  cases hd'.symm.trans hd''
  exact replays.keys_eq alike hd (fun _ => id) same replays'

theorem Flattens.of_root (h : r.Flattens .root table) : table = [] := by
  obtain ⟨d, hd, replays⟩ := h
  cases hd.symm.trans get?_root
  rcases replays.of_nil with ⟨-, rfl⟩ | ⟨p, -, hp, -⟩
  · rfl
  · exact absurd rfl hp.ne_root

/-- A class that is alike in another registry has there the fields of each class that it descends
from in the first one. -/
theorem Flattens.begins_with_alike (h : r.Flattens a table) (h' : r'.Flattens c table')
    (alike : r.OutlinesAlike r' c) (inherits : r.isA c a = true) :
    Dict.keys table <+: Dict.keys table' := by
  have descends : a = .root ∨ r.Descends c a := by
    obtain ⟨-, rfl | root | ⟨-, descends⟩⟩ := isA_iff.1 inherits
    · exact Or.inr .refl
    · exact Or.inl root
    · exact Or.inr descends
  rcases descends with rfl | descends
  · rw [h.of_root]
    exact List.nil_prefix
  · obtain ⟨above, flat, front⟩ := h'.begins_with_ancestor (alike.descends descends)
    rwa [h.keys_eq (alike.below (Descends.dependsOn descends)) flat]

end Registry

/-! ### What the check asks for -/

theorem Value.LevelsBelow.of_ofObject {n : Nat} {o : BoundObject} {w : Value}
    (below : (Value.ofObject o).LevelsBelow n w) : n = 0 ∧ w = .ofObject o := by
  cases below with
  | here => exact ⟨rfl, rfl⟩
  | item source => cases source

/-- An object that gets through a field of a class, under the array levels of the field, descends
by its name from the class. -/
theorem Passage.Admits.descends {s : Session} {p : Passage} {cls : ClassPath} {n : Nat} {v : Value}
    {o : BoundObject} (base : p.type.base = .object cls) (admitted : p.Admits s n v)
    (below : v.LevelsBelow n (.ofObject o)) : (s.registry p.schema).isA o.cls cls = true := by
  induction admitted with
  | null =>
    cases below with
    | item source => cases source
  | untyped untyped => cases untyped.symm.trans base
  | primitive primitive => cases primitive.symm.trans base
  | object base' descends =>
    cases base'.symm.trans base
    rw [Value.ofObject_inj below.of_ofObject.2]
    exact descends
  | data base' outward source made =>
    cases below
    cases source
  | array _ ih =>
    cases below with
    | item source inside further =>
      cases source
      exact ih _ inside further
  | listing keys _ ih =>
    cases below with
    | item source inside further =>
      rw [Value.items?, Dict.isListing_iff.1 keys] at source
      cases source
      exact ih _ inside further

namespace BoundObject

variable {registries : List (Registry × Bool)} {s : Session} {o : BoundObject}

theorem get_declared {field : String} (declared : field ∈ Dict.keys o.table) (s : Session)
    (cls : ClassPath) (name : String) :
    (o.get field s).result ≠ .error (.noSuchField cls name) := by
  obtain ⟨type, htype⟩ := Option.isSome_iff_exists.1 (Dict.has_iff.2 declared)
  have known : o.fieldType field = .ok type := by rw [fieldType, htype]
  rw [get, readWith, known]
  cases stored : o.slot? field with
  | none => simp
  | some v =>
    simp only [materializeSlot]
    split
    · simp
    · simp

/-- An object may stand in a field of a class of another schema. If its own schema makes its class
in the same way, types of fields aside, the object has every field that the class of the field
compiles to, in the same order and before all others, and can be asked for each of them. -/
theorem IsBuilt.accepted_declares (built : o.IsBuilt registries)
    (occurs : Session.Occurs registries s) {p : Passage} {cls : ClassPath} {table : FieldTable}
    (base : p.type.base = .object cls) (compiled : (s.table p.schema cls).2 = .ok table)
    (alike : (s.registry p.schema).OutlinesAlike (s.registry o.schema) o.cls) {v : Value}
    (below : v.LevelsBelow p.type.depth (.ofObject o))
    (accepted : (p.convert builder v s).error = none) :
    Dict.keys table <+: Dict.keys o.table ∧
      ∀ field ∈ Dict.keys table, ∀ t cls' name,
        (o.get field t).result ≠ .error (.noSuchField cls' name) := by
  have admitted := (Passage.convertLevel_eq_none_iff occurs.keeps occurs.keeps).1 accepted
  have inherits := admitted.descends base below
  have flat := occurs.keeps.flattens compiled
  have flat' := occurs.keeps.flattens (built.table occurs)
  simp only [occurs.keeps.registry] at inherits alike
  have front := flat.begins_with_alike flat' alike inherits
  refine ⟨front, ?_⟩
  intro field declared t
  exact get_declared (front.subset declared) t

end BoundObject

namespace ErrandExample

open BoundObject

/-- Where a courier goes. -/
def registry : Registry where
  declared := [
    ⟨⟨"Place"⟩, none, [.imports "Coded", .field "name" "string"], none⟩,
    ⟨⟨"City"⟩, some "Place", [.field "mayor" "string"], none⟩,
    ⟨⟨"Coded"⟩, none, [.field "code" "int"], none⟩,
    ⟨⟨"Errand"⟩, none, [.field "stops" "Place[]"], none⟩]
  wellFormed := by decide
  distinct := by decide

/-- The same places with other types, from elsewhere. -/
def gazetteer : Registry where
  declared := [
    ⟨⟨"Mayor"⟩, none, [.field "name" "string"], none⟩,
    ⟨⟨"Coded"⟩, none, [.field "code" "string"], none⟩,
    ⟨⟨"Place"⟩, some "LazyObject", [.imports "\\Coded", .field "name" ""], none⟩,
    ⟨⟨"City"⟩, some "\\Place", [.field "mayor" "Mayor"], none⟩,
    ⟨⟨"Errand"⟩, none, [.field "stops" "any[]"], none⟩]
  wellFormed := by decide
  distinct := by decide

/-- Something else by a name that is known. -/
def atlas : Registry where
  declared := [⟨⟨"Place"⟩, none, [.field "latitude" "float"], none⟩]
  wellFormed := by decide
  distinct := by decide

def registries : List (Registry × Bool) := [(registry, false), (gazetteer, true), (atlas, false)]

def session : Session := Session.fresh registries

theorem occurs : Session.Occurs registries session := ⟨[], .refl⟩

def placeTable : FieldTable := [("code", ⟨.primitive .int, 0⟩), ("name", ⟨.primitive .string, 0⟩)]

def cityTable : FieldTable :=
  [("code", ⟨.primitive .string, 0⟩), ("name", ⟨.any, 0⟩), ("mayor", ⟨.object ⟨"Mayor"⟩, 0⟩)]

def city : BoundObject := ⟨1, ⟨"City"⟩, cityTable, []⟩

def spot : BoundObject := ⟨2, ⟨"Place"⟩, [("latitude", ⟨.primitive .float, 0⟩)], []⟩

theorem compiled : (session.table 0 ⟨"Place"⟩).2 = .ok placeTable := by cbv

theorem city_built : city.IsBuilt registries := by
  have made : (construct 1 1 ⟨"City"⟩ [] session).2 = .ok city := by cbv
  exact .made occurs made

theorem spot_built : spot.IsBuilt registries := by
  have made : (construct 1 2 ⟨"Place"⟩ [] session).2 = .ok spot := by cbv
  exact .made occurs made

/-- The way to the stops of an errand. -/
def stops (direction : Direction) : Passage := ⟨0, "stops", ⟨.object ⟨"Place"⟩, 1⟩, direction⟩

end ErrandExample

open ErrandExample BoundObject in
theorem city_declares_place :
    city.IsBuilt registries ∧ (session.table 0 ⟨"Place"⟩).2 = .ok placeTable ∧
      (session.registry 0).OutlinesAlike (session.registry 1) ⟨"City"⟩ ∧
      (∀ direction,
        ((stops direction).convert builder (.array [.ofObject city]) session).error = none) ∧
      ∀ t cls name, (city.get "name" t).result ≠ .error (.noSuchField cls name) := by
  have alike : (session.registry 0).OutlinesAlike (session.registry 1) ⟨"City"⟩ :=
    Registry.outlinesAlike_of_ids (by decide) (by decide)
  have accepted : ∀ direction,
      ((stops direction).convert builder (.array [.ofObject city]) session).error = none := by
    intro direction
    cases direction <;> rfl
  have below : (Value.array [.ofObject city]).LevelsBelow 1 (.ofObject city) :=
    .item rfl List.mem_cons_self (.here _)
  obtain ⟨-, found⟩ :=
    city_built.accepted_declares occurs rfl compiled alike below (accepted .accept)
  exact ⟨city_built, compiled, alike, accepted, found "name" (by decide)⟩

open ErrandExample BoundObject in
theorem spot_lacks_name :
    ¬ ∀ (registries : List (Registry × Bool)) (s : Session) (o : BoundObject) (p : Passage)
      (cls : ClassPath) (table : FieldTable), Session.Occurs registries s → o.IsBuilt registries →
      p.type = ⟨.object cls, 0⟩ → (s.table p.schema cls).2 = .ok table →
      (p.convert builder (.ofObject o) s).error = none →
      ∀ field ∈ Dict.keys table, field ∈ Dict.keys o.table ∧
        (o.get field s).result ≠ .error (.noSuchField o.cls field) := by
  intro claim
  have found := claim registries session spot ⟨0, "stop", ⟨.object ⟨"Place"⟩, 0⟩, .accept⟩
    ⟨"Place"⟩ placeTable occurs spot_built rfl compiled rfl "name" (by decide)
  exact found.2 rfl

end LazyBinding
