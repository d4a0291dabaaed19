import LazyBinding.Proofs.Acceptance
import LazyBinding.Proofs.Inheritance
import Mathlib

/-!
# Inherited fields

A table under construction only ever grows at its end: a field that is set again and an import that
brings a known name leave the order of the names alone. Since a class starts from the table of its
parent, the names of any class above it come first in its table, in the order that they have there.
-/
namespace LazyBinding

open Relation (ReflTransGen)

namespace Registry

variable {r : Registry} {c p a : ClassPath} {ds : List Declaration} {table : FieldTable}

/-- At every declaration of a class, the names of its parent's fields stand at the front of its
table. -/
theorem Replays.begins_with_parent (h : r.Replays c ds table) (hp : r.HasParent c p) :
    ∃ above, r.Flattens p above ∧ Dict.keys above <+: Dict.keys table := by
  induction h with
  | root => exact absurd rfl hp.ne_root
  | start hp' hd replays =>
    cases hp.unique hp'
    exact ⟨_, ⟨_, hd, replays⟩, List.prefix_rfl⟩
  | field _ _ ih =>
    obtain ⟨above, flat, front⟩ := ih hp
    exact ⟨above, flat, front.trans (Dict.keys_prefix_put _ _ _)⟩
  | imports _ _ _ _ ih =>
    obtain ⟨above, flat, front⟩ := ih hp
    exact ⟨above, flat, front.trans (Dict.keys_prefix_putAll _ _)⟩

theorem Flattens.begins_with_ancestor (h : r.Flattens c table) (descends : r.Descends c a) :
    ∃ above, r.Flattens a above ∧ Dict.keys above <+: Dict.keys table := by
  induction descends using ReflTransGen.head_induction_on generalizing table with
  | refl => exact ⟨table, h, List.prefix_rfl⟩
  | head hp _ ih =>
    obtain ⟨d, -, replays⟩ := h
    obtain ⟨middle, flat, front⟩ := replays.begins_with_parent hp
    obtain ⟨above, flat', front'⟩ := ih flat
    exact ⟨above, flat', front'.trans front⟩

theorem Replays.declared {name definition : String} (h : r.Replays c ds table)
    (hmem : .field name definition ∈ ds) : name ∈ Dict.keys table := by
  induction h with
  | root => cases hmem
  | start => cases hmem
  | @field _ _ name' _ type _ _ _ ih =>
    rcases List.mem_append.1 hmem with earlier | last
    · exact Dict.mem_keys_put.2 (Or.inr (ih earlier))
    · obtain ⟨rfl, -⟩ := Declaration.field.inj (List.mem_singleton.1 last)
      exact Dict.mem_keys_put.2 (Or.inl rfl)
  | imports _ _ _ _ ih =>
    rcases List.mem_append.1 hmem with earlier | last
    · exact (Dict.keys_prefix_putAll _ _).subset (ih earlier)
    · cases List.mem_singleton.1 last

end Registry

namespace SchemaCache

/-- A class that inherits from another one has all fields of that class, and they come first and in
the same order, whatever either of them overrides or imports. If the one compiles then so does the
other, in any cache. -/
theorem inherited_fields_first (r : Registry) (calls : List Call) {cls ancestor : ClassPath}
    {table : FieldTable} (inherits : r.isA cls ancestor = true)
    (compiled : ((after r calls).compile r cls).2 = .ok table) :
    ∃ above, (∀ others, ((after r others).compile r ancestor).2 = .ok above) ∧
      Dict.keys above <+: Dict.keys table ∧
      ∀ d name definition, r.get? ancestor = some d →
        .field name definition ∈ d.declarations → Dict.has table name = true := by
  have settled := settled_after r calls
  have sound := fun c => settled.sound_of_compile compiled (c := c)
  have descends : r.Descends cls ancestor :=
    (Registry.isA_iff_of_rooted (sound cls .refl).rooted).1 inherits
  have below : ReflTransGen r.RefersTo cls ancestor := Registry.RefersTo.of_dependsOn
    descends.dependsOn
  obtain ⟨above, flat, front⟩ := (settled.flattens compiled).begins_with_ancestor descends
  refine ⟨above, fun others => ?_, front, fun d name definition hd hmem => ?_⟩
  · have settled' := settled_after r others
    obtain ⟨above', compiled'⟩ := settled'.compile_of_sound fun c hc => sound c (below.trans hc)
    rw [compiled', (settled'.flattens compiled').unique flat]
  · obtain ⟨d', hd', replays⟩ := flat
    cases hd.symm.trans hd'
    exact Dict.has_iff.2 (front.subset (replays.declared hmem))

end SchemaCache

namespace ParcelExample

/-- A parcel sets the type of a field that it inherits, and imports a name that it has already. -/
def registry : Registry where
  declared := [
    ⟨⟨"Stamped"⟩, none, [.field "weight" "float", .field "stamp" "string"], none⟩,
    ⟨⟨"Item"⟩, none, [.field "label" "string", .field "weight" "int", .field "parts" "Parcel[]"],
      none⟩,
    ⟨⟨"Parcel"⟩, some "Item", [.imports "Stamped", .field "label" ""], none⟩]
  wellFormed := by decide
  distinct := by decide

def item : FieldTable :=
  [("label", ⟨.primitive .string, 0⟩), ("weight", ⟨.primitive .int, 0⟩),
    ("parts", ⟨.object ⟨"Parcel"⟩, 1⟩)]

def parcel : FieldTable :=
  [("label", ⟨.any, 0⟩), ("weight", ⟨.primitive .float, 0⟩), ("parts", ⟨.object ⟨"Parcel"⟩, 1⟩),
    ("stamp", ⟨.primitive .string, 0⟩)]

/-- What the import needs is cached again, and a compilation has failed. -/
def calls : List SchemaCache.Call :=
  [.compile ⟨"Item"⟩, .clear, .compile ⟨"Stamped"⟩, .compile ⟨"Letter"⟩]

end ParcelExample

open ParcelExample SchemaCache in
theorem parcel_inherits_fields_first :
    registry.isA ⟨"Parcel"⟩ ⟨"Item"⟩ = true ∧
      ((after registry calls).compile registry ⟨"Parcel"⟩).2 = .ok parcel ∧
      (∀ others, ((after registry others).compile registry ⟨"Item"⟩).2 = .ok item) ∧
      Dict.keys item <+: Dict.keys parcel := by
  have inherits : registry.isA ⟨"Parcel"⟩ ⟨"Item"⟩ = true := by decide
  have compiled : ((after registry calls).compile registry ⟨"Parcel"⟩).2 = .ok parcel := by cbv
  have first : ((after registry []).compile registry ⟨"Item"⟩).2 = .ok item := by cbv
  obtain ⟨above, compiles, front, -⟩ := inherited_fields_first registry calls inherits compiled
  obtain rfl : above = item := Except.ok.inj ((compiles []).symm.trans first)
  exact ⟨inherits, compiled, compiles, front⟩

end LazyBinding
