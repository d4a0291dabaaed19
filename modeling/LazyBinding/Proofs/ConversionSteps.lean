import LazyBinding.Proofs.Instances

/-!
# What a conversion makes of a value

Below the array levels a conversion keeps a value, casts it, or makes an object of it. Above them it
goes through the items in order, up to the first bad one. What it leaves in the slot, converted or
stopped half-way, it leaves again when it is repeated, with the same error, unless a hook has put an
object of another class in the place of the one that the field asked for.
-/
namespace LazyBinding

/-- The data from which a reader makes an object. -/
def Value.objectData? : Value → Option (Dict String Value)
  | .map entries => some entries
  | .array [] => some []
  | _ => none

/-- The items of an array, or of a map that is written as a list. -/
def Value.items? : Value → Option (List Value)
  | .array items => some items
  | .map entries => if Value.firstOffKey 0 entries = none then some (Dict.values entries) else none
  | _ => none

/-- The second value stands a number of array levels below the first one. -/
inductive Value.LevelsBelow : Nat → Value → Value → Prop where
  | here (v : Value) : LevelsBelow 0 v v
  | item {n v items u w} (source : v.items? = some items) (inside : u ∈ items)
      (further : LevelsBelow n u w) : LevelsBelow (n + 1) v w

theorem Value.items?_cases {v : Value} {items : List Value} (h : v.items? = some items) :
    v = .array items ∨ ∃ entries, v = .map entries ∧ Value.firstOffKey 0 entries = none ∧
      items = Dict.values entries := by
  unfold items? at h
  split at h
  · cases h
    exact Or.inl rfl
  · split at h
    · next keys =>
      cases h
      exact Or.inr ⟨_, rfl, keys, rfl⟩
    · cases h
  · cases h

theorem Value.ofObject_inj {o o' : BoundObject} (h : Value.ofObject o = .ofObject o') : o = o' :=
  Option.some.inj (congrArg Value.asObject? h)

variable {start s t : Session} {p : Passage} {n : Nat} {v w : Value} {o : BoundObject}

namespace Passage

theorem isScalar_of_cast {kind : Primitive} (h : p.toPrimitive kind v = (w, none)) :
    v.isScalar = true := by
  cases kind <;> cases v <;>
    simp_all [toPrimitive, Value.cast?, Value.isScalar, Value.isSequence, Value.kind]

theorem toPrimitive_again {kind : Primitive} (h : p.toPrimitive kind v = (w, none)) :
    p.toPrimitive kind w = (w, none) := by
  cases kind <;> cases v <;>
    simp_all [toPrimitive, Value.cast?, Value.isScalar, Value.isSequence, Value.kind] <;>
    subst h <;> simp

theorem toPrimitive_failed {kind : Primitive} {e : ConversionError}
    (h : p.toPrimitive kind v = (w, some e)) : w = v := by
  unfold toPrimitive at h
  split at h
  case h_5 =>
    split at h
    · simp_all
    · split at h <;> simp_all
  all_goals simp at h

@[simp]
theorem convertLevel_null (p : Passage) (n : Nat) (s : Session) :
    p.convertLevel BoundObject.builder n .null s = ⟨s, .null, none⟩ := by
  simp only [convertLevel]

theorem convertLevel_zero (hv : v ≠ .null) (s : Session) :
    p.convertLevel BoundObject.builder 0 v s = p.convertBase BoundObject.builder v s := by
  cases v <;> first | rfl | exact absurd rfl hv

theorem convertLevel_listed {entries : List (String × Value)}
    (keys : Value.firstOffKey 0 entries = none) (s : Session) :
    p.convertLevel BoundObject.builder (n + 1) (.map entries) s =
      p.convertLevel BoundObject.builder (n + 1) (.array (Dict.values entries)) s := by
  simp only [convertLevel, keys]

theorem convertLevel_array {items : List Value} (s : Session) :
    let all := convertItems (p.convertLevel BoundObject.builder n) items s
    p.convertLevel BoundObject.builder (n + 1) (.array items) s =
      ⟨all.session, .array all.items, all.error⟩ := by
  simp only [convertLevel]

theorem convertLevel_items {items : List Value} (h : v.items? = some items) (s : Session) :
    p.convertLevel BoundObject.builder (n + 1) v s =
      p.convertLevel BoundObject.builder (n + 1) (.array items) s := by
  obtain rfl | ⟨entries, rfl, keys, rfl⟩ := Value.items?_cases h
  · rfl
  · exact convertLevel_listed keys s

theorem convertLevel_noItems (p : Passage) (n : Nat) (hv : v ≠ .null) (h : v.items? = none) :
    ∃ e : ConversionError, (∀ f cls source, e ≠ .nestedConstruction f cls source) ∧
      ∀ s, p.convertLevel BoundObject.builder (n + 1) v s = ⟨s, v, some e⟩ := by
  cases v with
  | null => exact absurd rfl hv
  | array items => cases h
  | map entries =>
    cases keys : Value.firstOffKey 0 entries with
    | none => simp [Value.items?, keys] at h
    | some off =>
      refine ⟨.keySequence p.field (p.type.depth - n) off.1 off.2, by simp, fun s => ?_⟩
      simp only [convertLevel, keys]
  | _ => exact ⟨.shapeMismatch .., by simp, fun _ => rfl⟩

theorem toPrimitive_object (p : Passage) (kind : Primitive) (o : BoundObject) :
    p.toPrimitive kind (.ofObject o) =
      (.ofObject o, some (.coercionFailure p.field kind .object)) := by
  cases kind <;> rfl

theorem checkInstance_eq_none {cls actual : ClassPath} (p : Passage) (s : Session) :
    p.checkInstance s cls actual = none ↔ (s.registry p.schema).isA actual cls = true := by
  unfold checkInstance
  split
  · next h => exact iff_of_true rfl h
  · next h => exact iff_of_false (by simp) h

theorem convertLevel_cast {kind : Primitive} (typed : p.type.base = .primitive kind)
    (cast : p.toPrimitive kind v = (w, none)) (s : Session) :
    p.convertLevel BoundObject.builder 0 v s = ⟨s, w, none⟩ := by
  have hv : v ≠ .null := by
    rintro rfl
    cases isScalar_of_cast cast
  rw [convertLevel_zero hv]
  simp only [convertBase, typed, cast]

theorem convertBase_data {cls : ClassPath} {data : Dict String Value}
    (typed : p.type.base = .object cls) (outward : p.direction = .materialize)
    (source : v.objectData? = some data) (s : Session) :
    p.convertBase BoundObject.builder v s = p.construct BoundObject.builder cls v data s := by
  unfold Value.objectData? at source
  split at source
  · cases source
    simp only [convertBase, typed, outward, materialize]
  · cases source
    simp only [convertBase, typed, outward, materialize]
  · cases source

/-! ### Below the array levels -/

/-- What a conversion can make of a value that stands under no array levels. -/
inductive Makes (p : Passage) (v : Value) (s : Session) : Value → Prop where
  | kept : Makes p v s v
  | cast {kind w} (typed : p.type.base = .primitive kind)
      (cast : p.toPrimitive kind v = (w, none)) : Makes p v s w
  | built {cls data o} (typed : p.type.base = .object cls) (outward : p.direction = .materialize)
      (source : v.objectData? = some data)
      (made : (BoundObject.builder p.schema cls data s).2 = .ok o) : Makes p v s (.ofObject o)

theorem convertBase_makes (p : Passage) (v : Value) (s : Session) :
    p.Makes v s (p.convertBase BoundObject.builder v s).value := by
  have constructed : ∀ {cls data}, p.type.base = .object cls → p.direction = .materialize →
      v.objectData? = some data →
      p.Makes v s (p.construct BoundObject.builder cls v data s).value := by
    intro cls data typed outward source
    unfold construct
    split
    · next made => exact .built typed outward source (congrArg Prod.snd made)
    · exact .kept
  unfold convertBase
  split
  · exact .kept
  · next kind typed =>
    cases h : p.toPrimitive kind v with
    | mk w error =>
      cases error with
      | none => exact .cast typed h
      | some e =>
        rw [toPrimitive_failed h]
        exact .kept
  · next cls typed =>
    split
    · next outward =>
      unfold materialize
      split
      · exact .kept
      · exact constructed typed outward rfl
      · exact constructed typed outward rfl
      · exact .kept
      · exact .kept
    · exact .kept

theorem convertLevel_built {cls : ClassPath} {data : Dict String Value}
    (typed : p.type.base = .object cls) (outward : p.direction = .materialize)
    (source : v.objectData? = some data) (hs : start.Keeps s) (ht : start.Keeps t)
    (made : (BoundObject.builder p.schema cls data t).2 = .ok o) :
    (p.convertLevel BoundObject.builder 0 v s).error = none ∧
      (p.convertLevel BoundObject.builder 0 v s).value = .ofObject o := by
  have hmade : BoundObject.builder p.schema cls data s =
      ((BoundObject.builder p.schema cls data s).1, .ok o) :=
    Prod.ext rfl ((BoundObject.builder_steady start p.schema cls data hs ht).trans made)
  have hv : v ≠ .null := by
    rintro rfl
    cases source
  rw [convertLevel_zero hv, convertBase_data typed outward source]
  unfold construct
  rw [hmade]
  exact ⟨rfl, rfl⟩

theorem convertLevel_object {cls : ClassPath} (typed : p.type.base = .object cls)
    (o : BoundObject) (s : Session) :
    p.convertLevel BoundObject.builder 0 (.ofObject o) s =
      ⟨s, .ofObject o, p.checkInstance s cls o.cls⟩ := by
  rw [convertLevel_zero (by simp [Value.ofObject])]
  cases outward : p.direction with
  | materialize => simp only [convertBase, typed, outward, materialize, Value.ofObject]
  | accept => simp only [convertBase, typed, outward, accept, Value.ofObject]

theorem convertLevel_cons (p : Passage) (n : Nat) (v : Value) (rest : List Value) (s : Session) :
    let first := p.convertLevel BoundObject.builder n v s
    let others := p.convertLevel BoundObject.builder (n + 1) (.array rest) first.session
    (∃ e, first.error = some e ∧ p.convertLevel BoundObject.builder (n + 1) (.array (v :: rest)) s =
        ⟨first.session, .array (first.value :: rest), some e⟩) ∨
      first.error = none ∧ ∃ items, others.value = .array items ∧
        p.convertLevel BoundObject.builder (n + 1) (.array (v :: rest)) s =
          ⟨others.session, .array (first.value :: items), others.error⟩ := by
  intro first others
  cases h : first.error with
  | some e => exact Or.inl ⟨e, rfl, by simp only [convertLevel, convertItems, first, h]⟩
  | none => exact Or.inr ⟨rfl, _, rfl, by simp only [convertLevel, convertItems, first, h]; rfl⟩

/-! ### Repeated conversions -/

/-- Every object that is made of data in the value, under a number of array levels, is an instance
of the class of the field. A hook may leave another one. -/
def MakesInstances (start : Session) (p : Passage) (n : Nat) (v : Value) : Prop :=
  ∀ cls u data o, p.type.base = .object cls → p.direction = .materialize → v.LevelsBelow n u →
    u.objectData? = some data → (BoundObject.make p.schema cls data start).2 = .ok o →
      (start.registry p.schema).isA o.cls cls = true

theorem MakesInstances.item {items : List Value} (h : p.MakesInstances start (n + 1) v)
    (source : v.items? = some items) : ∀ u ∈ items, p.MakesInstances start n u := by
  intro u hu cls w data o typed outward below
  exact h cls w data o typed outward (.item source hu below)

theorem makesInstances_of_session (instances : start.LeavesInstances) (p : Passage) (n : Nat)
    (v : Value) : p.MakesInstances start n v := by
  intro cls u data o _ _ _ _ made
  exact instances p.schema cls data o made

theorem makesInstances_of_accept (inward : p.direction = .accept) (n : Nat) (v : Value) :
    p.MakesInstances start n v := by
  intro cls u data o _ outward
  rw [inward] at outward
  cases outward

theorem convertBase_again (instances : p.MakesInstances start 0 v) (hstart : start.Keeps start)
    (hs : start.Keeps s) (ht : start.Keeps t) (hv : v ≠ .null) :
    (p.convertLevel BoundObject.builder 0 (p.convertBase BoundObject.builder v s).value t).outcome =
      (p.convertBase BoundObject.builder v s).outcome := by
  have makes := p.convertBase_makes v s
  generalize hw : (p.convertBase BoundObject.builder v s).value = w at makes ⊢
  cases makes with
  | kept =>
    rw [convertLevel_zero hv]
    exact p.convertBase_steady BoundObject.builder_evolves (BoundObject.builder_steady start) v
      ht hs
  | cast typed cast =>
    rw [← convertLevel_zero hv, convertLevel_cast typed cast,
      convertLevel_cast typed (toPrimitive_again cast)]
    rfl
  | @built cls data o typed outward source made =>
    obtain ⟨herror, hvalue⟩ := convertLevel_built typed outward source hs hs made
    have descends : (t.registry p.schema).isA o.cls cls = true := by
      rw [ht.registry]
      refine instances cls v data o typed outward (.here v) source ?_
      exact (BoundObject.builder_steady start p.schema cls data hstart hs).trans made
    rw [convertLevel_zero hv] at herror hvalue
    rw [convertLevel_object typed, (p.checkInstance_eq_none t).2 descends, Converted.outcome,
      Converted.outcome, herror, hvalue]

/-- Items that have been converted up to a bad one are converted up to it again. -/
theorem convertItems_again {item : Value → Session → Converted}
    (he : ∀ v (s : Session), s.Evolves (item v s).session) (items : List Value)
    (hi : ∀ v ∈ items, ∀ {s t}, start.Keeps s → start.Keeps t →
      (item (item v s).value t).outcome = (item v s).outcome)
    (hs : start.Keeps s) (ht : start.Keeps t) :
    (convertItems item (convertItems item items s).items t).outcome =
      (convertItems item items s).outcome := by
  induction items generalizing s t with
  | nil => rfl
  | cons v rest ih =>
    obtain ⟨hvalue, herror⟩ := Prod.mk.inj (hi v List.mem_cons_self hs ht)
    cases first : (item v s).error with
    | some e =>
      rw [first] at herror
      simp only [convertItems, first, herror, hvalue, ConvertedItems.outcome]
    | none =>
      rw [first] at herror
      have others := ih (fun u hu => hi u (List.mem_cons_of_mem v hu)) (hs.evolves (he v s))
        (ht.evolves (he (item v s).value t))
      obtain ⟨hitems, herrors⟩ := Prod.mk.inj others
      simp only [convertItems, first, herror, hvalue, hitems, herrors, ConvertedItems.outcome]

theorem convertLevel_again (instances : p.MakesInstances start n v) (hstart : start.Keeps start)
    (hs : start.Keeps s) (ht : start.Keeps t) :
    let once := p.convertLevel BoundObject.builder n v s
    (p.convertLevel BoundObject.builder n once.value t).outcome = once.outcome := by
  dsimp only
  induction n generalizing v s t with
  | zero =>
    by_cases hv : v = .null
    · subst hv
      rfl
    · rw [convertLevel_zero hv]
      exact convertBase_again instances hstart hs ht hv
  | succ n ih =>
    by_cases hv : v = .null
    · subst hv
      rfl
    cases source : v.items? with
    | none =>
      obtain ⟨e, -, stuck⟩ := p.convertLevel_noItems n hv source
      rw [stuck, stuck]
      rfl
    | some items =>
      have again := convertItems_again (p.convertLevel_evolves BoundObject.builder_evolves n) items
        (fun u hu _ _ hs ht => ih (instances.item source u hu) hs ht) hs ht
      obtain ⟨hitems, herror⟩ := Prod.mk.inj again
      rw [convertLevel_items source]
      simp only [convertLevel, Converted.outcome, hitems, herror]

/-- A conversion is stable if all objects that it makes are instances of the class that the field
asks for. Whether it has succeeded or has stopped half-way, converting what it has left in the slot
leaves the same and gives the same error, whatever has been done since. -/
theorem convert_stable (registries : List (Registry × Bool)) (operations : List Session.Operation)
    (p : Passage) (v : Value) :
    let s := (Session.fresh registries).run operations
    let once := p.convert BoundObject.builder v s
    p.MakesInstances s p.type.depth v →
      ∀ later, let again := p.convert BoundObject.builder once.value (once.session.run later)
        again.error = once.error ∧ again.value = once.value := by
  intro s once instances later again
  have hs : s.Keeps s := ((Session.keeps_fresh registries).run operations).self
  have evolves : s.Evolves once.session :=
    p.convertLevel_evolves BoundObject.builder_evolves p.type.depth v s
  have ht := (hs.evolves evolves).run later
  obtain ⟨hvalue, herror⟩ := Prod.mk.inj (convertLevel_again instances hs hs ht)
  exact ⟨herror, hvalue⟩

end Passage

namespace SquareExample

open BoundObject

/-- The way of the shape on a sheet to a reader. -/
def shape : Passage := ⟨0, "shape", ⟨.object ⟨"Shape"⟩, 0⟩, .materialize⟩

theorem replaced_shape (hs : replaced.Keeps s) :
    (shape.convert builder (.map []) s).error = none ∧
      (shape.convert builder (.map []) s).value = .object 0 ⟨"Square"⟩ [] [] :=
  Passage.convertLevel_built (p := shape) (v := .map []) rfl rfl rfl hs replaced_keeps replaced_made

theorem replaced_square (hs : replaced.Keeps s) :
    shape.convert builder (.object 0 ⟨"Square"⟩ [] []) s =
      ⟨s, .object 0 ⟨"Square"⟩ [] [],
        some (.typeMismatch "shape" ⟨"Shape"⟩ (.instanceOf ⟨"Square"⟩))⟩ := by
  have unrelated : (s.registry 0).isA ⟨"Square"⟩ ⟨"Shape"⟩ = false := by
    rw [hs.registry]
    rfl
  have object := Passage.convertLevel_object (p := shape) rfl ⟨0, ⟨"Square"⟩, [], []⟩ s
  rw [Passage.checkInstance, if_neg (by simp [shape, unrelated])] at object
  exact object

end SquareExample

open SquareExample in
theorem refined_shape_stable :
    let once := shape.convert BoundObject.builder (.map []) refined
    shape.MakesInstances refined 0 (.map []) ∧
      once.value = .object 0 ⟨"Square"⟩ [("size", ⟨.primitive .int, 0⟩)] [] ∧
      ∀ later, let again := shape.convert BoundObject.builder once.value (once.session.run later)
        again.error = none ∧ again.value = once.value := by
  intro once
  have instances : shape.MakesInstances refined 0 (.map []) :=
    Passage.makesInstances_of_session refined_leavesInstances shape 0 (.map [])
  obtain ⟨error, value⟩ := Passage.convertLevel_built (p := shape) (v := .map []) rfl rfl rfl
    refined_keeps refined_keeps refined_made
  refine ⟨instances, value, fun later => ?_⟩
  have stable := Passage.convert_stable [(registry (some "Shape"), false)] [] shape (.map [])
    instances later
  exact ⟨stable.1.trans error, stable.2⟩

open SquareExample in
/-- Without that, data may convert to an object that the field does not take. -/
theorem replaced_shape_unstable :
    let once := shape.convert BoundObject.builder (.map []) replaced
    let again := shape.convert BoundObject.builder once.value once.session
    once.error = none ∧ once.value = .object 0 ⟨"Square"⟩ [] [] ∧
      again.error = some (.typeMismatch "shape" ⟨"Shape"⟩ (.instanceOf ⟨"Square"⟩)) := by
  intro once again
  obtain ⟨error, value⟩ := replaced_shape replaced_keeps
  have hs : replaced.Keeps once.session :=
    replaced_keeps.evolves (shape.convert_evolves BoundObject.builder_evolves (.map []) replaced)
  refine ⟨error, value, ?_⟩
  change (shape.convert BoundObject.builder once.value once.session).error = _
  rw [show once.value = .object 0 ⟨"Square"⟩ [] [] from value, replaced_square hs]

end LazyBinding
