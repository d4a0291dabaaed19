import LazyBinding.Proofs.FieldReading

/-!
# Ripening

Reading rewrites the stored data where it stands: scalars are cast, lists written as maps become
arrays and maps become objects, up to the first part that does not convert. A value ripens to
another one if such steps, in any places, lead there. What ripens converts like before: with the
same error, or to values that differ only inside their objects. All of this is about sessions whose
hooks leave instances.
-/
namespace LazyBinding

/-- Reading may turn the first value, which stands under a number of array levels of a passage, into
the second one. Where a key is stored twice, only the first entry is ever read. -/
inductive Ripens (start : Session) : Passage → Nat → Value → Value → Prop where
  | same {p n} (v : Value) : Ripens start p n v v
  | cast {p kind v w} (typed : p.type.base = .primitive kind)
      (cast : p.toPrimitive kind v = (w, none)) : Ripens start p 0 v w
  | built {p cls v data s o w} (typed : p.type.base = .object cls)
      (outward : p.direction = .materialize) (source : v.objectData? = some data)
      (kept : start.Keeps s) (made : (BoundObject.builder p.schema cls data s).2 = .ok o)
      (descends : (start.registry p.schema).isA o.cls cls = true)
      (next : Ripens start p 0 (.ofObject o) w) : Ripens start p 0 v w
  | listed {p n entries items} (keys : Value.firstOffKey 0 entries = none)
      (next : Ripens start p (n + 1) (.array (Dict.values entries)) (.array items)) :
      Ripens start p (n + 1) (.map entries) (.array items)
  | item {p n v w rest rest'} (first : Ripens start p n v w)
      (others : Ripens start p (n + 1) (.array rest) (.array rest')) :
      Ripens start p (n + 1) (.array (v :: rest)) (.array (w :: rest'))
  | field {p n schema cls table name v w rest rest'}
      (slot : Ripens start (FieldTable.outlet schema table name)
        (FieldTable.typeOf table name).depth v w)
      (others : Ripens start p n (.object schema cls table rest) (.object schema cls table rest'))
      (shadowed : Dict.get? rest' name = Dict.get? rest name) :
      Ripens start p n (.object schema cls table ((name, v) :: rest))
        (.object schema cls table ((name, w) :: rest'))

/-- The data of an object ripens slot by slot. -/
inductive DataRipens (start : Session) (schema : SchemaId) (table : FieldTable) :
    Dict String Value → Dict String Value → Prop where
  | same (data : Dict String Value) : DataRipens start schema table data data
  | field {name v w rest rest'}
      (slot : Ripens start (FieldTable.outlet schema table name)
        (FieldTable.typeOf table name).depth v w)
      (others : DataRipens start schema table rest rest')
      (shadowed : Dict.get? rest' name = Dict.get? rest name) :
      DataRipens start schema table ((name, v) :: rest) ((name, w) :: rest')

/-- The second object is the first one with riper data. -/
def BoundObject.Ripens (start : Session) (o o' : BoundObject) : Prop :=
  ∃ data, o' = { o with data := data } ∧ DataRipens start o.schema o.table o.data data

/-- The two values are equal but for what their objects, which stand where the passage expects
objects, hold. -/
inductive Alike (start : Session) (p : Passage) : Nat → Value → Value → Prop where
  | same {n} (v : Value) : Alike start p n v v
  | object {o o' : BoundObject} (typed : p.type.isObject = true) (ripens : o.Ripens start o') :
      Alike start p 0 (.ofObject o) (.ofObject o')
  | item {n v w rest rest'} (first : Alike start p n v w)
      (others : Alike start p (n + 1) (.array rest) (.array rest')) :
      Alike start p (n + 1) (.array (v :: rest)) (.array (w :: rest'))

/-- Two conversions end alike: the second one with what the first one may ripen to. -/
structure Converted.Matches (start : Session) (p : Passage) (n : Nat) (c c' : Converted) :
    Prop where
  error : c.error = c'.error
  ripens : Ripens start p n c.value c'.value
  alike : c.error = none → Alike start p n c.value c'.value

variable {start s t : Session} {p : Passage} {n : Nat} {u v w : Value} {o o' o'' : BoundObject}

namespace Ripens

theorem of_object {schema : SchemaId} {cls : ClassPath} {table : FieldTable}
    {data : Dict String Value} (h : Ripens start p n (.object schema cls table data) w) :
    ∃ data', w = .object schema cls table data' ∧ DataRipens start schema table data data' := by
  generalize hv : Value.object schema cls table data = v at h
  induction h generalizing data with
  | same v => exact ⟨data, hv.symm, .same data⟩
  | cast _ cast =>
    subst hv
    cases Passage.isScalar_of_cast cast
  | built _ _ source =>
    subst hv
    cases source
  | listed => cases hv
  | item => cases hv
  | field slot _ shadowed _ ih =>
    cases hv
    obtain ⟨data', hw, hdata⟩ := ih rfl
    cases hw
    exact ⟨_, rfl, .field slot hdata shadowed⟩

theorem object_iff :
    Ripens start p n (.ofObject o) w ↔ ∃ o', w = .ofObject o' ∧ o.Ripens start o' := by
  constructor
  · intro h
    obtain ⟨data, rfl, hdata⟩ := h.of_object
    exact ⟨{ o with data := data }, rfl, data, rfl, hdata⟩
  · rintro ⟨o', rfl, data, rfl, hdata⟩
    obtain ⟨schema, cls, table, before⟩ := o
    change DataRipens start schema table before data at hdata
    change Ripens start p n (.object schema cls table before) (.object schema cls table data)
    induction hdata with
    | same data => exact .same _
    | field slot _ shadowed ih => exact .field slot ih shadowed

theorem of_array {items : List Value} (h : Ripens start p (n + 1) (.array items) w) :
    ∃ items', w = .array items' := by
  cases h with
  | same => exact ⟨items, rfl⟩
  | item => exact ⟨_, rfl⟩

theorem trans (h : Ripens start p n u v) (h' : Ripens start p n v w) : Ripens start p n u w := by
  induction h generalizing w with
  | same => exact h'
  | cast typed cast =>
    have again := Passage.toPrimitive_again cast
    cases h' with
    | same => exact .cast typed cast
    | cast typed' cast' =>
      rw [typed] at typed'
      cases typed'
      rw [again] at cast'
      cases cast'
      exact .cast typed cast
    | built typed' =>
      rw [typed] at typed'
      cases typed'
    | field => cases Passage.isScalar_of_cast again
  | built typed outward source kept made descends _ ih =>
    exact .built typed outward source kept made descends (ih h')
  | listed keys _ ih =>
    obtain ⟨items, rfl⟩ := h'.of_array
    exact .listed keys (ih h')
  | item first others ih ih' =>
    cases h' with
    | same => exact .item first others
    | item first' others' => exact .item (ih first') (ih' others')
  | field slot others shadowed ih ih' =>
    cases h' with
    | same => exact .field slot others shadowed
    | cast _ cast => cases Passage.isScalar_of_cast cast
    | built _ _ source => cases source
    | field slot' others' shadowed' =>
      exact .field (ih slot') (ih' others') (shadowed'.trans shadowed)

end Ripens

namespace BoundObject

theorem Ripens.refl (o : BoundObject) : o.Ripens start o := ⟨o.data, rfl, .same _⟩

theorem Ripens.trans (h : o.Ripens start o') (h' : o'.Ripens start o'') : o.Ripens start o'' := by
  have outer : ∀ {o o' : BoundObject}, o.Ripens start o' →
      LazyBinding.Ripens start ⟨0, "", .untyped, .materialize⟩ 0 (.ofObject o) (.ofObject o') :=
    fun h => Ripens.object_iff.2 ⟨_, rfl, h⟩
  obtain ⟨o₁, heq, h⟩ := Ripens.object_iff.1 ((outer h).trans (outer h'))
  obtain rfl : o'' = o₁ := Value.ofObject_inj heq
  exact h

end BoundObject

/-! ### Reading in place -/

namespace Passage

theorem convertItems_ripens {item : Value → Session → Converted}
    (he : ∀ v (s : Session), s.Evolves (item v s).session)
    (hi : ∀ v s, start.Keeps s → Ripens start p n v (item v s).value) (items : List Value)
    (hs : start.Keeps s) :
    Ripens start p (n + 1) (.array items) (.array (convertItems item items s).items) := by
  induction items generalizing s with
  | nil => exact .same _
  | cons v rest ih =>
    unfold convertItems
    dsimp only
    split
    · exact .item (hi v s hs) (.same _)
    · exact .item (hi v s hs) (ih (hs.evolves (he v s)))

theorem Makes.ripens (instances : start.LeavesInstances) (hstart : start.Keeps start)
    (h : p.Makes v s w) (hs : start.Keeps s) : Ripens start p 0 v w := by
  cases h with
  | kept => exact .same v
  | cast typed cast => exact .cast typed cast
  | @built cls data o typed outward source made =>
    refine .built typed outward source hs made (instances p.schema cls data o ?_) (.same _)
    exact (BoundObject.builder_steady start p.schema cls data hstart hs).trans made

/-- What a reader finds in a slot afterwards is what was there, but riper. -/
theorem convertLevel_ripens (instances : start.LeavesInstances) (hstart : start.Keeps start)
    (p : Passage) (n : Nat) (v : Value) (hs : start.Keeps s) :
    Ripens start p n v (p.convertLevel BoundObject.builder n v s).value := by
  induction n generalizing v s with
  | zero =>
    by_cases hv : v = .null
    · subst hv
      exact .same _
    · rw [p.convertLevel_zero hv]
      exact (p.convertBase_makes v s).ripens instances hstart hs
  | succ n ih =>
    have all := fun items => convertItems_ripens
      (p.convertLevel_evolves BoundObject.builder_evolves n) (fun v s hs => ih v hs) items hs
    cases v with
    | array items => exact all items
    | map entries =>
      cases keys : Value.firstOffKey 0 entries with
      | none =>
        rw [p.convertLevel_listed keys]
        exact .listed keys (all _)
      | some _ =>
        simp only [convertLevel, keys]
        exact .same _
    | _ => exact .same _

/-! ### Reading again -/

theorem convertLevel_object_matches (h : o.Ripens start o') (hs : start.Keeps s)
    (ht : start.Keeps t) :
    Converted.Matches start p n (p.convertLevel BoundObject.builder n (.ofObject o) s)
      (p.convertLevel BoundObject.builder n (.ofObject o') t) := by
  have hr : s.registry p.schema = t.registry p.schema := Session.registry_steady p.schema hs ht
  obtain ⟨data, rfl, -⟩ := id h
  have ripens : Ripens start p n (.ofObject o) (.ofObject { o with data := data }) :=
    Ripens.object_iff.2 ⟨_, rfl, h⟩
  cases n with
  | succ n => exact ⟨rfl, ripens, fun hok => by cases hok⟩
  | zero =>
    rw [convertLevel_zero (by simp [Value.ofObject]), convertLevel_zero (by simp [Value.ofObject])]
    unfold convertBase
    cases typed : p.type.base with
    | any => exact ⟨rfl, ripens, fun hok => by cases hok⟩
    | primitive kind =>
      simp only [toPrimitive_object]
      exact ⟨rfl, ripens, fun hok => by cases hok⟩
    | object cls =>
      have typed : p.type.isObject = true := by simp [FieldType.isObject, FieldType.class?, typed]
      cases p.direction with
      | materialize =>
        simp only [materialize, Value.ofObject, checkInstance, hr]
        exact ⟨rfl, ripens, fun _ => .object typed h⟩
      | accept =>
        simp only [accept, Value.ofObject, checkInstance, hr]
        exact ⟨rfl, ripens, fun _ => .object typed h⟩

theorem convertLevel_cons_matches {rest rest' : List Value}
    (first : Converted.Matches start p n (p.convertLevel BoundObject.builder n v s)
      (p.convertLevel BoundObject.builder n w t))
    (others : Converted.Matches start p (n + 1)
      (p.convertLevel BoundObject.builder (n + 1) (.array rest)
        (p.convertLevel BoundObject.builder n v s).session)
      (p.convertLevel BoundObject.builder (n + 1) (.array rest')
        (p.convertLevel BoundObject.builder n w t).session))
    (ripens : Ripens start p (n + 1) (.array rest) (.array rest')) :
    Converted.Matches start p (n + 1)
      (p.convertLevel BoundObject.builder (n + 1) (.array (v :: rest)) s)
      (p.convertLevel BoundObject.builder (n + 1) (.array (w :: rest')) t) := by
  rcases p.convertLevel_cons n v rest s with ⟨e, he, hx⟩ | ⟨he, items, hitems, hx⟩
  · rcases p.convertLevel_cons n w rest' t with ⟨e', he', hy⟩ | ⟨he', _⟩
    · rw [hx, hy]
      refine ⟨?_, .item first.ripens ripens, fun hok => by cases hok⟩
      rw [← he, ← he', first.error]
    · rw [first.error, he'] at he
      cases he
  · rcases p.convertLevel_cons n w rest' t with ⟨e', he', _⟩ | ⟨_, items', hitems', hy⟩
    · rw [first.error, he'] at he
      cases he
    · rw [hx, hy]
      have ripens' := others.ripens
      have alike := others.alike
      rw [hitems, hitems'] at ripens' alike
      exact ⟨others.error, .item first.ripens ripens',
        fun hok => .item (first.alike he) (alike hok)⟩

end Passage

/-- What has ripened converts like before. -/
theorem Ripens.convertLevel (h : Ripens start p n v w) (hs : start.Keeps s) (ht : start.Keeps t) :
    Converted.Matches start p n (p.convertLevel BoundObject.builder n v s)
      (p.convertLevel BoundObject.builder n w t) := by
  induction h generalizing s t with
  | @same p n v =>
    obtain ⟨hvalue, herror⟩ := Prod.mk.inj (p.convertLevel_steady BoundObject.builder_evolves
      (BoundObject.builder_steady start) n v hs ht)
    exact ⟨herror, hvalue ▸ .same _, fun _ => hvalue ▸ .same _⟩
  | cast typed cast =>
    rw [Passage.convertLevel_cast typed cast,
      Passage.convertLevel_cast typed (Passage.toPrimitive_again cast)]
    exact ⟨rfl, .same _, fun _ => .same _⟩
  | @built p cls v data r o w typed outward source kept made descends _ ih =>
    -- The data makes the object again, and from there on the induction hypothesis is about it.
    obtain ⟨herror, hvalue⟩ := Passage.convertLevel_built typed outward source hs kept made
    have hobject := ih hs ht
    have stays : p.convertLevel BoundObject.builder 0 (.ofObject o) s =
        ⟨s, .ofObject o, none⟩ := by
      have fits := (p.checkInstance_eq_none s).2 (hs.registry _ ▸ descends)
      rw [Passage.convertLevel_object typed, fits]
    rw [stays] at hobject
    refine ⟨?_, ?_, fun _ => ?_⟩
    · rw [herror, ← hobject.error]
    · rw [hvalue]
      exact hobject.ripens
    · rw [hvalue]
      exact hobject.alike rfl
  | @listed p n entries items keys next ih =>
    rw [p.convertLevel_listed keys]
    exact ih hs ht
  | @item p n v w rest rest' first others ih ih' =>
    have hs' := hs.evolves (p.convertLevel_evolves BoundObject.builder_evolves n v s)
    have ht' := ht.evolves (p.convertLevel_evolves BoundObject.builder_evolves n w t)
    exact Passage.convertLevel_cons_matches (ih hs ht) (ih' hs' ht') others
  | @field p n schema cls table name v w rest rest' slot others shadowed =>
    -- What has changed is inside an object, where a conversion does not look.
    obtain ⟨o', heq, h⟩ := (Ripens.object_iff (o := ⟨schema, cls, table, (name, v) :: rest⟩)).1
      (.field (p := p) (n := n) slot others shadowed)
    obtain ⟨data, rfl, -⟩ := id h
    cases heq
    exact Passage.convertLevel_object_matches h hs ht

end LazyBinding
