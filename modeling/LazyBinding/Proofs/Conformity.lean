import LazyBinding.Proofs.Passing

/-!
# Values that conform to a type

A conversion that succeeds leaves a value of the form that the type describes; the objects in it
stood there before or have been made of data, and what is made may be something else than an instance
of the class of the field where a hook has replaced it. A value that conforms, with instances only,
converts to itself, in either direction and without any work on the session.
-/
namespace LazyBinding

variable {start s : Session} {p : Passage} {n : Nat} {v w : Value} {o : BoundObject}

/-- The kind of a primitive's values. -/
def Primitive.kind : Primitive → Kind
  | .bool => .bool
  | .int => .int
  | .float => .float
  | .string => .string

theorem Value.fit_of_kind {kind : Primitive} (h : v.kind = kind.kind) : v.unfit? = none := by
  cases kind <;> cases v <;> first | rfl | cases h

/-- The form that a type gives to values under a number of its array levels. The objects in them
satisfy a predicate, which is told the class that the type asks for. -/
inductive Formed (t : FieldType) (Q : ClassPath → BoundObject → Prop) :
    (remaining : Nat) → Value → Prop where
  | null {n : Nat} : Formed t Q n .null
  | untyped {v : Value} (base : t.base = .any) (fit : v.unfit? = none)
      (flat : 0 < t.depth → v.isSequence = false) : Formed t Q 0 v
  | primitive {kind : Primitive} {v : Value} (base : t.base = .primitive kind)
      (exact : v.kind = kind.kind) : Formed t Q 0 v
  | object {cls : ClassPath} {o : BoundObject} (base : t.base = .object cls) (holds : Q cls o) :
      Formed t Q 0 (.ofObject o)
  | array {n : Nat} {items : List Value} (items_formed : ∀ v ∈ items, Formed t Q n v) :
      Formed t Q (n + 1) (.array items)

/-- A value that is left with nothing to convert: its objects are instances. -/
abbrev Conforms (r : Registry) (t : FieldType) : (remaining : Nat) → Value → Prop :=
  Formed t fun cls o => r.isA o.cls cls = true

theorem Formed.imp {t : FieldType} {Q Q' : ClassPath → BoundObject → Prop}
    (h : Formed t Q n v) (hq : ∀ cls o, t.base = .object cls → Q cls o → Q' cls o) :
    Formed t Q' n v := by
  induction h with
  | null => exact .null
  | untyped base fit flat => exact .untyped base fit flat
  | primitive base exact => exact .primitive base exact
  | object base holds => exact .object base (hq _ _ base holds)
  | array _ ih => exact .array ih

namespace Passage

theorem toPrimitive_kind {kind : Primitive} (h : p.toPrimitive kind v = (w, none)) :
    w.kind = kind.kind := by
  unfold toPrimitive at h
  split at h
  case h_5 =>
    split at h
    · cases h
    · split at h
      · next cast =>
        cases h
        unfold Value.cast? at cast
        split at cast
        · cases kind <;> cases cast <;> rfl
        · cases cast
      · cases h
  all_goals
    cases h
    rfl

theorem toPrimitive_exact {kind : Primitive} (h : v.kind = kind.kind) :
    p.toPrimitive kind v = (v, none) := by
  cases kind <;> cases v <;> first | rfl | cases h

theorem checkUntyped_eq_none :
    p.checkUntyped v = none ↔ v.unfit? = none ∧ (0 < p.type.depth → v.isSequence = false) := by
  unfold checkUntyped
  split
  · next h =>
    refine iff_of_false (by simp) fun flat => ?_
    rw [flat.2 h.2] at h
    cases h.1
  · next h =>
    rw [Option.map_eq_none_iff]
    constructor
    · intro fit
      refine ⟨fit, fun deep => ?_⟩
      by_contra sequence
      exact h ⟨Bool.eq_true_of_not_eq_false sequence, deep⟩
    · exact And.left

/-- An object that a conversion of a value may leave: an instance of the class that is asked for,
or what has been made of data in the value. -/
def Leaves (start : Session) (p : Passage) (n : Nat) (v : Value) (cls : ClassPath)
    (o : BoundObject) : Prop :=
  (start.registry p.schema).isA o.cls cls = true ∨
    p.direction = .materialize ∧ ∃ u data, v.LevelsBelow n u ∧ u.objectData? = some data ∧
      (BoundObject.make p.schema cls data start).2 = .ok o

theorem Leaves.item {cls : ClassPath} {items : List Value} (h : p.Leaves start n w cls o)
    (source : v.items? = some items) (member : w ∈ items) : p.Leaves start (n + 1) v cls o := by
  rcases h with descends | ⟨outward, u, data, below, made⟩
  · exact Or.inl descends
  · exact Or.inr ⟨outward, u, data, .item source member below, made⟩

theorem construct_formed {cls : ClassPath} {data : Dict String Value} (hstart : start.Keeps start)
    (hs : start.Keeps s) (base : p.type.base = .object cls) (outward : p.direction = .materialize)
    (source : v.objectData? = some data)
    (h : (p.construct BoundObject.builder cls v data s).error = none) :
    Formed p.type (p.Leaves start 0 v) 0 (p.construct BoundObject.builder cls v data s).value := by
  unfold construct at h ⊢
  split at h
  · next o made =>
    have steady := BoundObject.builder_steady start p.schema cls data hstart hs
    have made : (BoundObject.make p.schema cls data start).2 = .ok o :=
      steady.trans (congrArg Prod.snd made)
    exact .object base (Or.inr ⟨outward, v, data, .here v, source, made⟩)
  · cases h

theorem convertBase_formed (hstart : start.Keeps start) (hs : start.Keeps s)
    (h : (p.convertBase BoundObject.builder v s).error = none) :
    Formed p.type (p.Leaves start 0 v) 0 (p.convertBase BoundObject.builder v s).value := by
  have instances : ∀ {cls} {o : BoundObject}, p.type.base = .object cls →
      p.checkInstance s cls o.cls = none →
      Formed p.type (p.Leaves start 0 v) 0 (.ofObject o) := by
    intro cls o base descends
    refine .object base (Or.inl ?_)
    rw [← hs.registry]
    exact (p.checkInstance_eq_none s).1 descends
  unfold convertBase at h ⊢
  split at h
  · next base =>
    obtain ⟨fit, flat⟩ := checkUntyped_eq_none.1 h
    exact .untyped base fit flat
  · next kind base =>
    cases hw : p.toPrimitive kind v with
    | mk w error =>
      rw [hw] at h
      cases h
      exact .primitive base (toPrimitive_kind hw)
  · next cls base =>
    split at h
    · next outward =>
      unfold materialize at h ⊢
      split at h
      · exact instances base (o := ⟨_, _, _, _⟩) h
      · exact construct_formed hstart hs base outward rfl h
      · exact construct_formed hstart hs base outward rfl h
      · cases h
      · cases h
    · unfold accept at h
      split at h
      · exact instances base (o := ⟨_, _, _, _⟩) h
      · cases h

/-- What a conversion leaves when it succeeds has the form that the type describes. -/
theorem convertLevel_formed (hstart : start.Keeps start) (hs : start.Keeps s)
    (h : (p.convertLevel BoundObject.builder n v s).error = none) :
    Formed p.type (p.Leaves start n v) n (p.convertLevel BoundObject.builder n v s).value := by
  induction n generalizing v s with
  | zero =>
    by_cases hv : v = .null
    · rw [hv, convertLevel_null]
      exact .null
    · rw [convertLevel_zero hv] at h ⊢
      exact convertBase_formed hstart hs h
  | succ n ih =>
    by_cases hv : v = .null
    · rw [hv, convertLevel_null]
      exact .null
    cases source : v.items? with
    | none =>
      obtain ⟨e, -, stuck⟩ := p.convertLevel_noItems n hv source
      rw [stuck] at h
      cases h
    | some items =>
      rw [convertLevel_items source, convertLevel_array] at h ⊢
      have evolves := p.convertLevel_evolves BoundObject.builder_evolves n
      refine .array (convertItems_forall (fun v s hs => hs.evolves (evolves v s))
        (fun u hu s hs ok => ?_) hs h)
      exact (ih hs ok).imp fun cls o _ leaves => leaves.item source hu

/-- If all that has been made are instances, it conforms. -/
theorem convertLevel_conforms (instances : p.MakesInstances start n v)
    (hstart : start.Keeps start) (hs : start.Keeps s)
    (h : (p.convertLevel BoundObject.builder n v s).error = none) :
    Conforms (start.registry p.schema) p.type n
      (p.convertLevel BoundObject.builder n v s).value := by
  refine (convertLevel_formed hstart hs h).imp ?_
  rintro cls o base (descends | ⟨outward, u, data, below, source, made⟩)
  · exact descends
  · exact instances cls u data o base outward below source made

end Passage

namespace Conforms

variable {r : Registry} {t : FieldType}

theorem convertItems {item : Value → Session → Converted} {items : List Value}
    (hi : ∀ v ∈ items, item v s = ⟨s, v, none⟩) :
    Passage.convertItems item items s = ⟨s, items, none⟩ := by
  induction items with
  | nil => rfl
  | cons v rest ih =>
    obtain ⟨first, others⟩ := List.forall_mem_cons.1 hi
    simp only [Passage.convertItems, first, ih others]

theorem converts (h : Conforms (s.registry p.schema) p.type n v) :
    p.convertLevel BoundObject.builder n v s = ⟨s, v, none⟩ := by
  generalize hr : s.registry p.schema = r at h
  generalize ht : p.type = t at h
  induction h with
  | null => simp only [Passage.convertLevel]
  | @untyped v base fit flat =>
    have error : p.checkUntyped v = none := Passage.checkUntyped_eq_none.2 ⟨fit, ht ▸ flat⟩
    by_cases hv : v = .null
    · subst hv
      rfl
    · rw [Passage.convertLevel_zero hv]
      simp only [Passage.convertBase, ht, base, error]
  | @primitive kind v base exact =>
    have hv : v ≠ .null := by
      rintro rfl
      cases kind <;> cases exact
    rw [Passage.convertLevel_zero hv]
    simp only [Passage.convertBase, ht, base, Passage.toPrimitive_exact exact]
  | @object cls o base descends =>
    have error : p.checkInstance s cls o.cls = none :=
      (p.checkInstance_eq_none s).2 (hr ▸ descends)
    rw [Passage.convertLevel_object (ht ▸ base), error]
  | @array n items _ ih => simp only [Passage.convertLevel, convertItems ih]

theorem fit (h : Conforms r t n v) (typed : t.isObject = false) : v.unfit? = none := by
  induction h with
  | null => rfl
  | untyped _ fit => exact fit
  | primitive _ exact => exact Value.fit_of_kind exact
  | object base => simp [FieldType.isObject, FieldType.class?, base] at typed
  | array _ ih => exact Value.unfitInItems?_eq_none.2 ih

theorem of_object (h : Conforms r t n (.ofObject o)) :
    n = 0 ∧ ∃ cls, t.base = .object cls ∧ r.isA o.cls cls = true := by
  generalize hv : Value.ofObject o = v at h
  cases h with
  | null => cases hv
  | untyped _ fit =>
    subst hv
    cases fit
  | primitive _ exact =>
    subst hv
    cases Value.fit_of_kind exact
  | @object cls o' base descends =>
    obtain rfl : o = o' := Value.ofObject_inj hv
    exact ⟨rfl, cls, base, descends⟩
  | array => cases hv

theorem of_array {items : List Value} (h : Conforms r t n (.array items)) :
    (Value.array items).unfit? = none ∨ ∃ m, n = m + 1 ∧ ∀ v ∈ items, Conforms r t m v := by
  generalize hv : Value.array items = v at h ⊢
  cases h with
  | null => cases hv
  | untyped _ fit => exact Or.inl fit
  | primitive _ exact => exact Or.inl (Value.fit_of_kind exact)
  | object => cases hv
  | array items_conform =>
    cases hv
    exact Or.inr ⟨_, rfl, items_conform⟩

theorem of_map {entries : List (String × Value)} (h : Conforms r t n (.map entries)) :
    (Value.map entries).unfit? = none := by
  generalize hv : Value.map entries = v at h ⊢
  cases h with
  | untyped _ fit => exact fit
  | primitive _ exact => exact Value.fit_of_kind exact
  | null | object | array => cases hv

end Conforms

end LazyBinding
