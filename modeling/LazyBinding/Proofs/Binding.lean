import LazyBinding.Proofs.Acceptance
import LazyBinding.Proofs.Steadiness

/-!
# Objects stay bound

Reading, writing and analysing an object only change its data. A hook may put another object in its
place, but whatever it leaves is bound to the table of its class.
-/
namespace LazyBinding

/-- The second object is the first one with other data. -/
def BoundObject.Revises (o o' : BoundObject) : Prop := ∃ data, o' = { o with data := data }

namespace BoundObject

variable {build : Builder} {o o' o'' : BoundObject}

theorem Revises.refl (o : BoundObject) : o.Revises o := ⟨o.data, rfl⟩

theorem Revises.trans (h : o.Revises o') (h' : o'.Revises o'') : o.Revises o'' := by
  obtain ⟨data, rfl⟩ := h
  obtain ⟨data', rfl⟩ := h'
  exact ⟨data', rfl⟩

theorem revises_put (o : BoundObject) (field : String) (v : Value) : o.Revises (o.put field v) :=
  ⟨_, rfl⟩

theorem materializeSlot_revises (build : Builder) (o : BoundObject) (field : String)
    (type : FieldType) (v : Value) (s : Session) :
    o.Revises (o.materializeSlot build field type v s).object := by
  rw [materializeSlot_object]
  exact o.revises_put field _

theorem readWith_revises (build : Builder) (o : BoundObject) (field : String) (s : Session) :
    o.Revises (o.readWith build field s).object := by
  unfold readWith
  split
  · exact .refl o
  · split
    · exact .refl o
    · exact o.materializeSlot_revises build field _ _ s

theorem openSlotWith_revises (build : Builder) (o : BoundObject) (field : String) (s : Session) :
    o.Revises (o.openSlotWith build field s).object := by
  unfold openSlotWith
  split
  · exact .refl o
  · exact o.materializeSlot_revises build field _ _ s

theorem writeWith_revises (build : Builder) (o : BoundObject) (field : String) (v : Value)
    (s : Session) : o.Revises (o.writeWith build field v s).object := by
  unfold writeWith
  split
  · exact .refl o
  · dsimp only
    split
    · exact .refl o
    · exact o.revises_put field _

theorem analyseField_revises (build : Builder) (inner : Option Analyser) (before : String)
    (a : Analysed) (field : String) :
    a.object.Revises (analyseField build inner before a field).object := by
  unfold analyseField
  split
  · exact .refl _
  · next v _ =>
    have h := a.object.materializeSlot_revises build field
      ((Dict.get? a.object.table field).getD .untyped) v a.session
    dsimp only
    split
    · exact h
    · split
      · split
        · exact h.trans (revises_put _ field _)
        · exact h
      · exact h

theorem analyseDeep_revises (build : Builder) (depth : Nat) (o : BoundObject) (path : String)
    (report : Report) (s : Session) :
    o.Revises (analyseDeep build depth o path report s).object := by
  have fields : ∀ inner (fields : List String) (a : Analysed),
      a.object.Revises (fields.foldl (analyseField build inner path) a).object := by
    intro inner fields
    induction fields with
    | nil => exact fun a => .refl _
    | cons field rest ih =>
      exact fun a => (analyseField_revises build inner path a field).trans (ih _)
  cases depth with
  | zero => exact .refl o
  | succ depth => exact fields _ _ ⟨s, o, report, true⟩

theorem validateWith_revises (build : Builder) (depth : Nat) (o : BoundObject) (s : Session) :
    o.Revises (o.validateWith build depth s).object := by
  have h := analyseDeep_revises build depth o "" .empty s
  unfold validateWith
  dsimp only
  split
  · exact h
  · split
    · exact h
    · exact h

variable {start s : Session}

/-- The table of the object is the one that its class compiles to. -/
def IsBound (start : Session) (o : BoundObject) : Prop :=
  start.coldTable o.schema o.cls = .ok o.table

theorem IsBound.revised (h : o.IsBound start) (revises : o.Revises o') : o'.IsBound start := by
  obtain ⟨_, rfl⟩ := revises
  exact h

theorem IsBound.table (h : o.IsBound start) (hs : start.Keeps s) :
    (s.table o.schema o.cls).2 = .ok o.table := by
  rw [hs.table_eq]
  exact h

theorem isBound_of_table (hs : start.Keeps s) (h : (s.table o.schema o.cls).2 = .ok o.table) :
    o.IsBound start := by
  rw [hs.table_eq] at h
  exact h

theorem IsBound.registered (h : o.IsBound start) :
    (start.registry o.schema).contains o.cls = true :=
  ((SchemaCache.settled_empty _).sound_of_compile h .refl).registered

theorem rebind_eq_ok {left : BoundObject} (h : o.rebind s = .ok left) :
    ∃ table data, s.coldTable o.schema o.cls = .ok table ∧
      Value.rebindEntries s.coldTable o.data = .ok data ∧
      left = ⟨o.schema, o.cls, table, Dict.ofList data⟩ := by
  unfold rebind at h
  split at h
  · cases h
  · cases h
  · next table data htable hdata =>
    cases h
    exact ⟨table, data, htable, hdata, rfl⟩

theorem isBound_of_rebind (hs : start.Keeps s) {left : BoundObject} (h : o.rebind s = .ok left) :
    left.IsBound start := by
  obtain ⟨table, data, htable, -, rfl⟩ := rebind_eq_ok h
  rw [hs.coldTable_eq] at htable
  exact htable

theorem taking_eq_ok {α β : Type} {given : Except SchemaError α} {next : α → Effect β} {b : β}
    (h : (o.taking s given next).result = .ok b) :
    ∃ a, given = .ok a ∧ o.taking s given next = next a := by
  cases given with
  | error e => cases h
  | ok a => exact ⟨a, rfl, rfl⟩

theorem taking_object {α β : Type} {given : Except SchemaError α} {next : α → Effect β}
    {P : BoundObject → Prop} (ho : P o) (hn : ∀ a, given = .ok a → P (next a).object) :
    P (o.taking s given next).object := by
  cases given with
  | error e => exact ho
  | ok a => exact hn a rfl

end BoundObject

variable {start : Session} {hooks : HookRunner} {o : BoundObject}

/-- Whatever a hook leaves is bound. -/
theorem Procedure.run_isBound (he : hooks.Evolves) (depth : Nat) (ho : o.IsBound start)
    (rest : Procedure) {s : Session} (hs : start.Keeps s) :
    (rest.run hooks depth o s).object.IsBound start := by
  induction rest generalizing s with
  | finish left stop =>
    apply BoundObject.taking_object ho
    intro left hleft
    exact BoundObject.isBound_of_rebind hs hleft
  | make schema cls data next ih =>
    apply BoundObject.taking_object ho
    intro data _
    exact ih _ (hs.evolves (HookRunner.builder_evolves he schema cls _ s))
  | call target request next ih =>
    apply BoundObject.taking_object ho
    intro target _
    exact ih _ _ (hs.evolves (target.perform_evolves he depth s request))
  | table schema cls next ih => exact ih _ (hs.table schema cls)
  | clear schema next ih => exact ih (hs.clear schema)

namespace BoundObject

variable {s : Session}

theorem runHook_isBound (depth : Nat) (ho : o.IsBound start) (hs : start.Keeps s) :
    (runHook depth o s).object.IsBound start := by
  rcases hhook : (s.registry o.schema).hook? o.cls with _ | hook
  · rw [runHook_hookless hhook]
    exact ho
  · cases depth with
    | zero =>
      rw [runHook_zero hhook]
      exact ho
    | succ depth =>
      rw [runHook_succ hhook]
      exact (hook o).run_isBound (runHook_evolves depth) depth ho hs

theorem construct_eq_ok {depth : Nat} {schema : SchemaId} {cls : ClassPath}
    {data : Dict String Value} (made : (construct depth schema cls data s).2 = .ok o) :
    ∃ table, (s.table schema cls).2 = .ok table ∧
      (runHook depth ⟨schema, cls, table, data⟩ (s.table schema cls).1).object = o ∧
      (runHook depth ⟨schema, cls, table, data⟩ (s.table schema cls).1).result = .ok () := by
  unfold construct HookRunner.builder at made
  split at made
  · cases made
  · next s' table htable =>
    rw [htable]
    refine ⟨table, rfl, ?_⟩
    dsimp only at made ⊢
    generalize runHook depth _ s' = effect at made ⊢
    obtain ⟨_, object, result⟩ := effect
    cases result with
    | error e => cases made
    | ok _ =>
      cases made
      exact ⟨rfl, rfl⟩

theorem construct_isBound (hs : start.Keeps s) {depth : Nat} {schema : SchemaId} {cls : ClassPath}
    {data : Dict String Value} (made : (construct depth schema cls data s).2 = .ok o) :
    o.IsBound start := by
  obtain ⟨table, compiled, rfl, -⟩ := construct_eq_ok made
  apply runHook_isBound depth _ (hs.table schema cls)
  exact isBound_of_table hs compiled

end BoundObject

end LazyBinding
