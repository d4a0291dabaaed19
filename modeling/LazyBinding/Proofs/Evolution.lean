import LazyBinding.Description
import LazyBinding.Object.Call

/-!
# Sessions evolve by compiling

Whatever is done with objects, hooks included, changes a session only by asking for tables and by
forgetting them.
-/
namespace LazyBinding

/-- The second session is the first one after tables have been asked for or forgotten. -/
inductive Session.Evolves (s : Session) : Session → Prop where
  | refl : Evolves s s
  | table {t} (id : SchemaId) (cls : ClassPath) (h : Evolves s t) : Evolves s (t.table id cls).1
  | clear {t} (id : SchemaId) (h : Evolves s t) :
      Evolves s (t.onSchema id Schema.clearCache).1

theorem Session.Evolves.trans {s t u : Session} (h : s.Evolves t) (h' : t.Evolves u) :
    s.Evolves u := by
  induction h' with
  | refl => exact h
  | table id cls _ ih => exact .table id cls ih
  | clear id _ ih => exact .clear id ih

theorem Session.Evolves.along {α : Type} {s t : Session} {a : α} {x : Session × α}
    (h : s.Evolves x.1) (heq : x = (t, a)) : s.Evolves t := by
  rwa [heq] at h

/-- The second schema is the first one after tables have been asked for. -/
inductive Schema.Evolves (s : Schema) : Schema → Prop where
  | refl : Evolves s s
  | table {t} (cls : ClassPath) (h : Evolves s t) : Evolves s (t.table cls).1

theorem Schema.Evolves.trans {s t u : Schema} (h : s.Evolves t) (h' : t.Evolves u) :
    s.Evolves u := by
  induction h' with
  | refl => exact h
  | table cls _ ih => exact .table cls ih

theorem Schema.Evolves.along {α : Type} {s t : Schema} {a : α} {x : Schema × α}
    (h : s.Evolves x.1) (heq : x = (t, a)) : s.Evolves t := by
  rwa [heq] at h

theorem Session.schema_set (s : Session) (id : SchemaId) (schema : Schema)
    (h : id < s.schemas.length) : (Session.mk (s.schemas.set id schema)).schema id = schema := by
  simp [Session.schema, h]

theorem Schema.Evolves.onSchema {s : Session} {id : SchemaId} {schema : Schema}
    (h : (s.schema id).Evolves schema) : s.Evolves ⟨s.schemas.set id schema⟩ := by
  by_cases hid : id < s.schemas.length
  · induction h with
    | refl =>
      have hself : s.schemas.set id (s.schema id) = s.schemas := by
        simp [Session.schema, hid]
      rw [hself]
      exact .refl
    | @table t cls _ ih =>
      have h := ih.table id cls
      simp only [Session.table, Session.onSchema, s.schema_set id t hid, List.set_set] at h
      exact h
  · rw [List.set_eq_of_length_le (Nat.le_of_not_lt hid)]
    exact .refl

theorem Description.definitions_evolves (budget : Nat) (queue : List ClassPath)
    (seen : OrderedSet ClassPath) (s : Schema) :
    s.Evolves (definitions budget queue seen s).1 := by
  have step : ∀ {s t : Schema} {cls result}, s.table cls = (t, result) → s.Evolves t :=
    fun h => (Schema.Evolves.table _ .refl).along h
  fun_induction definitions budget queue seen s with
  | case1 => exact .refl
  | case2 => exact .refl
  | case3 _ _ _ _ _ _ ih => exact ih
  | case4 _ _ _ _ _ _ _ _ htable => exact step htable
  | case5 _ _ _ _ _ _ _ _ htable _ _ _ _ hrest ih =>
    exact (step htable).trans (ih.along hrest)
  | case6 _ _ _ _ _ _ _ _ htable _ _ _ _ hrest ih =>
    exact (step htable).trans (ih.along hrest)

theorem Schema.jsonSchema_evolves (s : Schema) (cls : ClassPath) :
    s.Evolves (s.jsonSchema cls).1 := by
  have h := Description.definitions_evolves (s.registry.classes.length + 1) [cls] [] s
  unfold jsonSchema
  split
  · next heq => exact h.along heq
  · next heq => exact h.along heq

theorem Schema.textTable_evolves (s : Schema) (cls : ClassPath) :
    s.Evolves (s.textTable cls).1 := by
  have h : s.Evolves (s.table cls).1 := .table cls .refl
  unfold textTable
  split
  · next heq => exact h.along heq
  · next heq => exact h.along heq

/-- Making an object only asks for tables and forgets them. -/
def Builder.Evolves (build : Builder) : Prop :=
  ∀ schema cls data (s : Session), s.Evolves (build schema cls data s).1

variable {build : Builder}

namespace Passage

theorem construct_evolves (hb : build.Evolves) (p : Passage) (cls : ClassPath) (v : Value)
    (data : Dict String Value) (s : Session) :
    s.Evolves (p.construct build cls v data s).session := by
  have h := hb p.schema cls data s
  unfold construct
  split
  · next heq => exact h.along heq
  · next heq => exact h.along heq

theorem materialize_evolves (hb : build.Evolves) (p : Passage) (cls : ClassPath) (v : Value)
    (s : Session) : s.Evolves (p.materialize build cls v s).session := by
  unfold materialize
  split
  · exact .refl
  · exact p.construct_evolves hb cls _ _ s
  · exact p.construct_evolves hb cls _ _ s
  · exact .refl
  · exact .refl

theorem convertBase_evolves (hb : build.Evolves) (p : Passage) (v : Value) (s : Session) :
    s.Evolves (p.convertBase build v s).session := by
  unfold convertBase
  split
  · exact .refl
  · exact .refl
  · split
    · exact p.materialize_evolves hb _ v s
    · exact .refl

theorem convertItems_evolves {item : Value → Session → Converted}
    (hi : ∀ v (s : Session), s.Evolves (item v s).session) (items : List Value) (s : Session) :
    s.Evolves (convertItems item items s).session := by
  induction items generalizing s with
  | nil => exact .refl
  | cons v rest ih =>
    unfold convertItems
    dsimp only
    split
    · exact hi v s
    · exact (hi v s).trans (ih _)

section Items

variable {item : Value → Session → Converted} {P : Session → Prop} {Q : Value → Prop}
  {items : List Value} {s : Session}

/-- What holds of all items and is kept by each conversion also holds of what is left of the items,
however far the conversion has come. -/
theorem convertItems_keeps (hp : ∀ v s, P s → P (item v s).session)
    (hi : ∀ v s, P s → Q v → Q (item v s).value) (hs : P s) (h : ∀ v ∈ items, Q v) :
    ∀ v ∈ (convertItems item items s).items, Q v := by
  induction items generalizing s with
  | nil => exact List.forall_mem_nil _
  | cons v rest ih =>
    obtain ⟨first, others⟩ := List.forall_mem_cons.1 h
    rw [convertItems]
    dsimp only
    split
    · exact List.forall_mem_cons.2 ⟨hi v s hs first, others⟩
    · exact List.forall_mem_cons.2 ⟨hi v s hs first, ih (hp v s hs) others⟩

/-- If all items convert, what each conversion gives holds of all that is left. -/
theorem convertItems_forall (hp : ∀ v s, P s → P (item v s).session)
    (hi : ∀ v ∈ items, ∀ s, P s → (item v s).error = none → Q (item v s).value) (hs : P s)
    (h : (convertItems item items s).error = none) :
    ∀ v ∈ (convertItems item items s).items, Q v := by
  induction items generalizing s with
  | nil => exact List.forall_mem_nil _
  | cons v rest ih =>
    rw [convertItems] at h ⊢
    dsimp only at h ⊢
    split at h
    · cases h
    · next first =>
      have others := ih (fun u hu => hi u (List.mem_cons_of_mem v hu)) (hp v s hs) h
      exact List.forall_mem_cons.2 ⟨hi v List.mem_cons_self s hs first, others⟩

end Items

theorem convertLevel_evolves (hb : build.Evolves) (p : Passage) (remaining : Nat) (v : Value)
    (s : Session) : s.Evolves (p.convertLevel build remaining v s).session := by
  induction remaining generalizing v s with
  | zero =>
    cases v with
    | null => exact .refl
    | _ => exact p.convertBase_evolves hb _ s
  | succ remaining ih =>
    have hall := fun items => convertItems_evolves ih items s
    cases v with
    | array items => exact hall items
    | map entries =>
      simp only [convertLevel]
      split
      · exact .refl
      · exact hall _
    | _ => exact .refl

theorem convert_evolves (hb : build.Evolves) (p : Passage) (v : Value) (s : Session) :
    s.Evolves (p.convert build v s).session := p.convertLevel_evolves hb _ v s

end Passage

namespace BoundObject

theorem materializeSlot_session (build : Builder) (o : BoundObject) (field : String)
    (type : FieldType) (v : Value) (s : Session) :
    (o.materializeSlot build field type v s).session =
      ((o.passage field type .materialize).convert build v s).session := by
  unfold materializeSlot
  dsimp only
  split <;> rfl

theorem materializeSlot_object (build : Builder) (o : BoundObject) (field : String)
    (type : FieldType) (v : Value) (s : Session) :
    (o.materializeSlot build field type v s).object =
      o.put field ((o.passage field type .materialize).convert build v s).value := by
  unfold materializeSlot
  dsimp only
  split <;> rfl

theorem materializeSlot_evolves (hb : build.Evolves) (o : BoundObject) (field : String)
    (type : FieldType) (v : Value) (s : Session) :
    s.Evolves (o.materializeSlot build field type v s).session := by
  rw [materializeSlot_session]
  exact (o.passage field type .materialize).convert_evolves hb v s

theorem readWith_evolves (hb : build.Evolves) (o : BoundObject) (field : String) (s : Session) :
    s.Evolves (o.readWith build field s).session := by
  unfold readWith
  split
  · exact .refl
  · split
    · exact .refl
    · exact o.materializeSlot_evolves hb field _ _ s

theorem openSlotWith_evolves (hb : build.Evolves) (o : BoundObject) (field : String)
    (s : Session) : s.Evolves (o.openSlotWith build field s).session := by
  unfold openSlotWith
  split
  · exact .refl
  · exact o.materializeSlot_evolves hb field _ _ s

theorem writeWith_evolves (hb : build.Evolves) (o : BoundObject) (field : String) (v : Value)
    (s : Session) : s.Evolves (o.writeWith build field v s).session := by
  unfold writeWith
  split
  · exact .refl
  · next type _ =>
    have h := (o.passage field type .accept).convert_evolves hb v s
    dsimp only
    split
    · exact h
    · exact h

end BoundObject

/-- An analysis only asks for tables and forgets them. -/
def Analyser.Evolves (inner : Analyser) : Prop :=
  ∀ o path report (s : Session), s.Evolves (inner o path report s).session

theorem analyseItems_evolves {item : String → Value → Report → Session → AnalysedValue}
    (hi : ∀ path v report (s : Session), s.Evolves (item path v report s).session)
    (path : String) (index : Nat) (items : List Value) (report : Report) (s : Session) :
    s.Evolves (analyseItems item path index items report s).session := by
  induction items generalizing index report s with
  | nil => exact .refl
  | cons v rest ih => exact (hi _ v report s).trans (ih _ _ _)

theorem analyseNested_evolves {inner : Analyser} (hi : inner.Evolves) (depth : Nat)
    (path : String) (v : Value) (report : Report) (s : Session) :
    s.Evolves (analyseNested inner depth path v report s).session := by
  induction depth generalizing path v report s with
  | zero =>
    cases v with
    | object schema cls table data => exact hi _ path report s
    | _ => exact .refl
  | succ depth ih =>
    cases v with
    | array items => exact analyseItems_evolves ih path 0 items report s
    | _ => exact .refl

namespace BoundObject

theorem analyseField_evolves (hb : build.Evolves) {inner : Option Analyser}
    (hi : ∀ analyser, inner = some analyser → analyser.Evolves) (before : String) (a : Analysed)
    (field : String) : a.session.Evolves (analyseField build inner before a field).session := by
  unfold analyseField
  split
  · exact .refl
  · next v _ =>
    have h := a.object.materializeSlot_evolves hb field
      ((Dict.get? a.object.table field).getD .untyped) v a.session
    dsimp only
    split
    · exact h
    · split
      · next analyser =>
        split
        · exact h.trans (analyseNested_evolves (hi analyser rfl) _ _ _ _ _)
        · exact h
      · exact h

theorem analyseFields_evolves (hb : build.Evolves) {inner : Option Analyser}
    (hi : ∀ analyser, inner = some analyser → analyser.Evolves) (before : String)
    (fields : List String) (a : Analysed) :
    a.session.Evolves (fields.foldl (analyseField build inner before) a).session := by
  induction fields generalizing a with
  | nil => exact .refl
  | cons field rest ih => exact (analyseField_evolves hb hi before a field).trans (ih _)

theorem analyseFlat_evolves (hb : build.Evolves) (o : BoundObject) (s : Session) :
    s.Evolves (o.analyseFlat build s).session :=
  analyseFields_evolves hb (by simp) "" _ ⟨s, o, .empty, true⟩

theorem analyseDeep_evolves (hb : build.Evolves) (depth : Nat) :
    Analyser.Evolves (analyseDeep build depth) := by
  induction depth with
  | zero => intro o path report s; exact .refl
  | succ depth ih =>
    intro o path report s
    refine analyseFields_evolves hb (fun analyser h => ?_) path _ ⟨s, o, report, true⟩
    cases h
    exact ih

theorem validateWith_evolves (hb : build.Evolves) (depth : Nat) (o : BoundObject) (s : Session) :
    s.Evolves (o.validateWith build depth s).session := by
  have h := analyseDeep_evolves hb depth o "" .empty s
  unfold validateWith
  dsimp only
  split
  · exact h
  · split
    · exact h
    · exact h

theorem analyzeWith_evolves (hb : build.Evolves) (depth : Nat) (deep : Bool) (o : BoundObject)
    (s : Session) : s.Evolves (o.analyzeWith build depth deep s).session := by
  have hflat := o.analyseFlat_evolves hb s
  have hdeep := analyseDeep_evolves hb depth o "" .empty s
  cases deep with
  | false =>
    simp only [analyzeWith, Bool.false_eq_true, if_false]
    split
    · exact hflat
    · exact hflat
  | true =>
    simp only [analyzeWith, if_true]
    split
    · exact hdeep
    · exact hdeep

end BoundObject

mutual

theorem Value.exportWith_evolves
    {object : BoundObject → Session → Session × Except ObjectError Value}
    (ho : ∀ o (s : Session), s.Evolves (object o s).1) :
    ∀ (v : Value) (s : Session), s.Evolves (v.exportWith object s).1
  | .object schema cls table data, s => by
    unfold Value.exportWith
    exact ho _ s
  | .array items, s => by
    have h := Value.exportItems_evolves ho items s
    unfold Value.exportWith
    split
    · next heq => exact h.along heq
    · next heq => exact h.along heq
  | .map entries, s => by
    have h := Value.exportEntries_evolves ho entries s
    unfold Value.exportWith
    split
    · next heq => exact h.along heq
    · next heq => exact h.along heq
  | .null, _ | .bool _, _ | .int _, _ | .float _, _ | .str _, _ | .handle _, _ => by
    unfold Value.exportWith
    exact .refl

theorem Value.exportItems_evolves
    {object : BoundObject → Session → Session × Except ObjectError Value}
    (ho : ∀ o (s : Session), s.Evolves (object o s).1) :
    ∀ (items : List Value) (s : Session), s.Evolves (Value.exportItems object items s).1
  | [], _ => by
    unfold Value.exportItems
    exact .refl
  | v :: rest, s => by
    have h := Value.exportWith_evolves ho v s
    unfold Value.exportItems
    split
    · next heq => exact h.along heq
    · next s' v heq =>
      have h := h.along heq
      have h' := Value.exportItems_evolves ho rest s'
      split
      · next heq => exact h.trans (h'.along heq)
      · next heq => exact h.trans (h'.along heq)

theorem Value.exportEntries_evolves
    {object : BoundObject → Session → Session × Except ObjectError Value}
    (ho : ∀ o (s : Session), s.Evolves (object o s).1) :
    ∀ (entries : List (String × Value)) (s : Session),
      s.Evolves (Value.exportEntries object entries s).1
  | [], _ => by
    unfold Value.exportEntries
    exact .refl
  | (_, v) :: rest, s => by
    have h := Value.exportWith_evolves ho v s
    unfold Value.exportEntries
    split
    · next heq => exact h.along heq
    · next s' v heq =>
      have h := h.along heq
      have h' := Value.exportEntries_evolves ho rest s'
      split
      · next heq => exact h.trans (h'.along heq)
      · next heq => exact h.trans (h'.along heq)

end

namespace BoundObject

theorem exportFields_evolves {object : BoundObject → Session → Session × Except ObjectError Value}
    (ho : ∀ o (s : Session), s.Evolves (object o s).1) (cls : ClassPath)
    (fields : List (String × Value)) (s : Session) :
    s.Evolves (exportFields cls object fields s).1 := by
  induction fields generalizing s with
  | nil => exact .refl
  | cons entry rest ih =>
    obtain ⟨name, v⟩ := entry
    have h := v.exportWith_evolves ho s
    unfold exportFields
    split
    · next heq => exact h.along heq
    · next s' v heq =>
      have h := h.along heq
      have h' := ih s'
      split
      · next heq => exact h.trans (h'.along heq)
      · next heq => exact h.trans (h'.along heq)

theorem exportWith_evolves (hb : build.Evolves) (depth : Nat) (o : BoundObject) (s : Session) :
    s.Evolves (exportWith build depth o s).1 := by
  induction depth generalizing o s with
  | zero => exact .refl
  | succ depth ih =>
    have hflat := o.analyseFlat_evolves hb s
    unfold exportWith
    dsimp only
    split
    · exact hflat
    · have h := exportFields_evolves ih o.cls (o.analyseFlat build s).object.data
        (o.analyseFlat build s).session
      split
      · next heq => exact hflat.trans (h.along heq)
      · next heq => exact hflat.trans (h.along heq)

end BoundObject

/-! ### Hooks -/

/-- Running a hook only asks for tables and forgets them. -/
def HookRunner.Evolves (hooks : HookRunner) : Prop :=
  ∀ o (s : Session), s.Evolves (hooks o s).session

variable {hooks : HookRunner}

theorem HookRunner.builder_evolves (hh : hooks.Evolves) : hooks.builder.Evolves := by
  intro schema cls data s
  have h : s.Evolves (s.table schema cls).1 := .table schema cls .refl
  unfold builder
  split
  · next heq => exact h.along heq
  · next heq => exact (h.along heq).trans (hh _ _)

namespace BoundObject

theorem taking_evolves {α β : Type} (o : BoundObject) (s : Session) (given : Except SchemaError α)
    {next : α → Effect β} (hn : ∀ a, s.Evolves (next a).session) :
    s.Evolves (o.taking s given next).session := by
  cases given with
  | error e => exact .refl
  | ok a => exact hn a

theorem perform_evolves (hh : hooks.Evolves) (depth : Nat) (o : BoundObject) (s : Session)
    (call : ObjectCall) : s.Evolves (o.perform hooks depth s call).session := by
  have hb := HookRunner.builder_evolves hh
  cases call with
  | get field => exact o.readWith_evolves hb field s
  | openSlot field => exact o.openSlotWith_evolves hb field s
  | set field v =>
    apply o.taking_evolves s
    intro v
    exact o.writeWith_evolves hb field v s
  | assign data =>
    apply o.taking_evolves s
    intro data
    exact hh _ s
  | analyze deep => exact o.analyzeWith_evolves hb depth deep s
  | validate => exact o.validateWith_evolves hb depth s
  | exported => exact o.exportWith_evolves hb depth s

end BoundObject

theorem Procedure.run_evolves (hh : hooks.Evolves) (depth : Nat) (o : BoundObject)
    (rest : Procedure) (s : Session) : s.Evolves (rest.run hooks depth o s).session := by
  induction rest generalizing s with
  | finish left stop =>
    apply o.taking_evolves s
    intro left
    exact .refl
  | make schema cls data next ih =>
    apply o.taking_evolves s
    intro data
    exact (HookRunner.builder_evolves hh schema cls _ s).trans (ih _ _)
  | call target request next ih =>
    apply o.taking_evolves s
    intro target
    exact (target.perform_evolves hh depth s request).trans (ih _ _ _)
  | table schema cls next ih =>
    have h : s.Evolves (s.table schema cls).1 := .table schema cls .refl
    exact h.trans (ih _ _)
  | clear schema next ih =>
    have h : s.Evolves (s.onSchema schema Schema.clearCache).1 := .clear schema .refl
    exact h.trans (ih _)

namespace BoundObject

theorem runHook_evolves (depth : Nat) : HookRunner.Evolves (runHook depth) := by
  induction depth with
  | zero =>
    intro o s
    rcases hhook : (s.registry o.schema).hook? o.cls with _ | hook
    · rw [runHook_hookless hhook]
      exact .refl
    · rw [runHook_zero hhook]
      exact .refl
  | succ depth ih =>
    intro o s
    rcases hhook : (s.registry o.schema).hook? o.cls with _ | hook
    · rw [runHook_hookless hhook]
      exact .refl
    · rw [runHook_succ hhook]
      exact (hook o).run_evolves ih depth o s

theorem construct_evolves (depth : Nat) : Builder.Evolves (construct depth) :=
  HookRunner.builder_evolves (runHook_evolves depth)

/-! ### Operations -/

theorem make_evolves (schema : SchemaId) (cls : ClassPath) (data : Dict String Value)
    (s : Session) : s.Evolves (make schema cls data s).1 :=
  construct_evolves _ schema cls data s

theorem validate_evolves (o : BoundObject) (s : Session) : s.Evolves (o.validate s).session :=
  o.validateWith_evolves (construct_evolves _) _ s

theorem makeValidated_evolves (strict : Bool) (schema : SchemaId) (cls : ClassPath)
    (data : Dict String Value) (s : Session) :
    s.Evolves (makeValidated strict schema cls data s).1 := by
  have h := make_evolves schema cls data s
  unfold makeValidated
  split
  · next heq => exact h.along heq
  · next s' o heq =>
    have h := h.along heq
    split
    · exact h.trans (o.validate_evolves s')
    · exact h

theorem ofDecoded_evolves (schema : SchemaId) (cls : ClassPath)
    (decoded : Except ObjectError Value) (s : Session) :
    s.Evolves (ofDecoded schema cls decoded s).1 := by
  unfold ofDecoded
  split
  · exact .refl
  · exact make_evolves schema cls _ s
  · exact make_evolves schema cls _ s
  · exact .refl

theorem ofDocument_evolves (schema : SchemaId) (cls : ClassPath) (document : Json)
    (s : Session) : s.Evolves (ofDocument schema cls document s).1 := by
  unfold ofDocument
  split
  · exact makeValidated_evolves _ schema cls _ s
  · exact .refl

theorem assign_evolves (o : BoundObject) (data : Dict String Value) (s : Session) :
    s.Evolves (o.assign data s).session :=
  runHook_evolves _ _ s

theorem analyze_evolves (o : BoundObject) (deep : Bool) (s : Session) :
    s.Evolves (o.analyze deep s).session :=
  o.analyzeWith_evolves (construct_evolves _) _ deep s

theorem access_evolves (o : BoundObject) (a : Accessor) (field : String)
    (arguments : List Value) (s : Session) : s.Evolves (o.access a field arguments s).session := by
  cases a with
  | get => exact o.readWith_evolves (construct_evolves _) field s
  | set => exact o.writeWith_evolves (construct_evolves _) field _ s
  | has | is | unset => exact .refl

theorem call_evolves (o : BoundObject) (name : String) (arguments : List Value) (s : Session) :
    s.Evolves (o.call name arguments s).session := by
  unfold call
  split
  · exact .refl
  · split
    · exact .refl
    · split
      · exact o.access_evolves _ _ arguments s
      · exact .refl

theorem exported_evolves (o : BoundObject) (s : Session) : s.Evolves (o.exported s).1 :=
  o.exportWith_evolves (construct_evolves _) _ s

end BoundObject

end LazyBinding
