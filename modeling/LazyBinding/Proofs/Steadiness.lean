import LazyBinding.Proofs.SchemaOperations

/-!
# Objects do not see what has been compiled

An operation on an object gives the same in two sessions that differ only in which tables their
caches hold. Hooks included: an object is made from data in one way only.
-/
namespace LazyBinding

variable {start : Session} {build : Builder}

/-- Something that is the same in all sessions that come from `start`. -/
def Session.Steady (start : Session) {α : Type} (f : Session → α) : Prop :=
  ∀ ⦃s t : Session⦄, start.Keeps s → start.Keeps t → f s = f t

/-- What an object is made of does not depend on the session. -/
def Builder.Steady (build : Builder) (start : Session) : Prop :=
  ∀ schema cls data, start.Steady fun s => (build schema cls data s).2

theorem Session.Keeps.split {ε α : Type} {x y : Session × Except ε α} (hx : start.Keeps x.1)
    (hy : start.Keeps y.1) (h : x.2 = y.2) :
    (∃ s t e, start.Keeps s ∧ start.Keeps t ∧ x = (s, .error e) ∧ y = (t, .error e)) ∨
      ∃ s t a, start.Keeps s ∧ start.Keeps t ∧ x = (s, .ok a) ∧ y = (t, .ok a) := by
  cases hr : x.2 with
  | error e => exact Or.inl ⟨_, _, e, hx, hy, Prod.ext rfl hr, Prod.ext rfl (h ▸ hr)⟩
  | ok a => exact Or.inr ⟨_, _, a, hx, hy, Prod.ext rfl hr, Prod.ext rfl (h ▸ hr)⟩

theorem Session.Steady.split {ε α : Type} {f : Session → Session × Except ε α}
    (h : start.Steady fun s => (f s).2) (he : ∀ s : Session, s.Evolves (f s).1) {s t : Session}
    (hs : start.Keeps s) (ht : start.Keeps t) :
    (∃ s' t' e, start.Keeps s' ∧ start.Keeps t' ∧
        f s = (s', .error e) ∧ f t = (t', .error e)) ∨
      ∃ s' t' a, start.Keeps s' ∧ start.Keeps t' ∧ f s = (s', .ok a) ∧ f t = (t', .ok a) :=
  Session.Keeps.split (hs.evolves (he s)) (ht.evolves (he t)) (h hs ht)

theorem Session.registry_steady (id : SchemaId) : start.Steady fun s => s.registry id :=
  fun _ _ hs ht => (hs.registry id).trans (ht.registry id).symm

theorem Session.table_steady (id : SchemaId) (cls : ClassPath) :
    start.Steady fun s => (s.table id cls).2 := by
  have cold : ∀ {s}, start.Keeps s →
      (s.table id cls).2 = (SchemaCache.empty.compile (start.registry id) cls).2 := by
    intro s hs
    rw [← (hs.settled id).compile_eq cls, ← hs.registry id]
    rfl
  exact fun s t hs ht => (cold hs).trans (cold ht).symm

/-- What a conversion leaves besides the session. -/
def Converted.outcome (c : Converted) : Value × Option ConversionError := (c.value, c.error)

def ConvertedItems.outcome (c : ConvertedItems) : List Value × Option ConversionError :=
  (c.items, c.error)

/-- What an operation leaves besides the session. -/
def Effect.outcome {α : Type} (e : Effect α) : BoundObject × Except ObjectError α :=
  (e.object, e.result)

/-- What an analysis leaves besides the session. -/
def Analysed.outcome (a : Analysed) : BoundObject × Report × Bool :=
  (a.object, a.report, a.isComplete)

def AnalysedValue.outcome (a : AnalysedValue) : Value × Report × Bool :=
  (a.value, a.report, a.isComplete)

def AnalysedItems.outcome (a : AnalysedItems) : List Value × Report × Bool :=
  (a.items, a.report, a.isComplete)

namespace Passage

theorem construct_steady (he : build.Evolves) (hb : build.Steady start) (p : Passage)
    (cls : ClassPath) (v : Value) (data : Dict String Value) :
    start.Steady fun s => (p.construct build cls v data s).outcome := by
  intro s t hs ht
  rcases (hb p.schema cls data).split (he p.schema cls data) hs ht with
    ⟨_, _, _, _, _, hx, hy⟩ | ⟨_, _, _, _, _, hx, hy⟩
  · simp only [construct, hx, hy, Converted.outcome]
  · simp only [construct, hx, hy, Converted.outcome]

theorem materialize_steady (he : build.Evolves) (hb : build.Steady start) (p : Passage)
    (cls : ClassPath) (v : Value) :
    start.Steady fun s => (p.materialize build cls v s).outcome := by
  intro s t hs ht
  unfold materialize
  split
  · simp only [Converted.outcome, checkInstance, Session.registry_steady p.schema hs ht]
  · exact p.construct_steady he hb cls _ _ hs ht
  · exact p.construct_steady he hb cls _ _ hs ht
  · rfl
  · rfl

theorem convertBase_steady (he : build.Evolves) (hb : build.Steady start) (p : Passage)
    (v : Value) :
    start.Steady fun s => (p.convertBase build v s).outcome := by
  intro s t hs ht
  unfold convertBase
  split
  · rfl
  · rfl
  · split
    · exact p.materialize_steady he hb _ v hs ht
    · simp only [Converted.outcome, accept]
      split
      · simp only [checkInstance, Session.registry_steady p.schema hs ht]
      · rfl

theorem convertItems_steady {item : Value → Session → Converted}
    (he : ∀ v (s : Session), s.Evolves (item v s).session)
    (hi : ∀ v, start.Steady fun s => (item v s).outcome) (items : List Value) :
    start.Steady fun s => (convertItems item items s).outcome := by
  induction items with
  | nil => exact fun _ _ _ _ => rfl
  | cons v rest ih =>
    intro s t hs ht
    obtain ⟨hvalue, herror⟩ := Prod.mk.inj (hi v hs ht)
    simp only [convertItems, hvalue, herror]
    split
    · rfl
    · have h := Prod.mk.inj (ih (hs.evolves (he v s)) (ht.evolves (he v t)))
      simp only [ConvertedItems.outcome, h.1, h.2]

theorem convertLevel_steady (he : build.Evolves) (hb : build.Steady start) (p : Passage)
    (remaining : Nat) (v : Value) :
    start.Steady fun s => (p.convertLevel build remaining v s).outcome := by
  induction remaining generalizing v with
  | zero =>
    cases v with
    | null => exact fun _ _ _ _ => rfl
    | _ => exact p.convertBase_steady he hb _
  | succ remaining ih =>
    have hall := convertItems_steady (p.convertLevel_evolves he remaining) ih
    intro s t hs ht
    cases v with
    | array items =>
      obtain ⟨hitems, herror⟩ := Prod.mk.inj (hall items hs ht)
      simp only [convertLevel, Converted.outcome, hitems, herror]
    | map entries =>
      simp only [convertLevel]
      split
      · rfl
      · obtain ⟨hitems, herror⟩ := Prod.mk.inj (hall (Dict.values entries) hs ht)
        simp only [Converted.outcome, hitems, herror]
    | _ => rfl

theorem convert_steady (he : build.Evolves) (hb : build.Steady start) (p : Passage) (v : Value) :
    start.Steady fun s => (p.convert build v s).outcome := p.convertLevel_steady he hb _ v

end Passage

namespace BoundObject

theorem materializeSlot_steady (he : build.Evolves) (hb : build.Steady start) (o : BoundObject)
    (field : String) (type : FieldType) (v : Value) :
    start.Steady fun s => (o.materializeSlot build field type v s).outcome := by
  intro s t hs ht
  obtain ⟨hvalue, herror⟩ :=
    Prod.mk.inj ((o.passage field type .materialize).convert_steady he hb v hs ht)
  simp only [materializeSlot, hvalue, herror]
  split <;> rfl

theorem readWith_steady (he : build.Evolves) (hb : build.Steady start) (o : BoundObject)
    (field : String) : start.Steady fun s => (o.readWith build field s).outcome := by
  intro s t hs ht
  unfold readWith
  split
  · rfl
  · split
    · rfl
    · exact o.materializeSlot_steady he hb field _ _ hs ht

theorem openSlotWith_steady (he : build.Evolves) (hb : build.Steady start) (o : BoundObject)
    (field : String) : start.Steady fun s => (o.openSlotWith build field s).outcome := by
  intro s t hs ht
  unfold openSlotWith
  split
  · rfl
  · exact o.materializeSlot_steady he hb field _ _ hs ht

theorem writeWith_steady (he : build.Evolves) (hb : build.Steady start) (o : BoundObject)
    (field : String) (v : Value) :
    start.Steady fun s => (o.writeWith build field v s).outcome := by
  intro s t hs ht
  unfold writeWith
  split
  · rfl
  · next type _ =>
    obtain ⟨hvalue, herror⟩ :=
      Prod.mk.inj ((o.passage field type .accept).convert_steady he hb v hs ht)
    simp only [hvalue, herror]
    split <;> rfl

end BoundObject

/-- An analysis gives the same in every session. -/
def Analyser.Steady (inner : Analyser) (start : Session) : Prop :=
  ∀ o path report, start.Steady fun s => (inner o path report s).outcome

theorem analyseItems_steady {item : String → Value → Report → Session → AnalysedValue}
    (he : ∀ path v report (s : Session), s.Evolves (item path v report s).session)
    (hi : ∀ path v report, start.Steady fun s => (item path v report s).outcome)
    (path : String) (index : Nat) (items : List Value) (report : Report) :
    start.Steady fun s => (analyseItems item path index items report s).outcome := by
  induction items generalizing index report with
  | nil => exact fun _ _ _ _ => rfl
  | cons v rest ih =>
    intro s t hs ht
    have first := hi (Report.itemPath path index) v report hs ht
    simp only [AnalysedValue.outcome, Prod.mk.injEq] at first
    have others := ih (index + 1) (item (Report.itemPath path index) v report s).report
      (hs.evolves (he (Report.itemPath path index) v report s))
      (ht.evolves (he (Report.itemPath path index) v report t))
    simp only [AnalysedItems.outcome, Prod.mk.injEq] at others
    simp only [analyseItems, AnalysedItems.outcome, Prod.mk.injEq, List.cons.injEq]
    rw [← first.2.1, first.1, first.2.2, others.1, others.2.1, others.2.2]
    exact ⟨⟨rfl, rfl⟩, rfl, rfl⟩

theorem analyseNested_steady {inner : Analyser} (he : inner.Evolves) (hi : inner.Steady start)
    (depth : Nat) (path : String) (v : Value) (report : Report) :
    start.Steady fun s => (analyseNested inner depth path v report s).outcome := by
  induction depth generalizing path v report with
  | zero =>
    cases v with
    | object schema cls table data =>
      intro s t hs ht
      have h := hi ⟨schema, cls, table, data⟩ path report hs ht
      simp only [Analysed.outcome, Prod.mk.injEq] at h
      simp only [analyseNested, AnalysedValue.outcome, h.1, h.2.1, h.2.2]
    | _ => exact fun _ _ _ _ => rfl
  | succ depth ih =>
    cases v with
    | array items =>
      intro s t hs ht
      have h := analyseItems_steady (analyseNested_evolves he depth) ih path 0 items report hs ht
      simp only [AnalysedItems.outcome, Prod.mk.injEq] at h
      simp only [analyseNested, AnalysedValue.outcome, h.1, h.2.1, h.2.2]
    | _ => exact fun _ _ _ _ => rfl

namespace BoundObject

theorem analyseField_steady (he : build.Evolves) (hb : build.Steady start)
    {inner : Option Analyser} (hie : ∀ analyser, inner = some analyser → analyser.Evolves)
    (hi : ∀ analyser, inner = some analyser → analyser.Steady start) (before field : String)
    {a b : Analysed} (ha : start.Keeps a.session) (hb' : start.Keeps b.session)
    (hab : a.outcome = b.outcome) :
    (analyseField build inner before a field).outcome =
      (analyseField build inner before b field).outcome := by
  obtain ⟨s, o, report, complete⟩ := a
  obtain ⟨t, o', report', complete'⟩ := b
  simp only [Analysed.outcome, Prod.mk.injEq] at hab
  obtain ⟨rfl, rfl, rfl⟩ := hab
  change start.Keeps s at ha
  change start.Keeps t at hb'
  simp only [analyseField]
  split
  · rfl
  · next v _ =>
    generalize (if (Dict.get? o.table field).isNone then
      report.addMissing o.cls (Report.joinPath before field) else report) = noted
    generalize (Dict.get? o.table field).getD .untyped = type
    have h : (o.materializeSlot build field type v s).outcome =
        (o.materializeSlot build field type v t).outcome :=
      o.materializeSlot_steady he hb field type v ha hb'
    have hs := ha.evolves (o.materializeSlot_evolves he field type v s)
    have ht := hb'.evolves (o.materializeSlot_evolves he field type v t)
    generalize o.materializeSlot build field type v s = x at h hs ⊢
    generalize o.materializeSlot build field type v t = y at h ht ⊢
    obtain ⟨s', o, result⟩ := x
    obtain ⟨t', _, _⟩ := y
    obtain ⟨rfl, rfl⟩ := Prod.mk.inj h
    cases result with
    | error e => rfl
    | ok v =>
      cases inner with
      | none => rfl
      | some analyser =>
        dsimp only
        split
        · have h := analyseNested_steady (hie analyser rfl) (hi analyser rfl) type.depth
            (Report.joinPath before field) v noted hs ht
          simp only [AnalysedValue.outcome, Prod.mk.injEq] at h
          simp only [Analysed.outcome, h.1, h.2.1, h.2.2]
        · rfl

theorem analyseFields_steady (he : build.Evolves) (hb : build.Steady start)
    {inner : Option Analyser} (hie : ∀ analyser, inner = some analyser → analyser.Evolves)
    (hi : ∀ analyser, inner = some analyser → analyser.Steady start) (before : String)
    (fields : List String) {a b : Analysed} (ha : start.Keeps a.session)
    (hb' : start.Keeps b.session) (hab : a.outcome = b.outcome) :
    (fields.foldl (analyseField build inner before) a).outcome =
      (fields.foldl (analyseField build inner before) b).outcome := by
  induction fields generalizing a b with
  | nil => exact hab
  | cons field rest ih =>
    exact ih (ha.evolves (analyseField_evolves he hie before a field))
      (hb'.evolves (analyseField_evolves he hie before b field))
      (analyseField_steady he hb hie hi before field ha hb' hab)

theorem analyseDeep_steady (he : build.Evolves) (hb : build.Steady start) (depth : Nat) :
    Analyser.Steady (analyseDeep build depth) start := by
  induction depth with
  | zero => exact fun _ _ _ _ _ _ _ => rfl
  | succ depth ih =>
    intro o path report s t hs ht
    refine analyseFields_steady he hb (fun analyser h => ?_) (fun analyser h => ?_) path _
      (a := ⟨s, o, report, true⟩) (b := ⟨t, o, report, true⟩) hs ht rfl
    · cases h
      exact analyseDeep_evolves he depth
    · cases h
      exact ih

theorem validateWith_steady (he : build.Evolves) (hb : build.Steady start) (depth : Nat)
    (o : BoundObject) : start.Steady fun s => (o.validateWith build depth s).outcome := by
  intro s t hs ht
  have h := analyseDeep_steady he hb depth o "" .empty hs ht
  simp only [Analysed.outcome, Prod.mk.injEq] at h
  simp only [validateWith, h.1, h.2.1, h.2.2]
  split
  · rfl
  · split <;> rfl

theorem analyseFlat_steady (he : build.Evolves) (hb : build.Steady start) (o : BoundObject) :
    start.Steady fun s => (o.analyseFlat build s).outcome := by
  intro s t hs ht
  apply analyseFields_steady he hb (by simp) (by simp) "" _ (a := ⟨s, o, .empty, true⟩)
    (b := ⟨t, o, .empty, true⟩) hs ht rfl

theorem analyzeWith_steady (he : build.Evolves) (hb : build.Steady start) (depth : Nat)
    (deep : Bool) (o : BoundObject) :
    start.Steady fun s => (o.analyzeWith build depth deep s).outcome := by
  intro s t hs ht
  cases deep with
  | false =>
    have h := o.analyseFlat_steady he hb hs ht
    simp only [Analysed.outcome, Prod.mk.injEq] at h
    simp only [analyzeWith, Bool.false_eq_true, if_false, h.1, h.2.1, h.2.2]
    split <;> rfl
  | true =>
    have h := analyseDeep_steady he hb depth o "" .empty hs ht
    simp only [Analysed.outcome, Prod.mk.injEq] at h
    simp only [analyzeWith, if_true, h.1, h.2.1, h.2.2]
    split <;> rfl

end BoundObject

section

variable {object : BoundObject → Session → Session × Except ObjectError Value}

mutual

theorem Value.exportWith_steady (he : ∀ o (s : Session), s.Evolves (object o s).1)
    (ho : ∀ o, start.Steady fun s => (object o s).2) :
    ∀ v : Value, start.Steady fun s => (v.exportWith object s).2
  | .object schema cls table data => by
    intro s t hs ht
    simp only [Value.exportWith]
    exact ho _ hs ht
  | .array items => by
    intro s t hs ht
    have first :=
      (Value.exportItems_steady he ho items).split (Value.exportItems_evolves he items) hs ht
    rcases first with ⟨_, _, _, _, _, hx, hy⟩ | ⟨_, _, _, _, _, hx, hy⟩
    · simp only [Value.exportWith, hx, hy]
    · simp only [Value.exportWith, hx, hy]
  | .map entries => by
    intro s t hs ht
    have first :=
      (Value.exportEntries_steady he ho entries).split (Value.exportEntries_evolves he entries) hs
        ht
    rcases first with ⟨_, _, _, _, _, hx, hy⟩ | ⟨_, _, _, _, _, hx, hy⟩
    · simp only [Value.exportWith, hx, hy]
    · simp only [Value.exportWith, hx, hy]
  | .null | .bool _ | .int _ | .float _ | .str _ | .handle _ => by
    intro s t _ _
    simp only [Value.exportWith]

theorem Value.exportItems_steady (he : ∀ o (s : Session), s.Evolves (object o s).1)
    (ho : ∀ o, start.Steady fun s => (object o s).2) :
    ∀ items : List Value, start.Steady fun s => (Value.exportItems object items s).2
  | [] => by
    intro s t _ _
    simp only [Value.exportItems]
  | v :: rest => by
    intro s t hs ht
    have first := (Value.exportWith_steady he ho v).split (Value.exportWith_evolves he v) hs ht
    rcases first with ⟨_, _, _, _, _, hx, hy⟩ | ⟨_, _, _, hs', ht', hx, hy⟩
    · simp only [Value.exportItems, hx, hy]
    · have others :=
        (Value.exportItems_steady he ho rest).split (Value.exportItems_evolves he rest) hs' ht'
      rcases others with ⟨_, _, _, _, _, hx', hy'⟩ | ⟨_, _, _, _, _, hx', hy'⟩
      · simp only [Value.exportItems, hx, hy, hx', hy']
      · simp only [Value.exportItems, hx, hy, hx', hy']

theorem Value.exportEntries_steady (he : ∀ o (s : Session), s.Evolves (object o s).1)
    (ho : ∀ o, start.Steady fun s => (object o s).2) :
    ∀ entries : List (String × Value),
      start.Steady fun s => (Value.exportEntries object entries s).2
  | [] => by
    intro s t _ _
    simp only [Value.exportEntries]
  | (key, v) :: rest => by
    intro s t hs ht
    have first := (Value.exportWith_steady he ho v).split (Value.exportWith_evolves he v) hs ht
    rcases first with ⟨_, _, _, _, _, hx, hy⟩ | ⟨_, _, _, hs', ht', hx, hy⟩
    · simp only [Value.exportEntries, hx, hy]
    · have others :=
        (Value.exportEntries_steady he ho rest).split (Value.exportEntries_evolves he rest) hs' ht'
      rcases others with ⟨_, _, _, _, _, hx', hy'⟩ | ⟨_, _, _, _, _, hx', hy'⟩
      · simp only [Value.exportEntries, hx, hy, hx', hy']
      · simp only [Value.exportEntries, hx, hy, hx', hy']

end

namespace BoundObject

theorem exportFields_steady (he : ∀ o (s : Session), s.Evolves (object o s).1)
    (ho : ∀ o, start.Steady fun s => (object o s).2) (cls : ClassPath)
    (fields : List (String × Value)) :
    start.Steady fun s => (exportFields cls object fields s).2 := by
  induction fields with
  | nil => exact fun _ _ _ _ => rfl
  | cons entry rest ih =>
    obtain ⟨name, v⟩ := entry
    intro s t hs ht
    have first := (v.exportWith_steady he ho).split (v.exportWith_evolves he) hs ht
    rcases first with ⟨_, _, _, _, _, hx, hy⟩ | ⟨_, _, _, hs', ht', hx, hy⟩
    · simp only [exportFields, hx, hy]
    · have others := ih.split (exportFields_evolves he cls rest) hs' ht'
      rcases others with ⟨_, _, _, _, _, hx', hy'⟩ | ⟨_, _, _, _, _, hx', hy'⟩
      · simp only [exportFields, hx, hy, hx', hy']
      · simp only [exportFields, hx, hy, hx', hy']

theorem exportWith_steady (he : build.Evolves) (hb : build.Steady start) (depth : Nat)
    (o : BoundObject) : start.Steady fun s => (o.exportWith build depth s).2 := by
  induction depth generalizing o with
  | zero => exact fun _ _ _ _ => rfl
  | succ depth ih =>
    intro s t hs ht
    have hs' := hs.evolves (o.analyseFlat_evolves he s)
    have ht' := ht.evolves (o.analyseFlat_evolves he t)
    have flat := o.analyseFlat_steady he hb hs ht
    simp only [Analysed.outcome, Prod.mk.injEq] at flat
    simp only [exportWith, flat.1, flat.2.1]
    split
    · rfl
    · have fields := (exportFields_steady (exportWith_evolves he depth) ih o.cls
        (o.analyseFlat build t).object.data).split
        (exportFields_evolves (exportWith_evolves he depth) o.cls _) hs' ht'
      rcases fields with ⟨_, _, _, _, _, hx, hy⟩ | ⟨_, _, _, _, _, hx, hy⟩
      · simp only [hx, hy]
      · simp only [hx, hy]

end BoundObject

end

/-! ### Hooks -/

theorem Session.Keeps.coldTable_eq {s : Session} (hs : start.Keeps s) :
    s.coldTable = start.coldTable := by
  funext id cls
  simp only [coldTable, hs.registry id]

theorem Session.coldTable_steady : start.Steady Session.coldTable :=
  fun _ _ hs ht => hs.coldTable_eq.trans ht.coldTable_eq.symm

theorem Session.Keeps.table_eq {s : Session} (hs : start.Keeps s) (id : SchemaId)
    (cls : ClassPath) : (s.table id cls).2 = start.coldTable id cls := by
  have h := (hs.settled id).compile_eq cls
  rw [← hs.registry id] at h
  rw [← hs.coldTable_eq]
  exact h

theorem BoundObject.rebind_steady (o : BoundObject) : start.Steady fun s => o.rebind s := by
  intro s t hs ht
  simp only [rebind, Session.coldTable_steady hs ht]

/-- What a hook leaves does not depend on the session. -/
def HookRunner.Steady (hooks : HookRunner) (start : Session) : Prop :=
  ∀ o, start.Steady fun s => (hooks o s).outcome

variable {hooks : HookRunner}

theorem HookRunner.builder_steady (hh : hooks.Steady start) : hooks.builder.Steady start := by
  intro schema cls data s t hs ht
  have made := (Session.table_steady schema cls).split (fun s => .table schema cls .refl) hs ht
  rcases made with ⟨_, _, _, _, _, hx, hy⟩ | ⟨_, _, table, hs', ht', hx, hy⟩
  · simp only [builder, hx, hy]
  · obtain ⟨hobject, hresult⟩ := Prod.mk.inj (hh ⟨schema, cls, table, data⟩ hs' ht')
    simp only [builder, hx, hy, hobject, hresult]

namespace BoundObject

theorem taking_steady {α β : Type} (o : BoundObject) {given : Session → Except SchemaError α}
    (hg : start.Steady given) {next : Session → α → Effect β}
    (hn : ∀ a, start.Steady fun s => (next s a).outcome) :
    start.Steady fun s => (o.taking s (given s) (next s)).outcome := by
  intro s t hs ht
  simp only [hg hs ht]
  cases given t with
  | error e => rfl
  | ok a => exact hn a hs ht

theorem perform_steady (he : hooks.Evolves) (hh : hooks.Steady start) (depth : Nat)
    (o : BoundObject) (call : ObjectCall) :
    start.Steady fun s => (o.perform hooks depth s call).outcome := by
  have hbe := HookRunner.builder_evolves he
  have hb := HookRunner.builder_steady hh
  cases call with
  | get field => exact o.readWith_steady hbe hb field
  | openSlot field => exact o.openSlotWith_steady hbe hb field
  | set field v =>
    apply o.taking_steady
    · intro s t hs ht
      exact congrArg v.rebind (Session.coldTable_steady hs ht)
    · intro v
      exact o.writeWith_steady hbe hb field v
  | assign data =>
    apply o.taking_steady
    · intro s t hs ht
      exact congrArg (Value.rebindEntries · data) (Session.coldTable_steady hs ht)
    · intro data
      exact hh _
  | analyze deep => exact o.analyzeWith_steady hbe hb depth deep
  | validate => exact o.validateWith_steady hbe hb depth
  | exported =>
    intro s t hs ht
    exact congrArg (Prod.mk o) (o.exportWith_steady hbe hb depth hs ht)

end BoundObject

theorem Procedure.run_steady (he : hooks.Evolves) (hh : hooks.Steady start) (depth : Nat)
    (o : BoundObject) (rest : Procedure) :
    start.Steady fun s => (rest.run hooks depth o s).outcome := by
  induction rest with
  | finish left stop =>
    apply o.taking_steady left.rebind_steady
    intro left s t _ _
    rfl
  | make schema cls data next ih =>
    apply o.taking_steady
    · intro s t hs ht
      exact congrArg (Value.rebindEntries · data) (Session.coldTable_steady hs ht)
    · intro data s t hs ht
      have made := HookRunner.builder_steady hh schema cls (Dict.ofList data) hs ht
      have hs' := hs.evolves (HookRunner.builder_evolves he schema cls (Dict.ofList data) s)
      have ht' := ht.evolves (HookRunner.builder_evolves he schema cls (Dict.ofList data) t)
      simp only [made]
      exact ih _ hs' ht'
  | call target request next ih =>
    apply o.taking_steady target.rebind_steady
    intro target s t hs ht
    obtain ⟨hobject, hresult⟩ := Prod.mk.inj (target.perform_steady he hh depth request hs ht)
    have hs' := hs.evolves (target.perform_evolves he depth s request)
    have ht' := ht.evolves (target.perform_evolves he depth t request)
    simp only [hobject, hresult]
    exact ih _ _ hs' ht'
  | table schema cls next ih =>
    intro s t hs ht
    simp only [run, Session.table_steady schema cls hs ht]
    exact ih _ (hs.table schema cls) (ht.table schema cls)
  | clear schema next ih =>
    intro s t hs ht
    exact ih (hs.clear schema) (ht.clear schema)

namespace BoundObject

theorem runHook_steady (start : Session) (depth : Nat) :
    HookRunner.Steady (runHook depth) start := by
  induction depth with
  | zero =>
    intro o s t hs ht
    have hr : s.registry o.schema = t.registry o.schema := Session.registry_steady o.schema hs ht
    rcases hhook : (t.registry o.schema).hook? o.cls with _ | hook
    · simp only [runHook_hookless hhook, runHook_hookless (hr ▸ hhook), Effect.outcome]
    · simp only [runHook_zero hhook, runHook_zero (hr ▸ hhook), Effect.outcome]
  | succ depth ih =>
    intro o s t hs ht
    have hr : s.registry o.schema = t.registry o.schema := Session.registry_steady o.schema hs ht
    rcases hhook : (t.registry o.schema).hook? o.cls with _ | hook
    · simp only [runHook_hookless hhook, runHook_hookless (hr ▸ hhook), Effect.outcome]
    · simp only [runHook_succ hhook, runHook_succ (hr ▸ hhook)]
      exact (hook o).run_steady (runHook_evolves depth) ih depth o hs ht

/-- An object is made from data in one way, whatever has been compiled. -/
theorem construct_steady (start : Session) (depth : Nat) :
    Builder.Steady (construct depth) start :=
  HookRunner.builder_steady (runHook_steady start depth)

theorem builder_evolves : builder.Evolves := construct_evolves levelLimit

theorem builder_steady (start : Session) : builder.Steady start := construct_steady start levelLimit

/-! ### Objects without a hook -/

section

variable {s : Session} {schema : SchemaId} {cls : ClassPath} {data : Dict String Value}
variable {o : BoundObject}

/-- Without a hook an object is its class, its table and the data that it is made from. -/
theorem construct_hookless (hookless : (start.registry schema).hook? cls = none)
    (hs : start.Keeps s) (depth : Nat) :
    (construct depth schema cls data s).2 = .ok o ↔
      ∃ table, (s.table schema cls).2 = .ok table ∧ o = ⟨schema, cls, table, data⟩ := by
  have hs' := hs.table schema cls
  rw [construct, HookRunner.builder]
  rcases htable : s.table schema cls with ⟨s', _ | table⟩
  · simp
  · rw [htable] at hs'
    have hhook : (s'.registry schema).hook? cls = none := by
      rw [hs'.registry]
      exact hookless
    have hrun : runHook depth ⟨schema, cls, table, data⟩ s' =
        ⟨s', ⟨schema, cls, table, data⟩, .ok ()⟩ := runHook_hookless hhook
    simp [hrun, Except.map, eq_comm]

theorem builder_hookless (hstart : start.Keeps start) (hs : start.Keeps s)
    (hookless : (start.registry schema).hook? cls = none) :
    (builder schema cls data s).2 = .ok o ↔
      ∃ table, (start.table schema cls).2 = .ok table ∧ o = ⟨schema, cls, table, data⟩ := by
  have tables : (s.table schema cls).2 = (start.table schema cls).2 :=
    Session.table_steady schema cls hs hstart
  rw [builder, construct_hookless hookless hs levelLimit, tables]

end

end BoundObject

end LazyBinding
