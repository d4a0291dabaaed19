import LazyBinding.Proofs.Ripening

/-!
# Reading and analysing ripe objects

An object and a riper form of it answer alike. Reading one of their fields fails with one error or
gives values that are equal but for their objects, an analysis of both gives one report, and what
either leaves is again one object in two degrees of ripeness.
-/
namespace LazyBinding

variable {start s t : Session} {p : Passage} {n : Nat} {u v w : Value} {o o' : BoundObject}

namespace DataRipens

variable {schema : SchemaId} {table : FieldTable} {data data' : Dict String Value} {field : String}

theorem keys (h : DataRipens start schema table data data') : Dict.keys data' = Dict.keys data := by
  induction h with
  | same => rfl
  | field _ _ _ ih => exact congrArg (_ :: ·) ih

theorem get? (h : DataRipens start schema table data data') (hv : Dict.get? data field = some v) :
    ∃ w, Dict.get? data' field = some w ∧ Ripens start (FieldTable.outlet schema table field)
      (FieldTable.typeOf table field).depth v w := by
  induction h with
  | same => exact ⟨v, hv, .same v⟩
  | @field name _ w _ _ slot _ _ ih =>
    by_cases hname : name = field
    · subst hname
      obtain rfl := Option.some.inj ((if_pos rfl).symm.trans hv)
      exact ⟨w, by simp [Dict.get?], slot⟩
    · simp only [Dict.get?, if_neg hname] at hv ⊢
      exact ih hv

theorem put (h : DataRipens start schema table data data')
    (slot : Ripens start (FieldTable.outlet schema table field)
      (FieldTable.typeOf table field).depth v w) (present : field ∈ Dict.keys data) :
    DataRipens start schema table (Dict.put data field v) (Dict.put data' field w) := by
  induction h with
  | same data =>
    induction data with
    | nil => cases present
    | cons entry rest ih =>
      obtain ⟨name, u⟩ := entry
      by_cases hname : name = field
      · subst hname
        simp only [Dict.put, if_pos]
        exact .field slot (.same rest) rfl
      · have hrest : field ∈ Dict.keys rest := by
          simpa [Dict.keys, Ne.symm hname] using present
        simp only [Dict.put, if_neg hname]
        refine .field (.same u) (ih hrest) ?_
        rw [Dict.get?_put_of_ne _ _ hname, Dict.get?_put_of_ne _ _ hname]
  | @field name u u' rest rest' slot' others shadowed ih =>
    by_cases hname : name = field
    · subst hname
      simp only [Dict.put, if_pos]
      exact .field slot others shadowed
    · have hrest : field ∈ Dict.keys rest := by
        simpa [Dict.keys, Ne.symm hname] using present
      simp only [Dict.put, if_neg hname]
      refine .field slot' (ih hrest) ?_
      rw [Dict.get?_put_of_ne _ _ hname, Dict.get?_put_of_ne _ _ hname, shadowed]

end DataRipens

namespace BoundObject

variable {field : String}

theorem Ripens.revises (h : o.Ripens start o') : o.Revises o' := by
  obtain ⟨data, rfl, -⟩ := h
  exact ⟨data, rfl⟩

theorem Ripens.cls (h : o.Ripens start o') : o'.cls = o.cls := h.revises.cls

theorem Ripens.table (h : o.Ripens start o') : o'.table = o.table := h.revises.table

theorem Ripens.outlet (h : o.Ripens start o') : o'.outlet field = o.outlet field :=
  h.revises.outlet

theorem Ripens.keys (h : o.Ripens start o') : Dict.keys o'.data = Dict.keys o.data := by
  obtain ⟨data, rfl, h⟩ := h
  exact h.keys

theorem Ripens.names (h : o.Ripens start o') : Dict.names o'.data = Dict.names o.data := by
  rw [Dict.names, Dict.names, h.keys]

theorem Ripens.slot? (h : o.Ripens start o') (hv : o.slot? field = some v) :
    ∃ w, o'.slot? field = some w ∧
      LazyBinding.Ripens start (o.outlet field) (o.outlet field).type.depth v w := by
  obtain ⟨data, rfl, h⟩ := h
  exact h.get? hv

theorem Ripens.slot?_eq_none (h : o.Ripens start o') (hv : o.slot? field = none) :
    o'.slot? field = none := by
  have hkeys := h.keys
  rw [BoundObject.slot?, Dict.get?_eq_none_iff] at hv ⊢
  rwa [hkeys]

theorem Ripens.put (h : o.Ripens start o') (hv : o.slot? field = some u)
    (slot : LazyBinding.Ripens start (o.outlet field) (o.outlet field).type.depth v w) :
    (o.put field v).Ripens start (o'.put field w) := by
  obtain ⟨data, rfl, h⟩ := h
  exact ⟨_, rfl, h.put slot (mem_keys_of_slot? hv)⟩

theorem ripens_put (hv : o.slot? field = some v)
    (slot : LazyBinding.Ripens start (o.outlet field) (o.outlet field).type.depth v w) :
    o.Ripens start (o.put field w) := by
  have h := (Ripens.refl o).put hv slot
  rwa [put_slot? hv] at h

/-! ### Reading a field -/

/-- Two reads end alike. -/
inductive ReadsAlike (start : Session) (p : Passage) :
    Except ObjectError Value → Except ObjectError Value → Prop where
  | failed (e : ObjectError) : ReadsAlike start p (.error e) (.error e)
  | found {v w : Value} (alike : Alike start p p.type.depth v w) :
      ReadsAlike start p (.ok v) (.ok w)

theorem materializeSlot_ripens (instances : start.LeavesInstances) (hstart : start.Keeps start)
    (hv : o.slot? field = some v) (hs : start.Keeps s) :
    o.Ripens start
      (o.materializeSlot builder field (o.outlet field).type v s).object := by
  rw [materializeSlot_object]
  exact ripens_put hv (Passage.convertLevel_ripens instances hstart (o.outlet field) _ v hs)

theorem Ripens.materializeSlot (h : o.Ripens start o') (hv : o.slot? field = some v)
    (hw : o'.slot? field = some w) (hs : start.Keeps s) (ht : start.Keeps t) :
    (o.materializeSlot builder field (o.outlet field).type v s).object.Ripens start
        (o'.materializeSlot builder field (o.outlet field).type w t).object ∧
      ReadsAlike start (o.outlet field)
        (o.materializeSlot builder field (o.outlet field).type v s).result
        (o'.materializeSlot builder field (o.outlet field).type w t).result := by
  obtain ⟨w', hw', slot⟩ := h.slot? hv
  obtain rfl := Option.some.inj (hw'.symm.trans hw)
  obtain ⟨herror, ripens, alike⟩ := slot.convertLevel hs ht
  have hput := h.put hv ripens
  have hpassage : o'.passage field (o.outlet field).type .materialize = o.outlet field := by
    obtain ⟨data, rfl, -⟩ := h
    rfl
  have hself : o.passage field (o.outlet field).type .materialize = o.outlet field := rfl
  simp only [BoundObject.materializeSlot, Passage.convert, hpassage, hself, ← herror]
  cases hc : ((o.outlet field).convertLevel builder (o.outlet field).type.depth v s).error with
  | some e => exact ⟨hput, .failed _⟩
  | none => exact ⟨hput, .found (alike hc)⟩

theorem Ripens.fieldType (h : o.Ripens start o') : o'.fieldType field = o.fieldType field := by
  have hdata : o'.hasData field = o.hasData field := by
    rw [Bool.eq_iff_iff, hasData, hasData, Dict.has_iff, Dict.has_iff, h.keys]
  simp only [BoundObject.fieldType, h.table, h.cls, hdata]

theorem readWith_ripens (instances : start.LeavesInstances) (hstart : start.Keeps start)
    (o : BoundObject) (field : String) (hs : start.Keeps s) :
    o.Ripens start (o.readWith builder field s).object := by
  cases hv : o.slot? field with
  | none =>
    rw [readWith_absent hv]
    exact .refl o
  | some v =>
    rw [readWith_stored hv]
    exact materializeSlot_ripens instances hstart hv hs

theorem Ripens.readWith (h : o.Ripens start o') (hs : start.Keeps s) (ht : start.Keeps t) :
    ReadsAlike start (o.outlet field) (o.readWith builder field s).result
      (o'.readWith builder field t).result := by
  cases hv : o.slot? field with
  | none =>
    rw [readWith_absent hv, readWith_absent (h.slot?_eq_none hv), h.fieldType]
    cases o.fieldType field with
    | error e => exact .failed e
    | ok type => exact .found (.same .null)
  | some v =>
    obtain ⟨w, hw, -⟩ := h.slot? hv
    rw [readWith_stored hv, readWith_stored hw, h.outlet]
    exact (h.materializeSlot hv hw hs ht).2

end BoundObject

theorem Alike.eq (h : Alike start p n v w) (typed : p.type.isObject = false) : v = w := by
  induction h with
  | same => rfl
  | object typed' =>
    rw [typed] at typed'
    cases typed'
  | item _ _ ih ih' =>
    cases ih
    cases ih'
    rfl

theorem Alike.items {items : List Value} (h : Alike start p (n + 1) (.array items) w) :
    ∃ items', w = .array items' ∧ List.Forall₂ (Alike start p n) items items' := by
  generalize hv : Value.array items = v at h
  generalize hn : n + 1 = m at h
  induction h generalizing items with
  | same =>
    subst hv
    exact ⟨items, rfl, List.forall₂_same.2 fun v _ => .same v⟩
  | object => cases hn
  | item first _ _ ih =>
    cases hn
    cases hv
    obtain ⟨items', hw, hrest⟩ := ih rfl rfl
    cases hw
    exact ⟨_, rfl, .cons first hrest⟩

theorem Ripens.items {items items' : List Value}
    (h : List.Forall₂ (Ripens start p n) items items') :
    Ripens start p (n + 1) (.array items) (.array items') := by
  induction h with
  | nil => exact .same _
  | cons first _ ih => exact .item first ih

/-! ### Analyses -/

/-- Two analyses of one object in two degrees of ripeness. -/
structure Analysed.Matches (start : Session) (a a' : Analysed) : Prop where
  left : start.Keeps a.session
  right : start.Keeps a'.session
  object : a.object.Ripens start a'.object
  report : a.report = a'.report
  isComplete : a.isComplete = a'.isComplete

/-- Two analyses of the objects inside one value in two degrees of ripeness. -/
structure AnalysedValue.Matches (start : Session) (p : Passage) (n : Nat)
    (a a' : AnalysedValue) : Prop where
  left : start.Keeps a.session
  right : start.Keeps a'.session
  value : LazyBinding.Ripens start p n a.value a'.value
  report : a.report = a'.report
  isComplete : a.isComplete = a'.isComplete

/-- Two analyses of the objects inside items in two degrees of ripeness. -/
structure AnalysedItems.Matches (start : Session) (p : Passage) (n : Nat)
    (a a' : AnalysedItems) : Prop where
  left : start.Keeps a.session
  right : start.Keeps a'.session
  items : List.Forall₂ (LazyBinding.Ripens start p n) a.items a'.items
  report : a.report = a'.report
  isComplete : a.isComplete = a'.isComplete

/-- An analysis that ripens objects and gives the same of ripe ones. -/
structure Analyser.Transparent (start : Session) (inner : Analyser) : Prop where
  evolves : inner.Evolves
  ripens : ∀ (o : BoundObject) path report {s}, start.Keeps s →
    o.Ripens start (inner o path report s).object
  alike : ∀ {o o' : BoundObject} path report {s t}, o.Ripens start o' → start.Keeps s →
    start.Keeps t → Analysed.Matches start (inner o path report s) (inner o' path report t)

theorem analyseItems_ripens {item : String → Value → Report → Session → AnalysedValue}
    (he : ∀ path v report (s : Session), s.Evolves (item path v report s).session)
    (hi : ∀ path v report {s}, start.Keeps s → Ripens start p n v (item path v report s).value)
    (path : String) (index : Nat) (items : List Value) (report : Report) (hs : start.Keeps s) :
    List.Forall₂ (Ripens start p n) items (analyseItems item path index items report s).items := by
  induction items generalizing index report s with
  | nil => exact .nil
  | cons v rest ih => exact .cons (hi _ v report hs) (ih _ _ (hs.evolves (he _ v report s)))

theorem analyseNested_ripens {inner : Analyser} (hi : Analyser.Transparent start inner) (n : Nat)
    (path : String) (v : Value) (report : Report) (hs : start.Keeps s) :
    Ripens start p n v (analyseNested inner n path v report s).value := by
  induction n generalizing path v report s with
  | zero =>
    cases v with
    | object schema cls table data =>
      exact Ripens.object_iff.2 ⟨_, rfl, hi.ripens ⟨schema, cls, table, data⟩ path report hs⟩
    | _ => exact .same _
  | succ n ih =>
    cases v with
    | array items =>
      exact .items (analyseItems_ripens (analyseNested_evolves hi.evolves n)
        (fun path v report _ hs => ih path v report hs) path 0 items report hs)
    | _ => exact .same _

theorem analyseItems_alike {item : String → Value → Report → Session → AnalysedValue}
    (hi : ∀ path {v w} report {s t}, Alike start p n v w → start.Keeps s → start.Keeps t →
      AnalysedValue.Matches start p n (item path v report s) (item path w report t))
    (path : String) (index : Nat) {items items' : List Value}
    (h : List.Forall₂ (Alike start p n) items items') (report : Report) (hs : start.Keeps s)
    (ht : start.Keeps t) :
    AnalysedItems.Matches start p n (analyseItems item path index items report s)
      (analyseItems item path index items' report t) := by
  induction h generalizing index report s t with
  | nil => exact ⟨hs, ht, .nil, rfl, rfl⟩
  | @cons v w rest rest' first _ ih =>
    have hfirst := hi (Report.itemPath path index) report first hs ht
    have hothers := ih (index + 1) (item (Report.itemPath path index) v report s).report
      hfirst.left hfirst.right
    simp only [analyseItems, ← hfirst.report]
    refine ⟨hothers.left, hothers.right, .cons hfirst.value hothers.items, hothers.report, ?_⟩
    rw [hfirst.isComplete, hothers.isComplete]

theorem analyseNested_alike {inner : Analyser} (hi : Analyser.Transparent start inner) (n : Nat)
    (path : String) (report : Report) (h : Alike start p n v w) (hs : start.Keeps s)
    (ht : start.Keeps t) :
    AnalysedValue.Matches start p n (analyseNested inner n path v report s)
      (analyseNested inner n path w report t) := by
  induction n generalizing path v w report s t with
  | zero =>
    have objects : ∀ {o o' : BoundObject}, o.Ripens start o' →
        AnalysedValue.Matches start p 0 (analyseNested inner 0 path (.ofObject o) report s)
          (analyseNested inner 0 path (.ofObject o') report t) := by
      intro o o' h
      have nested := hi.alike path report h hs ht
      exact ⟨nested.left, nested.right, Ripens.object_iff.2 ⟨_, rfl, nested.object⟩, nested.report,
        nested.isComplete⟩
    cases h with
    | object _ ripens => exact objects ripens
    | same =>
      cases v with
      | object schema cls table data => exact objects (.refl ⟨schema, cls, table, data⟩)
      | _ => exact ⟨hs, ht, .same _, rfl, rfl⟩
  | succ n ih =>
    cases v with
    | array items =>
      obtain ⟨items', rfl, hitems⟩ := h.items
      have all := analyseItems_alike (fun path {v w} report {s t} => ih path report) path 0 hitems
        report hs ht
      exact ⟨all.left, all.right, .items all.items, all.report, all.isComplete⟩
    | _ =>
      cases h
      exact ⟨hs, ht, .same _, rfl, rfl⟩

namespace BoundObject

variable {inner : Option Analyser} {before : String} {a a' : Analysed}

theorem analyseField_ripens (instances : start.LeavesInstances) (hstart : start.Keeps start)
    (hi : ∀ analyser, inner = some analyser → Analyser.Transparent start analyser)
    (before field : String) (hs : start.Keeps a.session) :
    a.object.Ripens start (analyseField builder inner before a field).object := by
  cases hv : a.object.slot? field with
  | none =>
    rw [analyseField_absent hv]
    exact .refl _
  | some v =>
    have ripens := materializeSlot_ripens instances hstart hv hs
    have hs' := hs.evolves (a.object.materializeSlot_evolves builder_evolves field
      (a.object.outlet field).type v a.session)
    rw [analyseField_stored hv]
    unfold Analysed.ofRead
    split
    · exact ripens
    · next w hresult =>
      split
      · next analyser =>
        split
        · refine ripens.trans ?_
          rw [materializeSlot_found hresult]
          exact ripens_put (slot?_put a.object field w)
            (analyseNested_ripens (hi analyser rfl) _ _ w _ hs')
        · exact ripens
      · exact ripens

theorem analyseField_alike
    (hi : ∀ analyser, inner = some analyser → Analyser.Transparent start analyser)
    (before field : String) (h : Analysed.Matches start a a') :
    Analysed.Matches start (analyseField builder inner before a field)
      (analyseField builder inner before a' field) := by
  cases hv : a.object.slot? field with
  | none =>
    rw [analyseField_absent hv, analyseField_absent (h.object.slot?_eq_none hv)]
    exact h
  | some v =>
    obtain ⟨w, hw, -⟩ := h.object.slot? hv
    obtain ⟨ripens, reads⟩ := h.object.materializeSlot hv hw h.left h.right
    have hs := h.left.evolves (a.object.materializeSlot_evolves builder_evolves field
      (a.object.outlet field).type v a.session)
    have ht := h.right.evolves (a'.object.materializeSlot_evolves builder_evolves field
      (a.object.outlet field).type w a'.session)
    have found : ∀ x, (a.object.materializeSlot builder field (a.object.outlet field).type v
        a.session).result = .ok x → (a.object.materializeSlot builder field
        (a.object.outlet field).type v a.session).object = a.object.put field x :=
      fun _ => materializeSlot_found
    have hnoted : a'.noted before field = a.noted before field := by
      simp only [Analysed.noted, h.object.table, h.object.cls, h.report]
    rw [analyseField_stored hv, analyseField_stored hw, h.object.outlet, hnoted, ← h.isComplete]
    generalize a.object.materializeSlot builder field _ v a.session = read at *
    generalize a'.object.materializeSlot builder field _ w a'.session = read' at *
    obtain ⟨s', o, result⟩ := read
    obtain ⟨t', o', result'⟩ := read'
    cases reads with
    | failed e =>
      have hcls : o'.cls = o.cls := ripens.cls
      exact ⟨hs, ht, ripens, by simp only [Analysed.ofRead, hcls], rfl⟩
    | @found x y alike =>
      cases inner with
      | none => exact ⟨hs, ht, ripens, rfl, rfl⟩
      | some analyser =>
        by_cases typed : (a.object.outlet field).type.isObject
        · have nested := analyseNested_alike (hi analyser rfl) _ (Report.joinPath before field)
            (a.noted before field) alike hs ht
          simp only [Analysed.ofRead, typed, if_true]
          obtain rfl : o = a.object.put field x := found x rfl
          exact ⟨nested.left, nested.right, ripens.put (slot?_put _ _ _) nested.value,
            nested.report, by rw [nested.isComplete]⟩
        · simp only [Analysed.ofRead, typed]
          exact ⟨hs, ht, ripens, rfl, rfl⟩

theorem analyseFields_ripens (instances : start.LeavesInstances) (hstart : start.Keeps start)
    (hi : ∀ analyser, inner = some analyser → Analyser.Transparent start analyser)
    (before : String) (fields : List String) (hs : start.Keeps a.session) :
    a.object.Ripens start (fields.foldl (analyseField builder inner before) a).object := by
  induction fields generalizing a with
  | nil => exact .refl _
  | cons field rest ih =>
    have hs' := hs.evolves (analyseField_evolves builder_evolves
      (fun analyser h => (hi analyser h).evolves) before a field)
    exact (analyseField_ripens instances hstart hi before field hs).trans (ih hs')

theorem analyseFields_alike
    (hi : ∀ analyser, inner = some analyser → Analyser.Transparent start analyser)
    (before : String) (fields : List String) (h : Analysed.Matches start a a') :
    Analysed.Matches start (fields.foldl (analyseField builder inner before) a)
      (fields.foldl (analyseField builder inner before) a') := by
  induction fields generalizing a a' with
  | nil => exact h
  | cons field rest ih => exact ih (analyseField_alike hi before field h)

/-- An analysis of everything below an object ripens it, and finds the same in a riper form. -/
theorem analyseDeep_transparent (instances : start.LeavesInstances) (hstart : start.Keeps start)
    (depth : Nat) :
    Analyser.Transparent start (analyseDeep builder depth) := by
  induction depth with
  | zero => exact ⟨fun _ _ _ _ => .refl, fun _ _ _ _ _ => .refl _,
      fun _ _ _ _ h hs ht => ⟨hs, ht, h, rfl, rfl⟩⟩
  | succ depth ih =>
    have hi : ∀ analyser, some (analyseDeep builder depth) = some analyser →
        Analyser.Transparent start analyser := by
      rintro analyser ⟨⟩
      exact ih
    refine ⟨analyseDeep_evolves builder_evolves _, fun o path report s hs => ?_,
      fun path report s t h hs ht => ?_⟩
    · exact analyseFields_ripens instances hstart hi path _ (a := ⟨s, o, report, true⟩) hs
    · simp only [analyseDeep, h.names]
      exact analyseFields_alike hi path _ ⟨hs, ht, h, rfl, rfl⟩

theorem analyseFlat_ripens (instances : start.LeavesInstances) (hstart : start.Keeps start)
    (o : BoundObject) (hs : start.Keeps s) :
    o.Ripens start (o.analyseFlat builder s).object :=
  analyseFields_ripens instances hstart (by simp) "" _ (a := ⟨s, o, .empty, true⟩) hs

theorem Ripens.analyseFlat (h : o.Ripens start o') (hs : start.Keeps s) (ht : start.Keeps t) :
    Analysed.Matches start (o.analyseFlat builder s) (o'.analyseFlat builder t) := by
  simp only [BoundObject.analyseFlat, h.names]
  exact analyseFields_alike (by simp) "" _ ⟨hs, ht, h, rfl, rfl⟩

end BoundObject

end LazyBinding
