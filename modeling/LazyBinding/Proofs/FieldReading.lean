import LazyBinding.Proofs.ConversionSteps

/-!
# Reading one field after the other

A read converts what it finds in the slot of a field and puts it back there. So an analysis, which
reads each stored field once, leaves the other fields of the object as they are, and what it finds in
a field is what was stored before the analysis began.
-/
namespace LazyBinding

/-- The type of a stored field: one that is not declared is untyped. -/
def FieldTable.typeOf (table : FieldTable) (field : String) : FieldType :=
  (Dict.get? table field).getD .untyped

/-- The way of a stored field to its readers. -/
def FieldTable.outlet (schema : SchemaId) (table : FieldTable) (field : String) : Passage :=
  ⟨schema, field, FieldTable.typeOf table field, .materialize⟩

variable {start s t : Session} {n : Nat} {u v w : Value} {o o' o'' : BoundObject}

namespace BoundObject

variable {field name : String}

def outlet (o : BoundObject) (field : String) : Passage := FieldTable.outlet o.schema o.table field

theorem outlet_eq {type : FieldType} (declared : Dict.get? o.table field = some type) :
    o.outlet field = ⟨o.schema, field, type, .materialize⟩ := by
  simp only [outlet, FieldTable.outlet, FieldTable.typeOf, declared, Option.getD_some]

theorem mem_keys_of_slot? (hv : o.slot? field = some v) : field ∈ Dict.keys o.data :=
  List.mem_map_of_mem (Dict.mem_of_get? hv)

theorem put_slot? (hv : o.slot? field = some v) : o.put field v = o := by
  unfold BoundObject.put
  rw [Dict.put_get? hv]

theorem slot?_put (o : BoundObject) (field : String) (v : Value) :
    (o.put field v).slot? field = some v := Dict.get?_put_self _ _ _

theorem slot?_put_of_ne (hne : name ≠ field) (o : BoundObject) (v : Value) :
    (o.put field v).slot? name = o.slot? name := Dict.get?_put_of_ne _ _ hne

theorem keys_put (hv : o.slot? field = some u) (v : Value) :
    Dict.keys (o.put field v).data = Dict.keys o.data := by
  rw [put, Dict.keys_put, if_pos (mem_keys_of_slot? hv)]

/-! ### Reading a field -/

theorem materializeSlot_found {type : FieldType}
    (h : (o.materializeSlot builder field type v s).result = .ok w) :
    (o.materializeSlot builder field type v s).object = o.put field w := by
  unfold materializeSlot at h ⊢
  dsimp only at h ⊢
  split at h
  · cases h
  · cases h
    rfl

/-- A stored value is put back converted, and a reader gets it unless the conversion fails. -/
theorem materializeSlot_cases (o : BoundObject) (field : String) (v : Value) (s : Session) :
    let converted := (o.outlet field).convert builder v s
    (∃ e, converted.error = some e ∧
        o.materializeSlot builder field (o.outlet field).type v s =
          ⟨converted.session, o.put field converted.value, .error (.conversion e)⟩) ∨
      converted.error = none ∧
        o.materializeSlot builder field (o.outlet field).type v s =
          ⟨converted.session, o.put field converted.value, .ok converted.value⟩ := by
  have hself : o.passage field (o.outlet field).type .materialize = o.outlet field := rfl
  intro converted
  cases h : converted.error with
  | some e => exact Or.inl ⟨e, rfl, by simp only [materializeSlot, hself, converted, h]⟩
  | none => exact Or.inr ⟨rfl, by simp only [materializeSlot, hself, converted, h]⟩

theorem materializeSlot_result (o : BoundObject) (field : String) (v : Value)
    (hstart : start.Keeps start) (hs : start.Keeps s) :
    (o.materializeSlot builder field (o.outlet field).type v s).result =
      match ((o.outlet field).convert builder v start).error with
      | some e => .error (.conversion e)
      | none => .ok ((o.outlet field).convert builder v start).value := by
  obtain ⟨hvalue, herror⟩ := Prod.mk.inj
    ((o.outlet field).convert_steady builder_evolves (builder_steady start) v hs hstart)
  have hself : o.passage field (o.outlet field).type .materialize = o.outlet field := rfl
  simp only [materializeSlot, hself, hvalue, herror]
  cases ((o.outlet field).convert builder v start).error <;> rfl

theorem readWith_stored {build : Builder} (hv : o.slot? field = some v) (s : Session) :
    o.readWith build field s = o.materializeSlot build field (o.outlet field).type v s := by
  have hdata : o.hasData field = true := Dict.has_iff.2 (mem_keys_of_slot? hv)
  have htype : o.fieldType field = .ok (o.outlet field).type := by
    unfold fieldType outlet FieldTable.outlet FieldTable.typeOf
    cases Dict.get? o.table field with
    | some type => rfl
    | none => simp [hdata]
  simp only [readWith, htype, hv]

theorem readWith_absent {build : Builder} (hv : o.slot? field = none) (s : Session) :
    o.readWith build field s = ⟨s, o, (o.fieldType field).map fun _ => .null⟩ := by
  unfold readWith
  cases o.fieldType field with
  | error e => rfl
  | ok type => simp only [hv]; rfl

end BoundObject

/-! ### Analysing a field -/

/-- The report with the field if it is not declared. -/
def Analysed.noted (a : Analysed) (before field : String) : Report :=
  if (Dict.get? a.object.table field).isNone then
    a.report.addMissing a.object.cls (Report.joinPath before field)
  else a.report

theorem Analysed.hasBad_noted (a : Analysed) (before field : String) :
    (a.noted before field).hasBad = a.report.hasBad := by
  unfold noted
  split <;> rfl

theorem Report.hasBad_addBad (r : Report) (cls : ClassPath) (path message : String) :
    (r.addBad cls path message).hasBad = true := by
  unfold hasBad addBad
  cases r.bad with
  | nil => rfl
  | cons entry rest =>
    simp only [Sorted.update]
    split
    · rfl
    · split <;> rfl

/-- What an analysis makes of a field that has been read. -/
def Analysed.ofRead (inner : Option Analyser) (path field : String) (type : FieldType)
    (noted : Report) (complete : Bool) (read : Effect Value) : Analysed :=
  match read.result with
  | .error e => ⟨read.session, read.object, noted.addBad read.object.cls path e.message, complete⟩
  | .ok v =>
    match inner with
    | some inner =>
      if type.isObject then
        let nested := analyseNested inner type.depth path v noted read.session
        ⟨nested.session, read.object.put field nested.value, nested.report,
          complete && nested.isComplete⟩
      else ⟨read.session, read.object, noted, complete⟩
    | none => ⟨read.session, read.object, noted, complete⟩

section

variable {inner : Option Analyser} {path field : String} {type : FieldType} {noted : Report}
variable {complete : Bool} {read : Effect Value}

theorem Analysed.ofRead_failed {e : ObjectError} (h : read.result = .error e) :
    ofRead inner path field type noted complete read =
      ⟨read.session, read.object, noted.addBad read.object.cls path e.message, complete⟩ := by
  simp only [ofRead, h]

theorem Analysed.ofRead_leaf (h : read.result = .ok v) (typed : type.isObject = false) :
    ofRead inner path field type noted complete read =
      ⟨read.session, read.object, noted, complete⟩ := by
  cases inner <;> simp [ofRead, h, typed]

theorem Analysed.ofRead_nested {analyser : Analyser} (h : read.result = .ok v)
    (typed : type.isObject = true) :
    let nested := analyseNested analyser type.depth path v noted read.session
    ofRead (some analyser) path field type noted complete read =
      ⟨nested.session, read.object.put field nested.value, nested.report,
        complete && nested.isComplete⟩ := by
  simp only [ofRead, h, typed, if_true]

end

namespace BoundObject

variable {field name : String} {inner : Option Analyser} {before : String} {a : Analysed}

theorem analyseField_absent (hv : a.object.slot? field = none) :
    analyseField builder inner before a field = a := by
  simp only [analyseField, hv]

theorem analyseField_stored (hv : a.object.slot? field = some v) :
    analyseField builder inner before a field =
      .ofRead inner (Report.joinPath before field) field (a.object.outlet field).type
        (a.noted before field) a.isComplete
        (a.object.materializeSlot builder field (a.object.outlet field).type v a.session) := by
  simp only [analyseField, hv]
  rfl

theorem analyseField_put (hv : a.object.slot? field = some v) :
    (analyseField builder none before a field).object =
      a.object.put field ((a.object.outlet field).convert builder v a.session).value := by
  rw [analyseField_stored hv]
  rcases a.object.materializeSlot_cases field v a.session with ⟨e, -, hread⟩ | ⟨-, hread⟩
  · rw [hread, Analysed.ofRead_failed rfl]
  · rw [hread]
    rfl

/-! ### What stays -/

/-- The second object stores the same fields as the first one, with the same values but for some of
them. -/
structure ChangesOnly (fields : List String) (o o' : BoundObject) : Prop where
  revises : o.Revises o'
  keys : Dict.keys o'.data = Dict.keys o.data
  slot? : ∀ name, name ∉ fields → o'.slot? name = o.slot? name

namespace ChangesOnly

variable {fields rest : List String}

theorem refl (fields : List String) (o : BoundObject) : o.ChangesOnly fields o :=
  ⟨.refl o, rfl, fun _ _ => rfl⟩

theorem trans (h : ChangesOnly fields o o') (h' : ChangesOnly rest o' o'') :
    ChangesOnly (fields ++ rest) o o'' := by
  refine ⟨h.revises.trans h'.revises, h'.keys.trans h.keys, fun name fresh => ?_⟩
  rw [List.mem_append, not_or] at fresh
  exact (h'.slot? name fresh.2).trans (h.slot? name fresh.1)

theorem again (h : ChangesOnly fields o o') (h' : ChangesOnly fields o' o'') :
    ChangesOnly fields o o'' :=
  ⟨h.revises.trans h'.revises, h'.keys.trans h.keys,
    fun name fresh => (h'.slot? name fresh).trans (h.slot? name fresh)⟩

theorem put (hv : o.slot? field = some u) (v : Value) : ChangesOnly [field] o (o.put field v) :=
  ⟨o.revises_put field v, keys_put hv v, fun _ fresh =>
    slot?_put_of_ne (List.ne_of_not_mem_cons fresh) o v⟩

end ChangesOnly

theorem Revises.outlet (h : o.Revises o') : o'.outlet field = o.outlet field := by
  obtain ⟨data, rfl⟩ := h
  rfl

theorem Revises.table (h : o.Revises o') : o'.table = o.table := by
  obtain ⟨data, rfl⟩ := h
  rfl

theorem Revises.cls (h : o.Revises o') : o'.cls = o.cls := by
  obtain ⟨data, rfl⟩ := h
  rfl

theorem materializeSlot_changesOnly {type : FieldType} (hv : o.slot? field = some u) (v : Value)
    (s : Session) :
    o.ChangesOnly [field] (o.materializeSlot builder field type v s).object := by
  rw [materializeSlot_object]
  exact .put hv _

theorem analyseField_changesOnly (inner : Option Analyser) (before : String) (a : Analysed)
    (field : String) :
    a.object.ChangesOnly [field] (analyseField builder inner before a field).object := by
  cases hv : a.object.slot? field with
  | none =>
    rw [analyseField_absent hv]
    exact .refl [field] a.object
  | some v =>
    have read : a.object.ChangesOnly [field] (a.object.materializeSlot builder field
        (a.object.outlet field).type v a.session).object :=
      materializeSlot_changesOnly hv v a.session
    rw [analyseField_stored hv]
    unfold Analysed.ofRead
    split
    · exact read
    · next w hresult =>
      split
      · split
        · refine read.again (.put (u := w) ?_ _)
          rw [materializeSlot_found hresult, slot?_put]
        · exact read
      · exact read

theorem analyseFields_changesOnly (inner : Option Analyser) (before : String)
    (fields : List String) (a : Analysed) :
    a.object.ChangesOnly fields (fields.foldl (analyseField builder inner before) a).object := by
  induction fields generalizing a with
  | nil => exact .refl [] a.object
  | cons field rest ih => exact (analyseField_changesOnly inner before a field).trans (ih _)

/-! ### Analyses of the object alone -/

theorem analyseFields_slot? (hstart : start.Keeps start) {fields : List String}
    (distinct : fields.Nodup) (hname : name ∈ fields) (hs : start.Keeps a.session) :
    (fields.foldl (analyseField builder none before) a).object.slot? name =
      (a.object.slot? name).map fun v => ((a.object.outlet name).convert builder v start).value := by
  induction fields generalizing a with
  | nil => cases hname
  | cons field rest ih =>
    obtain ⟨fresh, distinct⟩ := List.nodup_cons.1 distinct
    have noInner : ∀ analyser : Analyser, none = some analyser → analyser.Evolves := by simp
    have hs' := hs.evolves (analyseField_evolves builder_evolves noInner before a field)
    by_cases heq : name = field
    · subst heq
      have others := analyseFields_changesOnly none before rest (analyseField builder none before a
        name)
      refine (others.slot? name fresh).trans ?_
      cases hv : a.object.slot? name with
      | none =>
        rw [analyseField_absent hv, hv]
        rfl
      | some v =>
        have steady := (a.object.outlet name).convert_steady builder_evolves
          (builder_steady start) v hs hstart
        rw [analyseField_put hv, slot?_put, (Prod.mk.inj steady).1]
        rfl
    · have first := analyseField_changesOnly none before a field
      have hrest : name ∈ rest := (List.mem_cons.1 hname).resolve_left heq
      refine (ih distinct hrest hs').trans ?_
      rw [first.slot? name (by simpa using heq), first.revises.outlet]

/-- Where a key is stored twice, what stands behind the first entry of the key is not read. -/
theorem analyseFields_entry {fields : List String} (distinct : fields.Nodup)
    {entry : String × Value}
    (member : entry ∈ (fields.foldl (analyseField builder none before) a).object.data) :
    (fields.foldl (analyseField builder none before) a).object.slot? entry.1 = some entry.2 ∨
      entry ∈ a.object.data := by
  induction fields generalizing a with
  | nil => exact Or.inr member
  | cons field rest ih =>
    obtain ⟨fresh, distinct⟩ := List.nodup_cons.1 distinct
    rcases ih distinct member with slot | member
    · exact Or.inl slot
    · have others := analyseFields_changesOnly none before rest (analyseField builder none before a
        field)
      cases hv : a.object.slot? field with
      | none =>
        rw [analyseField_absent hv] at member
        exact Or.inr member
      | some v =>
        rw [analyseField_put hv] at member
        rcases Dict.mem_put member with rfl | member
        · left
          refine (others.slot? field fresh).trans ?_
          rw [analyseField_put hv, slot?_put]
        · exact Or.inr member

theorem analyseFlat_changesOnly (o : BoundObject) (s : Session) :
    o.ChangesOnly (Dict.names o.data) (o.analyseFlat builder s).object :=
  analyseFields_changesOnly none "" (Dict.names o.data) ⟨s, o, .empty, true⟩

theorem analyseFlat_entry (o : BoundObject) (s : Session) (entry : String × Value)
    (member : entry ∈ (o.analyseFlat builder s).object.data) :
    (o.analyseFlat builder s).object.slot? entry.1 = some entry.2 ∨ entry ∈ o.data :=
  analyseFields_entry (Dict.nodup_names o.data) member

theorem analyseFlat_slot? (hstart : start.Keeps start) (o : BoundObject) (hs : start.Keeps s)
    (field : String) :
    (o.analyseFlat builder s).object.slot? field =
      (o.slot? field).map fun v => ((o.outlet field).convert builder v start).value := by
  by_cases hfield : field ∈ Dict.names o.data
  · exact analyseFields_slot? hstart (Dict.nodup_names o.data) hfield hs
  · have absent : o.slot? field = none := by
      rwa [slot?, Dict.get?_eq_none_iff, ← Dict.mem_names]
    rw [(o.analyseFlat_changesOnly s).slot? field hfield, absent]
    rfl

end BoundObject

end LazyBinding
