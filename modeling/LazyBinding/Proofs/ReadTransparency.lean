import LazyBinding.Object.Place
import LazyBinding.Proofs.ExportRelation
import LazyBinding.Proofs.RipeAnalysis

/-!
# Reads are transparent

Every read rewrites the data that it goes through. None of it can be observed: after any reads, also
of objects inside the object and also such as fail, the object exports, analyses and reads like
before.
-/
namespace LazyBinding

variable {start s t : Session} {p : Passage} {n : Nat} {v w : Value} {o o' : BoundObject}

/-! ### Exports -/

/-- An export gives the same in every session and of every riper form of an object. -/
structure Exporter.Transparent (start : Session)
    (object : BoundObject → Session → Session × Except ObjectError Value) : Prop where
  evolves : ∀ o (s : Session), s.Evolves (object o s).1
  alike : ∀ {o o' : BoundObject} {s t}, o.Ripens start o' → start.Keeps s → start.Keeps t →
    (object o s).2 = (object o' t).2

variable {object : BoundObject → Session → Session × Except ObjectError Value}

theorem Exporter.Transparent.steady (ho : Exporter.Transparent start object) :
    Exporter.Steady start object :=
  ⟨ho.evolves, fun o _ _ hs ht => ho.alike (.refl o) hs ht⟩

theorem Exporter.Steady.value (ho : Exporter.Steady start object) (v : Value) :
    start.Steady fun s => (v.exportWith object s).2 :=
  v.exportWith_steady ho.evolves ho.steady

theorem exportItems_alike (ho : Exporter.Transparent start object)
    (hi : ∀ {v w s t}, Alike start p n v w → start.Keeps s → start.Keeps t →
      (v.exportWith object s).2 = (w.exportWith object t).2)
    {items items' : List Value} (h : List.Forall₂ (Alike start p n) items items')
    (hs : start.Keeps s) (ht : start.Keeps t) :
    (Value.exportItems object items s).2 = (Value.exportItems object items' t).2 := by
  induction h generalizing s t with
  | nil => simp only [Value.exportItems]
  | @cons v w rest rest' first _ ih =>
    have exported := Session.Keeps.split (hs.evolves (Value.exportWith_evolves ho.evolves v s))
      (ht.evolves (Value.exportWith_evolves ho.evolves w t)) (hi first hs ht)
    rcases exported with ⟨_, _, _, _, _, hx, hy⟩ | ⟨s', t', _, hs', ht', hx, hy⟩
    · simp only [Value.exportItems, hx, hy]
    · have next := Session.Keeps.split
        (hs'.evolves (Value.exportItems_evolves ho.evolves rest s'))
        (ht'.evolves (Value.exportItems_evolves ho.evolves rest' t')) (ih hs' ht')
      rcases next with ⟨_, _, _, _, _, hx', hy'⟩ | ⟨_, _, _, _, _, hx', hy'⟩
      · simp only [Value.exportItems, hx, hy, hx', hy']
      · simp only [Value.exportItems, hx, hy, hx', hy']

theorem Alike.exportWith (ho : Exporter.Transparent start object) (h : Alike start p n v w)
    (hs : start.Keeps s) (ht : start.Keeps t) :
    (v.exportWith object s).2 = (w.exportWith object t).2 := by
  induction n generalizing v w s t with
  | zero =>
    cases h with
    | same => exact ho.steady.value v hs ht
    | object _ ripens =>
      simp only [Value.exportWith, Value.ofObject]
      exact ho.alike ripens hs ht
  | succ n ih =>
    cases v with
    | array items =>
      obtain ⟨items', rfl, hitems⟩ := h.items
      have all := Session.Keeps.split
        (hs.evolves (Value.exportItems_evolves ho.evolves items s))
        (ht.evolves (Value.exportItems_evolves ho.evolves items' t))
        (exportItems_alike ho ih hitems hs ht)
      rcases all with ⟨_, _, _, _, _, hx, hy⟩ | ⟨_, _, _, _, _, hx, hy⟩
      · simp only [Value.exportWith, hx, hy]
      · simp only [Value.exportWith, hx, hy]
    | _ =>
      cases h
      exact ho.steady.value _ hs ht

/-- One entry and the same entry in two degrees of ripeness. -/
def EntriesAlike (start : Session) (entry entry' : String × Value) : Prop :=
  entry.1 = entry'.1 ∧ ∃ p n, Alike start p n entry.2 entry'.2

theorem DataRipens.entriesAlike {schema : SchemaId} {table : FieldTable}
    {data data' : Dict String Value} (h : DataRipens start schema table data data')
    (slots : ∀ field v w, Dict.get? data field = some v → Dict.get? data' field = some w →
      Alike start (FieldTable.outlet schema table field) (FieldTable.typeOf table field).depth
        v w) :
    List.Forall₂ (EntriesAlike start) data data' := by
  induction h with
  | same =>
    have outlet := FieldTable.outlet schema table ""
    exact List.forall₂_same.2 fun _ _ => ⟨rfl, outlet, 0, .same _⟩
  | @field name v w rest rest' _ _ shadowed ih =>
    have first := slots name v w (by simp [Dict.get?]) (by simp [Dict.get?])
    refine .cons ⟨rfl, _, _, first⟩ (ih fun field v' w' hv' hw' => ?_)
    by_cases hname : name = field
    · subst hname
      rw [shadowed, hv'] at hw'
      cases hw'
      exact .same v'
    · refine slots field v' w' ?_ ?_
      · rwa [Dict.get?, if_neg hname]
      · rwa [Dict.get?, if_neg hname]

namespace BoundObject

theorem exportFields_alike (ho : Exporter.Transparent start object) (cls : ClassPath)
    {entries entries' : List (String × Value)}
    (h : List.Forall₂ (EntriesAlike start) entries entries') (hs : start.Keeps s)
    (ht : start.Keeps t) :
    (exportFields cls object entries s).2 = (exportFields cls object entries' t).2 := by
  induction h generalizing s t with
  | nil => simp only [exportFields]
  | @cons entry entry' rest rest' first _ ih =>
    obtain ⟨name, v⟩ := entry
    obtain ⟨name', w⟩ := entry'
    obtain ⟨rfl, p, n, alike⟩ := first
    have exported := Session.Keeps.split (hs.evolves (Value.exportWith_evolves ho.evolves v s))
      (ht.evolves (Value.exportWith_evolves ho.evolves w t)) (alike.exportWith ho hs ht)
    rcases exported with ⟨_, _, _, _, _, hx, hy⟩ | ⟨s', t', _, hs', ht', hx, hy⟩
    · simp only [exportFields, hx, hy]
    · have next := Session.Keeps.split (hs'.evolves (exportFields_evolves ho.evolves cls rest s'))
        (ht'.evolves (exportFields_evolves ho.evolves cls rest' t')) (ih hs' ht')
      rcases next with ⟨_, _, _, _, _, hx', hy'⟩ | ⟨_, _, _, _, _, hx', hy'⟩
      · simp only [exportFields, hx, hy, hx', hy']
      · simp only [exportFields, hx, hy, hx', hy']

theorem Ripens.entriesAlike (hstart : start.Keeps start) (h : o.Ripens start o')
    (hs : start.Keeps s) (ht : start.Keeps t)
    (clean : (o.analyseFlat builder s).report.hasBad = false) :
    List.Forall₂ (EntriesAlike start) (o.analyseFlat builder s).object.data
      (o'.analyseFlat builder t).object.data := by
  obtain ⟨data, hdata, ripens⟩ := (h.analyseFlat hs ht).object
  have revises := (o.analyseFlat_changesOnly s).revises
  rw [hdata]
  refine ripens.entriesAlike fun field v w hv hw => ?_
  -- Both entries are what the field converts to, and what ripe values convert to is alike.
  have slot : (o.analyseFlat builder s).object.slot? field = some v := hv
  have slot' : (o'.analyseFlat builder t).object.slot? field = some w := by
    rw [hdata]
    exact hw
  rw [analyseFlat_slot? hstart o hs] at slot
  rw [analyseFlat_slot? hstart o' ht, h.outlet] at slot'
  obtain ⟨u, stored, rfl⟩ := Option.map_eq_some_iff.1 slot
  obtain ⟨u', stored', rfl⟩ := Option.map_eq_some_iff.1 slot'
  obtain ⟨w', found, riper⟩ := h.slot? stored
  obtain rfl := Option.some.inj (found.symm.trans stored')
  have converts := (analyseFlat_good hstart o hs).1 clean field u stored
  change Alike start ((o.analyseFlat builder s).object.outlet field)
    ((o.analyseFlat builder s).object.outlet field).type.depth _ _
  rw [revises.outlet]
  exact (riper.convertLevel hstart hstart).alike converts.1

theorem exportWith_transparent (hstart : start.Keeps start) (depth : Nat) :
    Exporter.Transparent start (exportWith builder depth) := by
  induction depth with
  | zero =>
    refine ⟨fun _ _ => .refl, fun {o o' s t} h _ _ => ?_⟩
    simp only [exportWith, h.cls]
  | succ depth ih =>
    refine ⟨exportWith_evolves builder_evolves _, fun {o o' s t} h hs ht => ?_⟩
    have hmatch := h.analyseFlat hs ht
    cases hbad : (o.analyseFlat builder s).report.hasBad with
    | true =>
      rw [hmatch.report] at hbad
      simp only [exportWith, hbad, if_true, hmatch.report, h.cls]
    | false =>
      have hbad' := hbad
      rw [hmatch.report] at hbad'
      have fields := Session.Keeps.split
        (hmatch.left.evolves (exportFields_evolves ih.evolves o.cls _ _))
        (hmatch.right.evolves (exportFields_evolves ih.evolves o.cls _ _))
        (exportFields_alike ih o.cls (h.entriesAlike hstart hs ht hbad) hmatch.left hmatch.right)
      rcases fields with ⟨_, _, _, _, _, hx, hy⟩ | ⟨_, _, _, _, _, hx, hy⟩
      · simp only [exportWith, hbad, hbad', h.cls, hx, hy, Bool.false_eq_true, if_false]
      · simp only [exportWith, hbad, hbad', h.cls, hx, hy, Bool.false_eq_true, if_false]

/-! ### Sequences of reads -/

/-- A read of an object. -/
inductive Reading where
  | get (field : String)
  | analyze (deep : Bool)

/-- Carries out a read. -/
def Reading.of (reading : Reading) (o : BoundObject) (s : Session) : Effect Unit :=
  match reading with
  | .get field =>
    let read := o.get field s
    ⟨read.session, read.object, read.result.map fun _ => ()⟩
  | .analyze deep =>
    let analysed := o.analyze deep s
    ⟨analysed.session, analysed.object, analysed.result.map fun _ => ()⟩

/-- Reads the object that some fields lead to, one below the other. -/
def readBelow (o : BoundObject) (path : List String) (reading : Reading) (s : Session) :
    Effect (Option Unit) :=
  o.within reading.of (path.map .field) s

/-- Carries out reads in order, whether they succeed or not. -/
def readAll (o : BoundObject) (reads : List (List String × Reading)) (s : Session) :
    BoundObject × Session :=
  match reads with
  | [] => (o, s)
  | (path, reading) :: rest =>
    let read := o.readBelow path reading s
    read.object.readAll rest read.session

theorem analyze_ripens (instances : start.LeavesInstances) (hstart : start.Keeps start)
    (o : BoundObject) (deep : Bool) (hs : start.Keeps s) :
    o.Ripens start (o.analyze deep s).object := by
  cases deep with
  | false =>
    have h := analyseFlat_ripens instances hstart o hs
    simp only [analyze, analyzeWith, Bool.false_eq_true, if_false]
    split
    · exact h
    · exact h
  | true =>
    have h := (analyseDeep_transparent instances hstart levelLimit).ripens o "" .empty hs
    simp only [analyze, analyzeWith, if_true]
    split
    · exact h
    · exact h

theorem Ripens.analyze (instances : start.LeavesInstances) (hstart : start.Keeps start)
    (h : o.Ripens start o') (deep : Bool) (hs : start.Keeps s) (ht : start.Keeps t) :
    (o.analyze deep s).result = (o'.analyze deep t).result := by
  cases deep with
  | false =>
    have hmatch := h.analyseFlat hs ht
    simp only [BoundObject.analyze, analyzeWith, Bool.false_eq_true, if_false, hmatch.report,
      hmatch.isComplete, h.cls]
    split <;> rfl
  | true =>
    have hmatch := (analyseDeep_transparent instances hstart levelLimit).alike "" .empty h hs ht
    simp only [BoundObject.analyze, analyzeWith, if_true, hmatch.report, hmatch.isComplete, h.cls]
    split <;> rfl

theorem get_slot? (found : (o.get field s).result = .ok v) (hv : v ≠ .null) :
    (o.get field s).object.slot? field = some v := by
  unfold get at found ⊢
  cases hslot : o.slot? field with
  | none =>
    rw [readWith_absent hslot] at found
    cases htype : o.fieldType field with
    | error e =>
      rw [htype] at found
      cases found
    | ok type =>
      rw [htype] at found
      cases found
      exact absurd rfl hv
  | some u =>
    rw [readWith_stored hslot] at found ⊢
    rw [materializeSlot_found found, slot?_put]

/-- A read of an object inside the object ripens the object. -/
theorem within_ripens {α : Type} {operation : BoundObject → Session → Effect α}
    (instances : start.LeavesInstances) (hstart : start.Keeps start)
    (he : ∀ o (s : Session), s.Evolves (operation o s).session)
    (hi : ∀ (o : BoundObject) {s}, start.Keeps s → o.Ripens start (operation o s).object)
    (path : List String) (o : BoundObject) (hs : start.Keeps s) :
    s.Evolves (o.within operation (path.map .field) s).session ∧
      o.Ripens start (o.within operation (path.map .field) s).object := by
  induction path generalizing o s with
  | nil => exact ⟨he o s, hi o hs⟩
  | cons name rest ih =>
    have evolves : s.Evolves (o.get name s).session := o.readWith_evolves builder_evolves name s
    have ripens : o.Ripens start (o.get name s).object :=
      readWith_ripens instances hstart o name hs
    simp only [List.map_cons, within, enter]
    split
    · exact ⟨evolves, ripens⟩
    · next v hfound =>
      split
      · exact ⟨evolves, ripens⟩
      · next nested hnested =>
        obtain rfl : v = .ofObject nested := by
          unfold Value.nestedObject? Value.asObject? at hnested
          split at hnested
          · cases hnested
            rfl
          · cases hnested
        have hslot := get_slot? hfound (by simp [Value.ofObject])
        obtain ⟨evolves', ripens'⟩ := ih nested (hs.evolves evolves)
        exact ⟨evolves.trans evolves', ripens.trans
          (ripens_put hslot (LazyBinding.Ripens.object_iff.2 ⟨_, rfl, ripens'⟩))⟩

theorem Reading.evolves (reading : Reading) (o : BoundObject) (s : Session) :
    s.Evolves (reading.of o s).session := by
  cases reading with
  | get field => exact o.readWith_evolves builder_evolves field s
  | analyze deep => exact o.analyze_evolves deep s

theorem Reading.ripens (instances : start.LeavesInstances) (hstart : start.Keeps start)
    (reading : Reading) (o : BoundObject) (hs : start.Keeps s) :
    o.Ripens start (reading.of o s).object := by
  cases reading with
  | get field => exact readWith_ripens instances hstart o field hs
  | analyze deep => exact analyze_ripens instances hstart o deep hs

theorem readAll_ripens (instances : start.LeavesInstances) (hstart : start.Keeps start)
    (o : BoundObject) (reads : List (List String × Reading)) (hs : start.Keeps s) :
    start.Keeps (o.readAll reads s).2 ∧ o.Ripens start (o.readAll reads s).1 := by
  induction reads generalizing o s with
  | nil => exact ⟨hs, .refl o⟩
  | cons read rest ih =>
    obtain ⟨path, reading⟩ := read
    obtain ⟨evolves, ripens⟩ := within_ripens instances hstart reading.evolves
      (fun o _ hs => reading.ripens instances hstart o hs) path o hs
    obtain ⟨kept, ripens'⟩ := ih _ (hs.evolves evolves)
    exact ⟨kept, ripens.trans ripens'⟩

/-- Reads cannot be observed if all objects that are made of a class are instances of it. Whatever
has been done in the session, and whatever is read in whatever order, the object exports, analyses
and reads like before. -/
theorem reads_transparent (registries : List (Registry × Bool))
    (operations : List Session.Operation) (o : BoundObject)
    (reads : List (List String × Reading))
    (instances : ((Session.fresh registries).run operations).LeavesInstances) :
    let s := (Session.fresh registries).run operations
    let after := o.readAll reads s
    (after.1.exported after.2).2 = (o.exported s).2 ∧
    (∀ deep, (after.1.analyze deep after.2).result = (o.analyze deep s).result) ∧
    ∀ field,
      (after.1.get field after.2).result.map (fun _ => ()) =
        (o.get field s).result.map (fun _ => ()) ∧
      (((Dict.get? o.table field).getD .untyped).isObject = false →
        (after.1.get field after.2).result = (o.get field s).result) := by
  intro s after
  have hs : s.Keeps s := ((Session.keeps_fresh registries).run operations).self
  obtain ⟨ht, h⟩ := readAll_ripens instances hs o reads hs
  refine ⟨((exportWith_transparent hs levelLimit).alike h hs ht).symm,
    fun deep => (h.analyze instances hs deep hs ht).symm, fun field => ?_⟩
  have hread : ReadsAlike s (o.outlet field) _ _ := h.readWith hs ht
  unfold get
  generalize (o.readWith builder field s).result = result at hread ⊢
  generalize (after.1.readWith builder field after.2).result = result' at hread ⊢
  cases hread with
  | failed e => exact ⟨rfl, fun _ => rfl⟩
  | found alike =>
    refine ⟨rfl, fun typed => ?_⟩
    rw [alike.eq typed]

end BoundObject

namespace SquareExample

open BoundObject

/-- A sheet with data for a shape. -/
def sheet : BoundObject :=
  ⟨0, ⟨"Sheet"⟩, [("shape", ⟨.object ⟨"Shape"⟩, 0⟩)], [("shape", .map [])]⟩

theorem sheet_read (hstart : start.Keeps start) (hs : start.Keeps s)
    (made : (make 0 ⟨"Shape"⟩ [] start).2 = .ok o) : ∃ t, start.Keeps t ∧
      sheet.materializeSlot builder "shape" (sheet.outlet "shape").type (.map []) s =
        ⟨t, sheet.put "shape" (.ofObject o), .ok (.ofObject o)⟩ := by
  obtain ⟨error, value⟩ :=
    Passage.convertLevel_built (p := shape) (v := .map []) rfl rfl rfl hs hstart made
  have ht := hs.evolves (shape.convert_evolves builder_evolves (.map []) s)
  refine ⟨_, ht, ?_⟩
  rcases sheet.materializeSlot_cases "shape" (.map []) s with ⟨e, failed, -⟩ | ⟨-, read⟩
  · cases error.symm.trans failed
  · rw [read, ← value]
    rfl

theorem replaced_sheet_again (hs : replaced.Keeps s) :
    ((sheet.put "shape" (.object 0 ⟨"Square"⟩ [] [])).get "shape" s).result =
      .error (.conversion (.typeMismatch "shape" ⟨"Shape"⟩ (.instanceOf ⟨"Square"⟩))) := by
  have square := replaced_square hs
  rw [BoundObject.get, readWith_stored (slot?_put sheet "shape" _)]
  rcases (sheet.put "shape" (.object 0 ⟨"Square"⟩ [] [])).materializeSlot_cases "shape"
    (.object 0 ⟨"Square"⟩ [] []) s with ⟨e, failed, read⟩ | ⟨found, -⟩
  · cases (congrArg Converted.error square).symm.trans failed
    rw [read]
  · cases (congrArg Converted.error square).symm.trans found

end SquareExample

open SquareExample in
theorem refined_sheet_transparent :
    let after := sheet.readAll [([], .get "shape"), (["shape"], .get "size")] refined
    refined.LeavesInstances ∧
      (after.1.exported after.2).2 = (sheet.exported refined).2 ∧
      (after.1.analyze true after.2).result = (sheet.analyze true refined).result := by
  obtain ⟨exported, analyze, -⟩ := BoundObject.reads_transparent
    [(registry (some "Shape"), false)] [] sheet [([], .get "shape"), (["shape"], .get "size")]
    refined_leavesInstances
  exact ⟨refined_leavesInstances, exported, analyze true⟩

open SquareExample in
/-- Without that, a field that has been read may not be readable any more. -/
theorem replaced_sheet_opaque :
    let after := sheet.readAll [([], .get "shape")] replaced
    (sheet.get "shape" replaced).result = .ok (.object 0 ⟨"Square"⟩ [] []) ∧
      (after.1.get "shape" after.2).result =
        .error (.conversion (.typeMismatch "shape" ⟨"Shape"⟩ (.instanceOf ⟨"Square"⟩))) := by
  intro after
  obtain ⟨t, ht, read⟩ := sheet_read replaced_keeps replaced_keeps replaced_made
  have read : sheet.get "shape" replaced = ⟨t, _, _⟩ :=
    (BoundObject.readWith_stored rfl replaced).trans read
  have left : after = (sheet.put "shape" (.ofObject ⟨0, ⟨"Square"⟩, [], []⟩), t) := by
    simp only [after, BoundObject.readAll, BoundObject.readBelow, List.map_nil, BoundObject.within,
      BoundObject.Reading.of, read]
  rw [read, left]
  exact ⟨rfl, replaced_sheet_again ht⟩

end LazyBinding
