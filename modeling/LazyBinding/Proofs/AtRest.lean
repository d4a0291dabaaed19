import LazyBinding.Proofs.Exploration
import LazyBinding.Proofs.ReadTransparency
import LazyBinding.Proofs.Settlement

/-!
# Settled objects are at rest

Nothing that reads a settled object changes it or fails: not a read of a declared field, not an
analysis or a validation of any object in the tree, and not an export.
-/
namespace LazyBinding

variable {start s t : Session} {p : Passage} {n : Nat} {v w : Value} {o o' x : BoundObject}

/-! ### Reading what is settled -/

/-- An analysis that passes objects with a property by. -/
def Analyser.Spares (t : Session) (inner : Analyser) (Q : BoundObject → Prop) : Prop :=
  ∀ ⦃x : BoundObject⦄, Q x → ∀ path report, inner x path report t = ⟨t, x, report, true⟩

section

variable {inner : Analyser} {Q : BoundObject → Prop}

theorem analyseItems_spared {P : Value → Prop}
    {item : String → Value → Report → Session → AnalysedValue}
    (hi : ∀ path {v} report, P v → item path v report t = ⟨t, v, report, true⟩) (path : String)
    (index : Nat) {items : List Value} (report : Report) (h : ∀ v ∈ items, P v) :
    analyseItems item path index items report t = ⟨t, items, report, true⟩ := by
  induction items generalizing index report with
  | nil => rfl
  | cons v rest ih =>
    obtain ⟨first, others⟩ := List.forall_mem_cons.1 h
    simp only [analyseItems, hi _ report first, ih _ report others, Bool.and_self]

theorem analyseNested_spared (hi : Analyser.Spares t inner Q) (path : String) (report : Report)
    (h : v.Nested Q n) : analyseNested inner n path v report t = ⟨t, v, report, true⟩ := by
  induction n generalizing v path report with
  | zero =>
    cases v with
    | object schema cls table data =>
      have spared := hi (x := ⟨schema, cls, table, data⟩) h path report
      simp only [analyseNested, spared, Value.ofObject]
    | _ => rfl
  | succ n ih =>
    cases v with
    | array items =>
      have all := analyseItems_spared (fun path v report h => ih path report h) path 0 report h
      simp only [analyseNested, all]
    | _ => rfl

end

namespace BoundObject

variable {Q : BoundObject → Prop} {field : String} {depth : Nat}

theorem HoldsSettled.converts (ht : start.Keeps t) (h : o.HoldsSettled start Q field v) :
    (o.outlet field).convert builder v t = ⟨t, v, none⟩ := by
  have conforms := h.conforms
  rw [← ht.registry] at conforms
  exact Conforms.converts (p := o.outlet field) conforms

theorem HoldsSettled.materializeSlot (ht : start.Keeps t) (stored : o.slot? field = some v)
    (h : o.HoldsSettled start Q field v) :
    o.materializeSlot builder field (o.outlet field).type v t = ⟨t, o, .ok v⟩ := by
  have hself : o.passage field (o.outlet field).type .materialize = o.outlet field := rfl
  simp only [BoundObject.materializeSlot, hself, h.converts ht, put_slot? stored]

theorem HoldsSettled.object (h : o.HoldsSettled start Q field (.ofObject x)) : Q x := by
  have nested := h.nested
  rw [h.conforms.of_object.1] at nested
  exact nested

theorem Settled.get_cases (ht : start.Keeps t) (h : o.Settled start depth) (field : String) :
    (o.slot? field = none ∧ o.get field t = ⟨t, o, (o.fieldType field).map fun _ => .null⟩) ∨
      ∃ v, o.slot? field = some v ∧ o.get field t = ⟨t, o, .ok v⟩ := by
  cases depth with
  | zero => cases h
  | succ depth =>
    unfold BoundObject.get
    cases hv : o.slot? field with
    | none => exact Or.inl ⟨rfl, readWith_absent hv t⟩
    | some v =>
      refine Or.inr ⟨v, rfl, ?_⟩
      rw [readWith_stored hv, (h field v hv).materializeSlot ht hv]

theorem Settled.get (ht : start.Keeps t) (h : o.Settled start depth)
    (declared : o.hasDeclared field = true) : ∃ v, o.get field t = ⟨t, o, .ok v⟩ := by
  rcases h.get_cases ht field with ⟨-, hread⟩ | ⟨v, -, hread⟩
  · obtain ⟨type, htype⟩ := Option.isSome_iff_exists.1 declared
    refine ⟨.null, ?_⟩
    simp only [hread, fieldType, htype]
    rfl
  · exact ⟨v, hread⟩

theorem analyseField_spared {inner : Option Analyser} (ht : start.Keeps t)
    (hi : ∀ analyser, inner = some analyser → analyser.Spares t Q)
    (h : ∀ v, o.slot? field = some v → o.HoldsSettled start Q field v) (path : String)
    (report : Report) :
    analyseField builder inner path ⟨t, o, report, true⟩ field = ⟨t, o, report, true⟩ := by
  cases hv : o.slot? field with
  | none => exact analyseField_absent hv
  | some v =>
    have settled := h v hv
    have noted : Analysed.noted ⟨t, o, report, true⟩ path field = report := by
      unfold Analysed.noted
      rw [if_neg]
      rw [Option.isNone_iff_eq_none, ← ne_eq, ← Option.isSome_iff_ne_none]
      exact settled.declared
    rw [analyseField_stored hv, noted, settled.materializeSlot ht hv]
    unfold Analysed.ofRead
    dsimp only
    split
    · next analyser =>
      split
      · have spared := analyseNested_spared (hi analyser rfl) (Report.joinPath path field) report
          settled.nested
        rw [spared, put_slot? hv]
        rfl
      · rfl
    · rfl

theorem analyseFields_spared {inner : Option Analyser} (ht : start.Keeps t)
    (hi : ∀ analyser, inner = some analyser → analyser.Spares t Q)
    (h : ∀ field v, o.slot? field = some v → o.HoldsSettled start Q field v) (path : String)
    (fields : List String) (report : Report) :
    fields.foldl (analyseField builder inner path) ⟨t, o, report, true⟩ =
      ⟨t, o, report, true⟩ := by
  induction fields with
  | nil => rfl
  | cons field rest ih => rw [List.foldl_cons, analyseField_spared ht hi (h field), ih]

theorem analyseDeep_spares (ht : start.Keeps t) {limit : Nat} (hd : depth ≤ limit) :
    Analyser.Spares t (analyseDeep builder limit) (Settled start depth) := by
  induction depth generalizing limit with
  | zero =>
    intro x h
    cases h
  | succ depth ih =>
    intro x h path report
    obtain ⟨limit, rfl⟩ := Nat.exists_eq_add_of_le' hd
    refine analyseFields_spared ht ?_ h path (Dict.names x.data) report
    rintro analyser ⟨⟩
    exact ih (Nat.le_add_left depth limit)

theorem Settled.analyseFlat (ht : start.Keeps t) (h : o.Settled start depth) :
    o.analyseFlat builder t = ⟨t, o, .empty, true⟩ := by
  cases depth with
  | zero => cases h
  | succ depth => exact analyseFields_spared ht (by simp) h "" (Dict.names o.data) .empty

theorem Settled.analyze (ht : start.Keeps t) (h : o.Settled start depth)
    (hd : depth ≤ levelLimit) (deep : Bool) : o.analyze deep t = ⟨t, o, .ok .empty⟩ := by
  cases deep with
  | false =>
    simp only [BoundObject.analyze, analyzeWith, Bool.false_eq_true, if_false, h.analyseFlat ht,
      if_true]
  | true => simp only [BoundObject.analyze, analyzeWith, if_true, analyseDeep_spares ht hd h]

theorem Settled.validate (ht : start.Keeps t) (h : o.Settled start depth)
    (hd : depth ≤ levelLimit) : o.validate t = ⟨t, o, .ok ()⟩ := by
  simp only [BoundObject.validate, validateWith, analyseDeep_spares ht hd h]
  rfl

/-- A read of an object inside a settled one, or one that fails, leaves all as it is. -/
theorem Settled.readBelow (ht : start.Keeps t) (h : o.Settled start depth)
    (hd : depth ≤ levelLimit) (path : List String) (reading : Reading) :
    (o.readBelow path reading t).session = t ∧ (o.readBelow path reading t).object = o := by
  unfold BoundObject.readBelow
  induction path generalizing o depth with
  | nil =>
    cases reading with
    | get field =>
      rcases h.get_cases ht field with ⟨-, hread⟩ | ⟨v, -, hread⟩ <;>
        simp only [List.map_nil, within, Reading.of, hread, and_self]
    | analyze deep => simp only [List.map_nil, within, Reading.of, h.analyze ht hd, and_self]
  | cons name rest ih =>
    simp only [List.map_cons, within]
    rcases h.get_cases ht name with ⟨-, hread⟩ | ⟨v, stored, hread⟩
    · rw [hread]
      cases o.fieldType name with
      | error e => exact ⟨rfl, rfl⟩
      | ok type => exact ⟨rfl, rfl⟩
    · rw [hread]
      cases v with
      | object schema cls table data =>
        cases depth with
        | zero => cases h
        | succ depth =>
          have nested : Settled start depth ⟨schema, cls, table, data⟩ :=
            (h name _ stored).object
          obtain ⟨session, object⟩ := ih nested (Nat.le_of_succ_le hd)
          simp only [enter, Value.nestedObject?, Value.asObject?, Value.putNested, session, object]
          exact ⟨trivial, put_slot? stored⟩
      | _ => exact ⟨rfl, rfl⟩

theorem Settled.readAll (ht : start.Keeps t) (h : o.Settled start depth)
    (hd : depth ≤ levelLimit) (reads : List (List String × Reading)) :
    o.readAll reads t = (o, t) := by
  induction reads with
  | nil => rfl
  | cons read rest ih =>
    obtain ⟨path, reading⟩ := read
    obtain ⟨session, object⟩ := h.readBelow ht hd path reading
    rw [BoundObject.readAll]
    simp only [session, object, ih]

end BoundObject

/-! ### Exporting what is settled -/

theorem Value.Nested.imp {Q Q' : BoundObject → Prop} (hq : ∀ x : BoundObject, Q x → Q' x)
    (h : v.Nested Q n) : v.Nested Q' n := by
  induction n generalizing v with
  | zero =>
    cases v with
    | object schema cls table data => exact hq _ h
    | _ => trivial
  | succ n ih =>
    cases v with
    | array items => exact fun v hv => ih (h v hv)
    | _ => trivial

theorem Value.Nested.keyed {Q : BoundObject → Prop} (keyed : v.isWellKeyed = true)
    (h : v.Nested Q n) : v.Nested (fun x => Q x ∧ x.IsWellKeyed) n := by
  induction n generalizing v with
  | zero =>
    cases v with
    | object schema cls table data => exact ⟨h, keyed⟩
    | _ => trivial
  | succ n ih =>
    cases v with
    | array items => exact fun v hv => ih (Value.areWellKeyed_iff.1 keyed v hv) (h v hv)
    | _ => trivial

section

variable {object : BoundObject → Session → Session × Except ObjectError Value}

theorem exportItems_succeeds {items : List Value}
    (h : ∀ v ∈ items, ∃ w, v.exportWith object t = (t, .ok w)) :
    ∃ ws, Value.exportItems object items t = (t, .ok ws) := by
  induction items with
  | nil => exact ⟨[], by simp only [Value.exportItems]⟩
  | cons v rest ih =>
    obtain ⟨⟨w, first⟩, others⟩ := List.forall_mem_cons.1 h
    obtain ⟨ws, all⟩ := ih others
    exact ⟨w :: ws, by simp only [Value.exportItems, first, all]⟩

theorem Conforms.exportWith {r : Registry} {type : FieldType} (h : Conforms r type n v)
    (exports : v.Nested (fun x => ∃ w, object x t = (t, .ok w)) n) :
    ∃ w, v.exportWith object t = (t, .ok w) := by
  induction h with
  | null => exact ⟨.null, Value.exportWith_fit rfl t⟩
  | @untyped v _ fit => exact ⟨v, Value.exportWith_fit fit t⟩
  | @primitive _ v _ exact => exact ⟨v, Value.exportWith_fit (Value.fit_of_kind exact) t⟩
  | object =>
    simp only [Value.ofObject, Value.exportWith]
    exact exports
  | array _ ih =>
    obtain ⟨ws, all⟩ := exportItems_succeeds fun v hv => ih v hv (exports v hv)
    exact ⟨.array ws, by simp only [Value.exportWith, all]⟩

namespace BoundObject

theorem exportFields_succeeds (cls : ClassPath) {entries : List (String × Value)}
    (h : ∀ entry ∈ entries, ∃ w, entry.2.exportWith object t = (t, .ok w)) :
    ∃ ws, exportFields cls object entries t = (t, .ok ws) := by
  induction entries with
  | nil => exact ⟨[], rfl⟩
  | cons entry rest ih =>
    obtain ⟨name, v⟩ := entry
    obtain ⟨⟨w, first⟩, others⟩ := List.forall_mem_cons.1 h
    obtain ⟨ws, all⟩ := ih others
    exact ⟨(name, w) :: ws, by simp only [exportFields, first, all]⟩

end BoundObject

end

namespace BoundObject

variable {depth : Nat}

theorem Settled.exportWith (ht : start.Keeps t) {limit : Nat} (h : o.Settled start depth)
    (keyed : o.IsWellKeyed) (hd : depth ≤ limit) :
    ∃ v, exportWith builder limit o t = (t, .ok v) := by
  induction depth generalizing o limit with
  | zero => cases h
  | succ depth ih =>
    obtain ⟨limit, rfl⟩ := Nat.exists_eq_add_of_le' hd
    obtain ⟨distinct, inner⟩ := Dict.isWellKeyed_iff.1 keyed
    have fields : ∀ entry ∈ o.data,
        ∃ w, entry.2.exportWith (BoundObject.exportWith builder (limit + depth)) t = (t, .ok w) := by
      intro entry hentry
      have settled := h entry.1 entry.2 (Dict.get?_of_mem distinct hentry)
      refine settled.conforms.exportWith (Value.Nested.imp ?_ (settled.nested.keyed
        (inner entry hentry)))
      rintro x ⟨hx, keyed⟩
      exact ih hx keyed (Nat.le_add_left depth limit)
    obtain ⟨ws, all⟩ := exportFields_succeeds o.cls fields
    refine ⟨.map ws, ?_⟩
    rw [← Nat.add_assoc, BoundObject.exportWith]
    simp only [h.analyseFlat ht, all]
    rfl

end BoundObject

/-! ### The objects of a tree -/

/-- The object stands somewhere in the value, which may be the object itself. -/
inductive Value.Contains (x : BoundObject) : Value → Prop where
  | here : Contains x (.ofObject x)
  | item {items : List Value} {v : Value} (member : v ∈ items) (inner : Contains x v) :
      Contains x (.array items)
  | entry {entries : List (String × Value)} {entry : String × Value} (member : entry ∈ entries)
      (inner : Contains x entry.2) : Contains x (.map entries)
  | slot {o : BoundObject} {entry : String × Value} (member : entry ∈ o.data)
      (inner : Contains x entry.2) : Contains x (.ofObject o)

theorem Value.not_contains (fit : v.unfit? = none) : ¬ v.Contains x := by
  intro h
  induction h with
  | here => cases fit
  | item member _ ih => exact ih (Value.unfitInItems?_eq_none.1 fit _ member)
  | entry member _ ih => exact ih (Value.unfitInEntries?_eq_none.1 fit _ member)
  | slot => cases fit

/-- Where a value conforms and its objects are settled, so are all objects inside them. -/
theorem Value.Contains.settled {r : Registry} {type : FieldType} {depth : Nat}
    (h : v.Contains x) (conforms : Conforms r type n v)
    (nested : v.Nested (BoundObject.Settled start depth) n) (keyed : v.isWellKeyed = true) :
    (∃ level ≤ depth, x.Settled start level) ∧ x.IsWellKeyed := by
  induction h generalizing r type n depth with
  | here =>
    obtain ⟨rfl, -⟩ := conforms.of_object
    exact ⟨⟨depth, Nat.le_refl depth, nested⟩, keyed⟩
  | item member inner ih =>
    rcases conforms.of_array with fit | ⟨n, rfl, items_conform⟩
    · exact absurd (.item member inner) (Value.not_contains fit)
    · exact ih (items_conform _ member) (nested _ member) (Value.areWellKeyed_iff.1 keyed _ member)
  | entry member inner => exact absurd (.entry member inner) (Value.not_contains conforms.of_map)
  | @slot o entry member _ ih =>
    obtain ⟨rfl, -⟩ := conforms.of_object
    obtain ⟨distinct, parts⟩ := Dict.isWellKeyed_iff.1 keyed
    cases depth with
    | zero => cases nested
    | succ depth =>
      have settled := nested entry.1 entry.2 (Dict.get?_of_mem distinct member)
      obtain ⟨⟨level, hlevel, hx⟩, keyed⟩ := ih settled.conforms settled.nested (parts entry member)
      exact ⟨⟨level, Nat.le_succ_of_le hlevel, hx⟩, keyed⟩

namespace BoundObject

/-- The object is the other one or stands somewhere in its data. -/
def Contains (o x : BoundObject) : Prop := (Value.ofObject o).Contains x

theorem Settled.contained {depth : Nat} (h : o.Settled start depth) (keyed : o.IsWellKeyed)
    (contains : o.Contains x) : (∃ level ≤ depth, x.Settled start level) ∧ x.IsWellKeyed := by
  unfold Contains at contains
  generalize hv : Value.ofObject o = v at contains
  cases contains with
  | here =>
    obtain rfl : o = x := Value.ofObject_inj hv
    exact ⟨⟨depth, Nat.le_refl depth, h⟩, keyed⟩
  | @slot o' entry member inner =>
    obtain rfl : o = o' := Value.ofObject_inj hv
    obtain ⟨distinct, parts⟩ := Dict.isWellKeyed_iff.1 keyed
    cases depth with
    | zero => cases h
    | succ depth =>
      have settled := h entry.1 entry.2 (Dict.get?_of_mem distinct member)
      obtain ⟨⟨level, hlevel, hx⟩, keyed⟩ :=
        inner.settled settled.conforms settled.nested (parts entry member)
      exact ⟨⟨level, Nat.le_succ_of_le hlevel, hx⟩, keyed⟩
  | item => cases hv
  | entry => cases hv

/-- Nothing that reads the object in a session changes it or fails. -/
structure IsAtRest (t : Session) (x : BoundObject) : Prop where
  get : ∀ field, x.hasDeclared field = true → ∃ v, x.get field t = ⟨t, x, .ok v⟩
  getObject : ∀ field, x.hasDeclared field = true →
    ∃ found, x.getObject field t = ⟨t, x, .ok found⟩
  analyze : ∀ deep, x.analyze deep t = ⟨t, x, .ok .empty⟩
  validate : x.validate t = ⟨t, x, .ok ()⟩
  exported : ∃ v, x.exported t = (t, .ok v)
  readAll : ∀ reads, x.readAll reads t = (x, t)

theorem Settled.isAtRest {depth : Nat} (ht : start.Keeps t) (h : x.Settled start depth)
    (keyed : x.IsWellKeyed) (hd : depth ≤ levelLimit) : x.IsAtRest t where
  get _ := h.get ht
  getObject field declared := by
    obtain ⟨v, hread⟩ := h.get ht declared
    refine ⟨v.asObject?, ?_⟩
    rw [BoundObject.getObject, hread]
    rfl
  analyze := h.analyze ht hd
  validate := h.validate ht hd
  exported := h.exportWith ht keyed hd
  readAll := h.readAll ht hd

/-- Every object in the tree stores declared fields only and is at rest from now on, whatever is
done in the session. -/
def StaysAtRest (s : Session) (o : BoundObject) : Prop :=
  ∀ x, o.Contains x → (∀ field, x.hasData field = true → x.hasDeclared field = true) ∧
    ∀ later, x.IsAtRest (s.run later)

theorem Settled.staysAtRest (hs : start.Keeps s) (h : o.Settled start levelLimit)
    (keyed : o.IsWellKeyed) : o.StaysAtRest s := by
  intro x contains
  obtain ⟨⟨level, hlevel, hx⟩, keyed⟩ := h.contained keyed contains
  constructor
  · intro field stored
    obtain ⟨v, hv⟩ := Option.isSome_iff_exists.1 stored
    cases level with
    | zero => cases hx
    | succ level => exact (hx field v hv).declared
  · intro later
    exact hx.isAtRest (hs.run later) keyed hlevel

theorem validate_spotless (valid : (o.validate s).result = .ok ()) :
    let all := analyseDeep builder levelLimit o "" .empty s
    all.IsSpotless ∧ o.validate s = ⟨all.session, all.object, .ok ()⟩ := by
  intro all
  unfold validate validateWith at valid ⊢
  dsimp only at valid ⊢
  split at valid
  · cases valid
  · next complete =>
    split at valid
    · cases valid
    · next clean =>
      rw [if_neg complete, if_neg clean]
      exact ⟨⟨by simpa using complete, Bool.eq_false_iff.2 clean⟩, rfl⟩

theorem validate_staysAtRest (instances : start.LeavesInstances) (hstart : start.Keeps start)
    (hs : start.Keeps s) (keyed : o.IsWellKeyed) (valid : (o.validate s).result = .ok ()) :
    (o.validate s).object.StaysAtRest (o.validate s).session := by
  obtain ⟨spotless, hvalid⟩ := validate_spotless valid
  have settled :=
    (analyseDeep_settles instances hstart levelLimit).settles o "" .empty hs spotless
  have keyed := analyseDeep_wellKeyed builder_wellKeyed levelLimit "" .empty s keyed
  have hs' := hs.evolves (analyseDeep_evolves builder_evolves levelLimit o "" .empty s)
  rw [hvalid]
  exact settled.2.staysAtRest hs' keyed

/-- An object that has been validated, when it was made or later, is settled if all objects that are
made of a class are instances of it: as long as nothing is written, no read of any object in its
tree fails, finds a problem or changes anything. -/
theorem validated_stays_at_rest (registries : List (Registry × Bool))
    (operations : List Session.Operation)
    (instances : ((Session.fresh registries).run operations).LeavesInstances) :
    let s := (Session.fresh registries).run operations
    (∀ o : BoundObject, o.IsWellKeyed → (o.validate s).result = .ok () →
      (o.validate s).object.StaysAtRest (o.validate s).session) ∧
    ∀ schema cls data, Dict.isWellKeyed data = true → ∀ t o,
      makeValidated true schema cls data s = (t, .ok o) → o.StaysAtRest t := by
  intro s
  have hs : s.Keeps s := ((Session.keeps_fresh registries).run operations).self
  constructor
  · intro o keyed valid
    exact validate_staysAtRest instances hs hs keyed valid
  · intro schema cls data keyed t o made
    have hmake := make_evolves schema cls data s
    unfold makeValidated at made
    split at made
    · cases made
    · next s' o' bound =>
      have keyed := builder_wellKeyed schema cls s keyed (congrArg Prod.snd bound)
      have hs' := hs.evolves (hmake.along bound)
      dsimp only at made
      rw [if_pos rfl] at made
      cases valid : (o'.validate s').result with
      | error e =>
        rw [valid] at made
        cases made
      | ok _ =>
        rw [valid] at made
        cases made
        exact validate_staysAtRest instances hs hs' keyed valid

end BoundObject

namespace LinkExample

/-- Two objects, one inside the other; the size of the outer one is a text that is still to be
cast. -/
def link : BoundObject :=
  ⟨0, ⟨"Link"⟩, table,
    [("size", .str "3"), ("next", .object 0 ⟨"Link"⟩ table [("size", .int 1)])]⟩

end LinkExample

namespace SquareExample

open BoundObject

theorem sheet_validated (hstart : start.Keeps start) (hs : start.Keeps s)
    (made : (make 0 ⟨"Shape"⟩ [] start).2 = .ok o) (blank : o.data = []) : ∃ t, start.Keeps t ∧
      sheet.validate s = ⟨t, sheet.put "shape" (.ofObject o), .ok ()⟩ := by
  obtain ⟨t, ht, read⟩ := sheet_read hstart hs made
  refine ⟨t, ht, ?_⟩
  obtain ⟨limit, hlimit⟩ := Nat.exists_eq_add_of_le' (show 2 ≤ levelLimit by decide)
  have nested : ∀ path report, analyseNested (analyseDeep builder (limit + 1))
      (sheet.outlet "shape").type.depth path (.ofObject o) report t =
        ⟨t, .ofObject o, report, true⟩ := by
    intro path report
    have inner : analyseDeep builder (limit + 1) o path report t = ⟨t, o, report, true⟩ := by
      rw [analyseDeep, blank]
      rfl
    change (let nested := analyseDeep builder (limit + 1) o path report t; AnalysedValue.mk ..) = _
    rw [inner]
  have all : analyseDeep builder levelLimit sheet "" .empty s =
      ⟨t, sheet.put "shape" (.ofObject o), .empty, true⟩ := by
    have names : Dict.names sheet.data = ["shape"] := by decide
    rw [hlimit, analyseDeep, names, List.foldl_cons, List.foldl_nil, analyseField_stored rfl, read,
      Analysed.ofRead_nested rfl rfl]
    dsimp only
    rw [nested]
    rfl
  rw [validate, validateWith, all]
  rfl

end SquareExample

open SquareExample in
theorem sheet_stays_at_rest :
    refined.LeavesInstances ∧ sheet.IsWellKeyed ∧ (sheet.validate refined).result = .ok () ∧
      (sheet.validate refined).object.StaysAtRest (sheet.validate refined).session := by
  have keyed : sheet.IsWellKeyed := by rfl
  obtain ⟨t, -, validated⟩ := sheet_validated refined_keeps refined_keeps refined_made rfl
  have valid : (sheet.validate refined).result = .ok () := by rw [validated]
  refine ⟨refined_leavesInstances, keyed, valid, ?_⟩
  exact (BoundObject.validated_stays_at_rest [(registry (some "Shape"), false)] []
    refined_leavesInstances).1 sheet keyed valid

open SquareExample in
/-- Without that, an object may have been validated and fail when it is read. -/
theorem replaced_sheet_restless :
    let valid := sheet.validate replaced
    valid.result = .ok () ∧ ¬ valid.object.StaysAtRest valid.session := by
  obtain ⟨t, ht, validated⟩ := sheet_validated replaced_keeps replaced_keeps replaced_made rfl
  intro valid
  have left : valid = ⟨t, _, _⟩ := validated
  rw [left]
  refine ⟨rfl, fun rest => ?_⟩
  obtain ⟨v, read⟩ := ((rest _ .here).2 []).get "shape" rfl
  have failed := replaced_sheet_again ht
  cases (congrArg Effect.result read).symm.trans failed

end LazyBinding
