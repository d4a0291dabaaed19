import LazyBinding.Proofs.Admission
import LazyBinding.Proofs.RipeAnalysis

/-!
# Writing and reading a field

A write stores all or nothing, and what it stores is what every later reader gets. A read changes
the value of its own field only, and that no deeper than it has to: data becomes an object around
the very same data.
-/
namespace LazyBinding

variable {start s t : Session} {p : Passage} {n : Nat} {v w : Value} {o : BoundObject}
variable {field : String} {type : FieldType}

namespace Dict

/-- The same entries in the same places, but for the values under one key. -/
def SameBut (key : String) (d d' : Dict String Value) : Prop :=
  List.Forall₂ (fun entry entry' => entry'.1 = entry.1 ∧ (entry.1 ≠ key → entry' = entry)) d d'

theorem SameBut.refl (key : String) (d : Dict String Value) : SameBut key d d :=
  List.forall₂_same.2 fun _ _ => ⟨rfl, fun _ => rfl⟩

theorem sameBut_put {d : Dict String Value} (present : field ∈ keys d) (v : Value) :
    SameBut field d (put d field v) := by
  induction d with
  | nil => cases present
  | cons entry rest ih =>
    obtain ⟨key, u⟩ := entry
    by_cases hkey : key = field
    · subst hkey
      rw [put, if_pos rfl]
      exact .cons ⟨rfl, fun other => absurd rfl other⟩ (SameBut.refl key rest)
    · have later : field ∈ keys rest := (List.mem_cons.1 present).resolve_left (Ne.symm hkey)
      rw [put, if_neg hkey]
      exact .cons ⟨rfl, fun _ => rfl⟩ (ih later)

end Dict

namespace Passage

/-! ### Inward and outward -/

theorem convertBase_outward {build : Builder} (inward : p.direction = .accept)
    (h : (p.convertBase build v s).error = none) :
    convertBase build { p with direction := .materialize } v s = p.convertBase build v s := by
  unfold convertBase at h ⊢
  dsimp only
  cases base : p.type.base with
  | any => rfl
  | primitive kind => rfl
  | object cls =>
    simp only [base, inward] at h ⊢
    unfold accept at h ⊢
    cases v with
    | object schema actual table data => rfl
    | _ => cases h

theorem convertItems_congr {item item' : Value → Session → Converted}
    (hi : ∀ v s, (item v s).error = none → item' v s = item v s) (items : List Value)
    (h : (convertItems item items s).error = none) :
    convertItems item' items s = convertItems item items s := by
  induction items generalizing s with
  | nil => rfl
  | cons v rest ih =>
    cases first : (item v s).error with
    | some e =>
      simp only [convertItems, first] at h
      cases h
    | none =>
      simp only [convertItems, first] at h
      simp only [convertItems, hi v s first, first, ih h]

/-- A value that is accepted is converted in the same way for a reader. -/
theorem convertLevel_outward {build : Builder} (inward : p.direction = .accept)
    (h : (p.convertLevel build n v s).error = none) :
    convertLevel build { p with direction := .materialize } n v s = p.convertLevel build n v s := by
  induction n generalizing v s with
  | zero =>
    cases v with
    | null => rfl
    | _ => exact convertBase_outward inward h
  | succ n ih =>
    have all : ∀ items, (convertItems (p.convertLevel build n) items s).error = none →
        convertItems (convertLevel build { p with direction := .materialize } n) items s =
          convertItems (p.convertLevel build n) items s :=
      fun items => convertItems_congr (fun _ _ => ih) items
    cases v with
    | array items =>
      simp only [convertLevel] at h ⊢
      rw [all items h]
    | map entries =>
      simp only [convertLevel] at h ⊢
      split
      · rfl
      · next keys =>
        rw [keys] at h
        rw [all _ h]
    | _ => rfl

theorem accepted_conforms (hstart : start.Keeps start) (hs : start.Keeps s)
    (inward : p.direction = .accept) (h : (p.convert BoundObject.builder v s).error = none) :
    Conforms (start.registry p.schema) p.type p.type.depth
      (p.convert BoundObject.builder v s).value := by
  have instances : p.MakesInstances start p.type.depth v :=
    makesInstances_of_accept inward p.type.depth v
  exact convertLevel_conforms instances hstart hs h

end Passage

namespace BoundObject

/-! ### Writing -/

theorem outlet_of_fieldType (h : o.fieldType field = .ok type) : (o.outlet field).type = type := by
  unfold fieldType at h
  cases declared : Dict.get? o.table field with
  | some type' =>
    rw [declared] at h
    cases h
    rw [outlet_eq declared]
  | none =>
    rw [declared] at h
    dsimp only at h
    split at h
    · cases h
      simp only [outlet, FieldTable.outlet, FieldTable.typeOf, declared, Option.getD_none]
    · cases h

theorem get_of_conforms (hv : o.slot? field = some v)
    (h : Conforms (s.registry o.schema) (o.outlet field).type (o.outlet field).type.depth v) :
    o.get field s = ⟨s, o, .ok v⟩ := by
  have hconvert : (o.outlet field).convert builder v s = ⟨s, v, none⟩ :=
    Conforms.converts (p := o.outlet field) h
  rw [get, readWith_stored hv]
  rcases o.materializeSlot_cases field v s with ⟨e, failed, -⟩ | ⟨-, read⟩
  · rw [hconvert] at failed
    cases failed
  · rw [read, hconvert, put_slot? hv]

theorem set_cases (hstart : start.Keeps start) (hs : start.Keeps s) (o : BoundObject)
    (field : String) (v : Value) :
    (∃ e, (o.set field v s).result = .error e ∧ (o.set field v s).object = o) ∨
      ∃ type, o.fieldType field = .ok type ∧
        let accepted := (o.passage field type .accept).convert builder v s
        (o.set field v s).result = .ok () ∧
          (o.set field v s).object = o.put field accepted.value ∧
          Conforms (start.registry o.schema) type type.depth accepted.value := by
  unfold set writeWith
  cases htype : o.fieldType field with
  | error e => exact Or.inl ⟨e, rfl, rfl⟩
  | ok type =>
    cases ok : ((o.passage field type .accept).convert builder v s).error with
    | some e =>
      refine Or.inl ⟨.conversion e, ?_, ?_⟩
      · simp only [ok]
      · simp only [ok]
    | none =>
      have conforms := Passage.accepted_conforms hstart hs rfl ok
      refine Or.inr ⟨type, rfl, ?_, ?_, conforms⟩
      · simp only [ok]
      · simp only [ok]

/-- A write that fails leaves the object as it is. One that succeeds stores what the given value is
accepted as, which is the value itself if that conforms to the type of the field. It changes the
entry of the field only, which goes last if it is new, and whatever is done next, a reader of the
field gets what has been stored and changes nothing. What is accepted comes out as it has been
stored. -/
theorem set_reads_back (registries : List (Registry × Bool)) (operations : List Session.Operation)
    (o : BoundObject) (field : String) (v : Value) :
    let s := (Session.fresh registries).run operations
    let written := o.set field v s
    (∀ e, written.result = .error e → written.object = o) ∧
    (written.result = .ok () → ∃ type data stored,
      o.fieldType field = .ok type ∧
      stored = ((o.passage field type .accept).convert builder v s).value ∧
      (Conforms (s.registry o.schema) type type.depth v → stored = v) ∧
      written.object = { o with data := data } ∧ Dict.get? data field = some stored ∧
      (if field ∈ Dict.keys o.data then Dict.SameBut field o.data data
        else data = o.data ++ [(field, stored)]) ∧
      ∀ later, let t := written.session.run later
        written.object.get field t = ⟨t, written.object, .ok stored⟩) ∧
    ∀ type u, let inward := (o.passage field type .accept).convert builder u s
      let outward := o.passage field type .materialize
      inward.error = none → outward.convert builder u s = inward ∧
        outward.convert builder inward.value s = ⟨s, inward.value, none⟩ := by
  intro s written
  have hs : s.Keeps s := ((Session.keeps_fresh registries).run operations).self
  refine ⟨?_, ?_, ?_⟩
  · intro e failed
    rcases o.set_cases hs hs field v with ⟨-, -, kept⟩ | ⟨-, -, ok, -, -⟩
    · exact kept
    · cases ok.symm.trans failed
  · intro ok
    rcases o.set_cases hs hs field v with ⟨e, failed, -⟩ | ⟨type, htype, -, put, conforms⟩
    · cases failed.symm.trans ok
    · refine ⟨type, _, _, htype, rfl, ?_, put, Dict.get?_put_self _ _ _, ?_, ?_⟩
      · intro exact
        have kept := Conforms.converts (p := o.passage field type .accept) exact
        exact congrArg Converted.value kept
      · split
        · next present => exact Dict.sameBut_put present _
        · next absent => exact Dict.put_of_notMem _ absent
      · intro later t
        have ht : s.Keeps t := (hs.evolves (o.writeWith_evolves builder_evolves field v s)).run later
        change written.object = _ at put
        rw [put]
        apply get_of_conforms (slot?_put o field _)
        change Conforms (t.registry o.schema) (o.outlet field).type (o.outlet field).type.depth _
        rw [ht.registry, outlet_of_fieldType htype]
        exact conforms
  · intro type u inward outward ok
    refine ⟨Passage.convertLevel_outward rfl ok, ?_⟩
    have conforms := Passage.accepted_conforms hs hs rfl ok
    exact Conforms.converts (p := outward) conforms

end BoundObject

namespace LinkExample

/-- An object without data. -/
def blank : BoundObject := ⟨0, ⟨"Link"⟩, table, []⟩

end LinkExample

open LinkExample in
theorem blank_set_reads_back :
    let written := blank.set "size" (.str "3") session
    let refused := blank.set "next" (.map []) session
    written.result = .ok () ∧
      written.object = { blank with data := [("size", .int 3)] } ∧
      written.object.get "size" (written.session.run []) =
        ⟨written.session.run [], written.object, .ok (.int 3)⟩ ∧
      (∃ e, refused.result = .error e) ∧ refused.object = blank ∧
      (blank.passage "size" ⟨.primitive .int, 0⟩ .materialize).convert BoundObject.builder (.int 3)
        session = ⟨session, .int 3, none⟩ := by
  intro written refused
  obtain ⟨-, reads, accepted⟩ :=
    BoundObject.set_reads_back [(registry, false)] [] blank "size" (.str "3")
  have ok : written.result = .ok () := by rfl
  obtain ⟨type, data, stored, declared, converted, -, object, -, last, read⟩ := reads ok
  cases declared
  have three : stored = .int 3 := converted
  subst three
  rw [if_neg (by decide)] at last
  subst last
  obtain ⟨keeps, -⟩ := BoundObject.set_reads_back [(registry, false)] [] blank "next" (.map [])
  have failed : ∃ e, refused.result = .error e := ⟨_, rfl⟩
  obtain ⟨e, failed⟩ := failed
  exact ⟨ok, object, read [], ⟨e, failed⟩, keeps e failed,
    (accepted ⟨.primitive .int, 0⟩ (.str "3") rfl).2⟩

namespace BoundObject

/-! ### Reading -/

theorem get_sameBut (o : BoundObject) (field : String) (s : Session) :
    ∃ data, (o.get field s).object = { o with data := data } ∧ Dict.SameBut field o.data data := by
  cases hv : o.slot? field with
  | none =>
    rw [get, readWith_absent hv]
    exact ⟨o.data, rfl, .refl field o.data⟩
  | some v =>
    rw [get, readWith_stored hv, materializeSlot_object]
    exact ⟨_, rfl, Dict.sameBut_put (mem_keys_of_slot? hv) _⟩

end BoundObject

/-- How far a reader changes a value, where a number of array levels remains above the objects of a
class without a hook, and whether it stops at something bad. -/
inductive Lifts (s : Session) (schema : SchemaId) (cls : ClassPath) :
    (remaining : Nat) → (before after : Value) → (stopped : Bool) → Prop where
  | null {n : Nat} : Lifts s schema cls n .null .null false
  | object (o : BoundObject) : Lifts s schema cls 0 (.ofObject o) (.ofObject o) false
  /-- Data becomes an object around it as it is. -/
  | data {v : Value} {data : Dict String Value} {table : FieldTable}
      (source : v.objectData? = some data) (compiled : (s.table schema cls).2 = .ok table) :
      Lifts s schema cls 0 v (.object schema cls table data) false
  | misfit (v : Value) : Lifts s schema cls 0 v v true
  | single {n : Nat} {v : Value} (h : v.isSequence = false) : Lifts s schema cls (n + 1) v v true
  | unlisted {n : Nat} {entries : Dict String Value} (h : ¬ Dict.IsListing entries) :
      Lifts s schema cls (n + 1) (.map entries) (.map entries) true
  | nil {n : Nat} : Lifts s schema cls (n + 1) (.array []) (.array []) false
  /-- The items behind a bad one stay as they are. -/
  | stop {n : Nat} {v w : Value} {rest : List Value} (first : Lifts s schema cls n v w true) :
      Lifts s schema cls (n + 1) (.array (v :: rest)) (.array (w :: rest)) true
  | next {n : Nat} {v w : Value} {rest rest' : List Value} {stopped : Bool}
      (first : Lifts s schema cls n v w false)
      (others : Lifts s schema cls (n + 1) (.array rest) (.array rest') stopped) :
      Lifts s schema cls (n + 1) (.array (v :: rest)) (.array (w :: rest')) stopped
  | listing {n : Nat} {entries : Dict String Value} {w : Value} {stopped : Bool}
      (keys : Dict.IsListing entries)
      (items : Lifts s schema cls (n + 1) (.array (Dict.values entries)) w stopped) :
      Lifts s schema cls (n + 1) (.map entries) w stopped

namespace Passage

variable {cls : ClassPath}

theorem construct_lifts {data : Dict String Value} (hstart : start.Keeps start)
    (hs : start.Keeps s) (hookless : (start.registry p.schema).hook? cls = none)
    (source : v.objectData? = some data) :
    let converted := p.construct BoundObject.builder cls v data s
    Lifts start p.schema cls 0 v converted.value converted.error.isSome := by
  unfold construct
  rcases h : BoundObject.builder p.schema cls data s with ⟨s', _ | o⟩
  · exact .misfit v
  · obtain ⟨table, compiled, rfl⟩ :=
      (BoundObject.builder_hookless hstart hs hookless).1 (congrArg Prod.snd h)
    exact .data source compiled

theorem materialize_lifts (hstart : start.Keeps start) (hs : start.Keeps s)
    (hookless : (start.registry p.schema).hook? cls = none) (v : Value) :
    let converted := p.materialize BoundObject.builder cls v s
    Lifts start p.schema cls 0 v converted.value converted.error.isSome := by
  unfold materialize
  split
  · next schema actual table data =>
    cases h : p.checkInstance s cls actual with
    | none => exact .object ⟨schema, actual, table, data⟩
    | some e => exact .misfit _
  · exact construct_lifts hstart hs hookless rfl
  · exact construct_lifts hstart hs hookless rfl
  · exact .misfit _
  · exact .misfit _

theorem convertLevel_lifts (hstart : start.Keeps start) (hs : start.Keeps s)
    (base : p.type.base = .object cls) (outward : p.direction = .materialize)
    (hookless : (start.registry p.schema).hook? cls = none) (n : Nat) (v : Value) :
    let converted := p.convertLevel BoundObject.builder n v s
    Lifts start p.schema cls n v converted.value converted.error.isSome := by
  dsimp only
  induction n generalizing v s with
  | zero =>
    by_cases hv : v = .null
    · subst hv
      exact .null
    · rw [convertLevel_zero hv]
      simp only [convertBase, base, outward]
      exact materialize_lifts hstart hs hookless v
  | succ n ih =>
    have all : ∀ items : List Value, Lifts start p.schema cls (n + 1) (.array items)
        (p.convertLevel BoundObject.builder (n + 1) (.array items) s).value
        (p.convertLevel BoundObject.builder (n + 1) (.array items) s).error.isSome := by
      intro items
      induction items generalizing s with
      | nil => exact .nil
      | cons v rest later =>
        have first := ih hs v
        have others := later (hs.evolves (p.convertLevel_evolves BoundObject.builder_evolves n v s))
        rcases p.convertLevel_cons n v rest s with ⟨e, failed, cons⟩ | ⟨ok, items, hitems, cons⟩
        · rw [failed] at first
          rw [cons]
          exact .stop first
        · rw [ok] at first
          rw [hitems] at others
          rw [cons]
          exact .next first others
    cases v with
    | null => exact .null
    | array items => exact all items
    | map entries =>
      cases keys : Value.firstOffKey 0 entries with
      | none =>
        rw [convertLevel_listed keys]
        exact .listing (Dict.isListing_iff.2 keys) (all _)
      | some off =>
        have unlisted : ¬ Dict.IsListing entries := by
          rw [Dict.isListing_iff, keys]
          exact Option.some_ne_none off
        simp only [convertLevel, keys]
        exact .unlisted unlisted
    | _ => exact .single rfl

end Passage

namespace BoundObject

/-- Reading is lazy. It changes no entry but that of the field, also when it fails. Where the field
has objects of a class without a hook, it puts data into objects as it is, up to the first bad item,
and leaves objects that are there alone. -/
theorem get_lazy (registries : List (Registry × Bool)) (operations : List Session.Operation)
    (o : BoundObject) (field : String) :
    let s := (Session.fresh registries).run operations
    let read := o.get field s
    (∃ data, read.object = { o with data := data } ∧ Dict.SameBut field o.data data) ∧
    ∀ cls depth v, Dict.get? o.table field = some ⟨.object cls, depth⟩ →
      (s.registry o.schema).hook? cls = none → o.slot? field = some v →
      ∃ w, read.object.slot? field = some w ∧
        ((read.result = .ok w ∧ Lifts s o.schema cls depth v w false) ∨
          ∃ e, read.result = .error e ∧ Lifts s o.schema cls depth v w true) := by
  intro s read
  refine ⟨o.get_sameBut field s, ?_⟩
  intro cls depth v declared hookless hv
  have hs : s.Keeps s := ((Session.keeps_fresh registries).run operations).self
  have lifts : Lifts s o.schema cls depth v ((o.outlet field).convert builder v s).value
      ((o.outlet field).convert builder v s).error.isSome := by
    rw [outlet_eq declared]
    exact Passage.convertLevel_lifts (p := ⟨o.schema, field, ⟨.object cls, depth⟩, .materialize⟩)
      hs hs rfl rfl hookless depth v
  have hread : read = o.materializeSlot builder field (o.outlet field).type v s :=
    readWith_stored hv s
  rcases o.materializeSlot_cases field v s with ⟨e, failed, slot⟩ | ⟨ok, slot⟩
  · rw [failed] at lifts
    rw [hread, slot]
    exact ⟨_, slot?_put o field _, Or.inr ⟨_, rfl, lifts⟩⟩
  · rw [ok] at lifts
    rw [hread, slot]
    exact ⟨_, slot?_put o field _, Or.inl ⟨rfl, lifts⟩⟩

end BoundObject

namespace LinkExample

/-- A list of links on its way to a reader. -/
def chain : Passage := ⟨0, "chain", ⟨.object ⟨"Link"⟩, 1⟩, .materialize⟩

/-- A list in disguise, of raw data, of nothing, of empty data and of an object. -/
def links : Value :=
  .map [("0", .map [("size", .str "3")]), ("1", .null), ("2", .array []), ("3", .ofObject stray)]

theorem links_admitted : chain.Admits session 1 links := by
  refine .listing (by rfl) ?_
  simp only [Dict.values, List.map_cons, List.map_nil, List.forall_mem_cons]
  exact ⟨.data rfl rfl rfl (made _), .null, .data rfl rfl rfl (made _),
    .object rfl (by rfl), by simp⟩

/-- An object with a list of links. -/
def holder : BoundObject := ⟨0, ⟨"Link"⟩, [("chain", chain.type)], [("chain", links)]⟩

end LinkExample

open LinkExample in
theorem holder_get_lazy :
    let read := holder.get "chain" session
    (session.registry 0).hook? ⟨"Link"⟩ = none ∧
      ∃ w, read.object.slot? "chain" = some w ∧ read.result = .ok w ∧
        Lifts session 0 ⟨"Link"⟩ 1 links w false := by
  intro read
  have hs : session.Keeps session := ((Session.keeps_fresh [(registry, false)]).run []).self
  have hookless : (session.registry 0).hook? ⟨"Link"⟩ = none := by rfl
  have result : read.result = _ := holder.materializeSlot_result "chain" links hs hs
  have ok : ((holder.outlet "chain").convert BoundObject.builder links session).error = none :=
    (Passage.convertLevel_eq_none_iff hs hs).2 links_admitted
  rw [ok] at result
  obtain ⟨-, lifts⟩ := BoundObject.get_lazy [(registry, false)] [] holder "chain"
  refine ⟨hookless, ?_⟩
  obtain ⟨w, slot, ⟨found, lifted⟩ | ⟨e, failed, -⟩⟩ := lifts ⟨"Link"⟩ 1 links rfl hookless rfl
  · exact ⟨w, slot, found, lifted⟩
  · cases result.symm.trans failed

end LazyBinding
