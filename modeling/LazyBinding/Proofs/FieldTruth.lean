import LazyBinding.Proofs.AccessorCalls
import LazyBinding.Proofs.IntegerTexts
import LazyBinding.Proofs.RipeAnalysis

/-!
# The truth of a field that is read

Whether a field is true is asked of the value as it is stored, which a read converts in place. The
conversion keeps what is true true and what is not so, but for an object that is made from nothing
and a few casts that end at zero or leave it.
-/
namespace LazyBinding

open Decimal Json

variable {s : Session} {p : Passage} {n : Nat} {v w : Value} {kind : Primitive} {x : Float}
variable {text : String} {digits : List Char} {o : BoundObject} {field : String} {type : FieldType}

/-- The stored values whose truth a field of the type turns when it is read. -/
inductive TurnsTruth : FieldType → Value → Prop where
  /-- An object is true, even one without data. -/
  | emptyMap {cls} : TurnsTruth ⟨.object cls, 0⟩ (.map [])
  | emptyArray {cls} : TurnsTruth ⟨.object cls, 0⟩ (.array [])
  /-- A text without a number in front is true, and so is one whose number is spelled longer than
  `0`. -/
  | textToInt {text : String} (nonempty : text ≠ "") (longer : text ≠ "0")
      (zero : (Value.str text).castInt = 0) : TurnsTruth ⟨.primitive .int, 0⟩ (.str text)
  | textToFloat {text : String} (nonempty : text ≠ "") (longer : text ≠ "0")
      (zero : ((Value.str text).castFloat == 0) = true) :
      TurnsTruth ⟨.primitive .float, 0⟩ (.str text)
  /-- What is cut off to zero, or is no number. -/
  | cutOff {x : Float} (nonzero : (x == 0) = false) (zero : intOfFloat x = 0) :
      TurnsTruth ⟨.primitive .int, 0⟩ (.float x)
  /-- It is written `-0`. -/
  | negativeZero : TurnsTruth ⟨.primitive .string, 0⟩ (.float (-0.0))

theorem TurnsTruth.not_null : ¬ TurnsTruth type .null := nofun

theorem TurnsTruth.depth_eq (h : TurnsTruth type v) : type.depth = 0 := by
  cases h <;> rfl

/-! ### Casts -/

theorem isTruthy_str_iff : (Value.str text).isTruthy = true ↔ text ≠ "" ∧ text ≠ "0" := by
  simp [Value.isTruthy]

theorem untrue_str_iff : (Value.str text).isTruthy = false ↔ text = "" ∨ text = "0" := by
  simp [Value.isTruthy, or_iff_not_imp_left]

theorem isTruthy_float_iff : (Value.float x).isTruthy = true ↔ (x == 0) = false := by
  simp [Value.isTruthy, bne]

theorem untrue_float_iff : (Value.float x).isTruthy = false ↔ (x == 0) = true := by
  simp [Value.isTruthy, bne]

theorem isTruthy_ofList_iff :
    (Value.str (String.ofList digits)).isTruthy = true ↔ digits ≠ [] ∧ digits ≠ ['0'] := by
  have empty : String.ofList digits = "" ↔ digits = [] := String.ofList_inj
  have zero : String.ofList digits = "0" ↔ digits = ['0'] := String.ofList_inj
  rw [isTruthy_str_iff, ne_eq, ne_eq, empty, zero]

theorem isTruthy_toString (word : Int64) :
    (Value.str (toString word.toInt)).isTruthy = (Value.int word).isTruthy := by
  by_cases zero : word = 0
  · subst zero
    rfl
  · have written : (Value.str (toString word.toInt)).isTruthy = true := by
      -- What is written reads back, and neither text that is not true reads as anything but zero.
      by_contra untrue
      apply zero
      rw [← castInt_toString word]
      rcases untrue_str_iff.1 (eq_false_of_ne_true untrue) with same | same
      · rw [same]
        decide
      · rw [same]
        decide
    rw [written]
    exact (bne_iff_ne.2 zero).symm

theorem plainText_significant (h : AreSignificant digits) (leading : Int) :
    plainText false digits leading ≠ [] ∧ plainText false digits leading ≠ ['0'] := by
  obtain ⟨c, others, rfl⟩ := List.exists_cons_of_ne_nil h.nonempty
  have nonzero : c ≠ '0' := fun zero => h.nonzero (congrArg some zero)
  unfold plainText
  dsimp only
  by_cases below : leading < 0
  · rw [if_pos below]
    simp
  · rw [if_neg below]
    split <;> simp [nonzero]

theorem isTruthy_write (nonzero : (x == 0) = false) :
    (Value.str (castLayout.write x)).isTruthy = true := by
  unfold Layout.write
  by_cases finite : x.isFinite = true
  · obtain ⟨negative, m, e, parts, representable, back⟩ := exists_parts finite
    have positive : m ≠ 0 := by
      rintro rfl
      rw [representable.magnitudeBits_zero] at back
      have zero : (floatOfBits negative 0 == 0) = true :=
        (floatOfBits_beq_zero_iff (Nat.zero_le _)).2 rfl
      rw [back, nonzero] at zero
      cases zero
    have significant := areSignificant_significantDigits
      (shortest_range castLayout.tie representable (Nat.pos_of_ne_zero positive)).1
    have written : castLayout.magnitude m e = plainText false
        (significantDigits (shortest castLayout.tie m e)) _ := if_neg positive
    obtain ⟨nonempty, longer⟩ := plainText_significant significant _
    rw [parts]
    dsimp only
    rw [written, isTruthy_ofList_iff]
    cases negative with
    | false => exact ⟨nonempty, longer⟩
    | true => simp [nonempty]
  · rcases parts_of_not_finite (eq_false_of_ne_true finite) with parts | ⟨negative, parts⟩
    · rw [parts]
      decide
    · rw [parts]
      cases negative <;> decide

/-- Where truth can only get lost, it stays the same unless it is lost. -/
theorem truth_eq_iff {before after : Bool} (untrue : before = false → after = false) :
    after = before ↔ ¬ (before = true ∧ after = false) := by
  cases before <;> cases after <;> simp_all

theorem castInt_untrue (untrue : v.isTruthy = false) :
    (Value.int v.castInt).isTruthy = false := by
  cases v with
  | bool b =>
    cases untrue
    rfl
  | int n => exact untrue
  | float x =>
    rcases beq_zero_iff_eq.1 (untrue_float_iff.1 untrue) with rfl | rfl
    · decide
    · decide
  | str text =>
    rcases untrue_str_iff.1 untrue with rfl | rfl
    · decide
    · decide
  | _ => rfl

theorem castFloat_untrue (untrue : v.isTruthy = false) :
    (Value.float v.castFloat).isTruthy = false := by
  cases v with
  | bool b =>
    cases untrue
    decide
  | int n =>
    obtain rfl : n = 0 := by simpa [Value.isTruthy] using untrue
    decide
  | float x => exact untrue
  | str text =>
    rcases untrue_str_iff.1 untrue with rfl | rfl
    · decide
    · decide
  | _ => exact untrue_float_iff.2 (beq_zero_iff_eq.2 (.inl rfl))

theorem textToInt_iff : TurnsTruth ⟨.primitive .int, 0⟩ (.str text) ↔
    (Value.str text).isTruthy = true ∧ (Value.int (Value.str text).castInt).isTruthy = false := by
  have zero : (Value.int (Value.str text).castInt).isTruthy = false ↔
      (Value.str text).castInt = 0 := by
    simp [Value.isTruthy]
  rw [isTruthy_str_iff, zero]
  constructor
  · intro turns
    cases turns with
    | textToInt nonempty longer zero => exact ⟨⟨nonempty, longer⟩, zero⟩
  · rintro ⟨⟨nonempty, longer⟩, zero⟩
    exact .textToInt nonempty longer zero

theorem textToFloat_iff : TurnsTruth ⟨.primitive .float, 0⟩ (.str text) ↔
    (Value.str text).isTruthy = true ∧
      (Value.float (Value.str text).castFloat).isTruthy = false := by
  rw [isTruthy_str_iff, untrue_float_iff]
  constructor
  · intro turns
    cases turns with
    | textToFloat nonempty longer zero => exact ⟨⟨nonempty, longer⟩, zero⟩
  · rintro ⟨⟨nonempty, longer⟩, zero⟩
    exact .textToFloat nonempty longer zero

theorem cutOff_iff : TurnsTruth ⟨.primitive .int, 0⟩ (.float x) ↔
    (Value.float x).isTruthy = true ∧ (Value.int (Value.float x).castInt).isTruthy = false := by
  have zero : (Value.int (Value.float x).castInt).isTruthy = false ↔ intOfFloat x = 0 := by
    simp [Value.isTruthy, Value.castInt]
  rw [isTruthy_float_iff, zero]
  constructor
  · intro turns
    cases turns with
    | cutOff nonzero zero => exact ⟨nonzero, zero⟩
  · rintro ⟨nonzero, zero⟩
    exact .cutOff nonzero zero

/-- A double is written `0` exactly if it is zero without a minus. -/
theorem write_truth : (Value.str (castLayout.write x)).isTruthy = (Value.float x).isTruthy ↔
    ¬ TurnsTruth ⟨.primitive .string, 0⟩ (.float x) := by
  have negative : TurnsTruth ⟨.primitive .string, 0⟩ (.float x) ↔ x = -0.0 := by
    constructor
    · intro turns
      cases turns
      rfl
    · rintro rfl
      exact .negativeZero
  rw [negative]
  by_cases zero : (x == 0) = true
  · rcases beq_zero_iff_eq.1 zero with rfl | rfl
    · decide
    · decide
  · have nonzero := eq_false_of_ne_true zero
    rw [isTruthy_write nonzero, isTruthy_float_iff.2 nonzero]
    refine iff_of_true rfl fun same => zero ?_
    exact beq_zero_iff_eq.2 (.inr same)

theorem castInt_truth (scalar : v.isScalar = true) :
    (Value.int v.castInt).isTruthy = v.isTruthy ↔ ¬ TurnsTruth ⟨.primitive .int, 0⟩ v := by
  cases v with
  | bool b =>
    refine iff_of_true ?_ nofun
    cases b <;> rfl
  | int n => exact iff_of_true rfl nofun
  | float x =>
    rw [cutOff_iff]
    exact truth_eq_iff castInt_untrue
  | str text =>
    rw [textToInt_iff]
    exact truth_eq_iff castInt_untrue
  | _ => cases scalar

theorem castFloat_truth (scalar : v.isScalar = true) :
    (Value.float v.castFloat).isTruthy = v.isTruthy ↔ ¬ TurnsTruth ⟨.primitive .float, 0⟩ v := by
  cases v with
  | bool b =>
    refine iff_of_true ?_ (by rintro ⟨⟩)
    cases b <;> decide
  | int n =>
    refine iff_of_true ?_ (by rintro ⟨⟩)
    have zero : (floatOfInt n.toInt == 0) = true ↔ n = 0 := by
      rw [floatOfInt_beq_zero_iff, ← Int64.toInt_zero, Int64.toInt_inj]
    rw [Bool.eq_iff_iff]
    simpa [Value.isTruthy, Value.castFloat, bne] using not_congr zero
  | float x => exact iff_of_true rfl (by rintro ⟨⟩)
  | str text =>
    rw [textToFloat_iff]
    exact truth_eq_iff castFloat_untrue
  | _ => cases scalar

theorem castString_truth (scalar : v.isScalar = true) :
    (Value.str v.castString).isTruthy = v.isTruthy ↔ ¬ TurnsTruth ⟨.primitive .string, 0⟩ v := by
  cases v with
  | bool b =>
    refine iff_of_true ?_ (by rintro ⟨⟩)
    cases b <;> decide
  | int n => exact iff_of_true (isTruthy_toString n) (by rintro ⟨⟩)
  | float x => exact write_truth
  | str text => exact iff_of_true rfl (by rintro ⟨⟩)
  | _ => cases scalar

/-! ### Conversions -/

namespace Passage

theorem toPrimitive_cast (h : p.toPrimitive kind v = (w, none)) : v.cast? kind = some w := by
  cases kind <;> cases v <;>
    simp_all [toPrimitive, Value.cast?, Value.isScalar, Value.isSequence, Value.kind,
      Value.isTruthy, Value.castInt, Value.castFloat, Value.castString]

theorem toPrimitive_truth (h : p.toPrimitive kind v = (w, none)) :
    w.isTruthy = v.isTruthy ↔ ¬ TurnsTruth ⟨.primitive kind, 0⟩ v := by
  have scalar := isScalar_of_cast h
  have cast := toPrimitive_cast h
  unfold Value.cast? at cast
  rw [if_pos scalar] at cast
  obtain rfl := Option.some.inj cast
  cases kind with
  | bool => exact iff_of_true rfl nofun
  | int => exact castInt_truth scalar
  | float => exact castFloat_truth scalar
  | string => exact castString_truth scalar

theorem construct_truth {cls : ClassPath} {data : Dict String Value}
    (converts : (p.construct BoundObject.builder cls v data s).error = none) :
    (p.construct BoundObject.builder cls v data s).value.isTruthy = true := by
  unfold construct at converts ⊢
  split at converts
  · rfl
  · cases converts

theorem materialize_truth {cls : ClassPath}
    (converts : (p.materialize BoundObject.builder cls v s).error = none) :
    (p.materialize BoundObject.builder cls v s).value.isTruthy = v.isTruthy ↔
      ¬ TurnsTruth ⟨.object cls, 0⟩ v := by
  cases v with
  | map entries =>
    have built : (p.materialize BoundObject.builder cls (.map entries) s).value.isTruthy = true :=
      construct_truth converts
    rw [built]
    cases entries with
    | nil => exact iff_of_false (by decide) (not_not.2 .emptyMap)
    | cons entry rest => exact iff_of_true rfl nofun
  | array items =>
    cases items with
    | nil =>
      have built : (p.materialize BoundObject.builder cls (.array []) s).value.isTruthy = true :=
        construct_truth converts
      rw [built]
      exact iff_of_false (by decide) (not_not.2 .emptyArray)
    | cons v rest => cases converts
  | object schema cls table data => exact iff_of_true rfl nofun
  | _ => cases converts

theorem convertBase_truth (outward : p.direction = .materialize)
    (converts : (p.convertBase BoundObject.builder v s).error = none) :
    (p.convertBase BoundObject.builder v s).value.isTruthy = v.isTruthy ↔
      ¬ TurnsTruth ⟨p.type.base, 0⟩ v := by
  unfold convertBase at converts ⊢
  cases base : p.type.base with
  | any => exact iff_of_true rfl nofun
  | primitive kind =>
    rw [base] at converts
    exact toPrimitive_truth (Prod.ext rfl converts)
  | object cls =>
    rw [base, outward] at converts
    rw [outward]
    exact materialize_truth converts

theorem convertLevel_array_truth (items : List Value) :
    (p.convertLevel BoundObject.builder (n + 1) (.array items) s).value.isTruthy =
      (Value.array items).isTruthy := by
  cases items with
  | nil => rfl
  | cons v rest =>
    rcases p.convertLevel_cons n v rest s with ⟨e, -, whole⟩ | ⟨-, items, -, whole⟩
    · rw [whole]
      rfl
    · rw [whole]
      rfl

theorem convertLevel_truth (outward : p.direction = .materialize)
    (converts : (p.convertLevel BoundObject.builder n v s).error = none) :
    (p.convertLevel BoundObject.builder n v s).value.isTruthy = v.isTruthy ↔
      ¬ TurnsTruth ⟨p.type.base, n⟩ v := by
  cases n with
  | zero =>
    by_cases null : v = .null
    · subst null
      exact iff_of_true rfl TurnsTruth.not_null
    · rw [convertLevel_zero null] at converts ⊢
      exact convertBase_truth outward converts
  | succ n =>
    refine iff_of_true ?_ (mt TurnsTruth.depth_eq n.succ_ne_zero)
    cases v with
    | null => rfl
    | array items => exact convertLevel_array_truth items
    | map entries =>
      cases keys : Value.firstOffKey 0 entries with
      | none =>
        rw [convertLevel_listed keys, convertLevel_array_truth]
        cases entries <;> rfl
      | some off =>
        simp only [convertLevel, keys] at converts
        cases converts
    | _ => cases converts

end Passage

namespace BoundObject

theorem isTruthy_stored (stored : o.slot? field = some v) : o.isTruthy field = v.isTruthy := by
  simp only [isTruthy, stored]

theorem get_found (stored : o.slot? field = some v) (found : (o.get field s).result = .ok w) :
    ((o.outlet field).convert builder v s).error = none ∧
      ((o.outlet field).convert builder v s).value = w ∧
      (o.get field s).object = o.put field w := by
  have read : o.get field s = o.materializeSlot builder field (o.outlet field).type v s :=
    readWith_stored stored s
  rw [read] at found ⊢
  rcases o.materializeSlot_cases field v s with ⟨e, -, failed⟩ | ⟨converts, succeeded⟩
  · rw [failed] at found
    cases found
  · rw [succeeded] at found ⊢
    cases found
    exact ⟨converts, rfl, rfl⟩

theorem accessorField?_put (stored : o.slot? field = some v) (w : Value) (suffix : String) :
    (o.put field w).accessorField? suffix = o.accessorField? suffix := by
  have keys : Dict.keys (o.put field w).data = Dict.keys o.data := by
    rw [put, Dict.keys_put, if_pos (mem_keys_of_slot? stored)]
  have known : ∀ name, (o.put field w).has name = o.has name := by
    intro name
    rw [Bool.eq_iff_iff, has_iff_mem, has_iff_mem, keys]
    rfl
  simp only [accessorField?, known, keys]
  rfl

theorem call_is {name suffix : String} (means : Accessor.parse? name = some (.is, suffix))
    (resolved : o.accessorField? suffix = some field) (s : Session) :
    (o.call name [] s).result = .ok (.bool (o.isTruthy field)) := by
  rw [call_resolved means resolved]
  rfl

/-- A read of a field with data that succeeds keeps the truth of the field, also as the `is` accessor
tells it, unless the stored value is one of those that turn. -/
theorem truth_after_get (o : BoundObject) (field : String) (type : FieldType) (v w : Value)
    (s : Session) (declared : Dict.get? o.table field = some type)
    (stored : o.slot? field = some v) (found : (o.get field s).result = .ok w) :
    let read := o.get field s
    (read.object.isTruthy field = o.isTruthy field ↔ ¬ TurnsTruth type v) ∧
    ∀ name suffix, Accessor.parse? name = some (.is, suffix) →
      o.accessorField? suffix = some field →
      ((read.object.call name [] read.session).result = (o.call name [] s).result ↔
        ¬ TurnsTruth type v) := by
  intro read
  obtain ⟨converts, rfl, object⟩ := get_found stored found
  have kept : read.object.isTruthy field = o.isTruthy field ↔ ¬ TurnsTruth type v := by
    rw [object, isTruthy_stored (slot?_put o field _), isTruthy_stored stored]
    rw [outlet_eq declared] at converts ⊢
    exact Passage.convertLevel_truth rfl converts
  refine ⟨kept, ?_⟩
  intro name suffix means resolved
  have resolved' : read.object.accessorField? suffix = some field := by
    rw [object, accessorField?_put stored, resolved]
  rw [call_is means resolved, call_is means resolved', ← kept]
  simp

end BoundObject

namespace GaugeExample

def session : Session := ⟨[]⟩

/-- A gauge that holds one value, and declares another type for it than it has. -/
def gauge (type : FieldType) (v : Value) : BoundObject where
  schema := 0
  cls := ⟨"Gauge"⟩
  table := [("level", type)]
  data := [("level", v)]

end GaugeExample

open GaugeExample in
theorem gauge_truth_after_get :
    let listed := gauge ⟨.primitive .int, 1⟩ (.map [("0", .str "12 m")])
    let read := listed.get "level" session
    let spelled := gauge ⟨.primitive .float, 0⟩ (.str "low")
    let read' := spelled.get "level" session
    read.result = .ok (.array [.int 12]) ∧ read.object.isTruthy "level" = listed.isTruthy "level" ∧
      (read.object.call "isLevel" [] read.session).result =
        (listed.call "isLevel" [] session).result ∧
      read'.result = .ok (.float 0) ∧
      read'.object.isTruthy "level" ≠ spelled.isTruthy "level" := by
  intro listed read spelled read'
  have found : read.result = .ok (.array [.int 12]) := by rfl
  have found' : read'.result = .ok (.float 0) := by rfl
  have same : ¬ TurnsTruth ⟨.primitive .int, 1⟩ (.map [("0", .str "12 m")]) :=
    mt TurnsTruth.depth_eq (by decide)
  have turns : TurnsTruth ⟨.primitive .float, 0⟩ (.str "low") :=
    .textToFloat (by decide) (by decide) (by decide)
  obtain ⟨keeps, tells⟩ := BoundObject.truth_after_get listed "level" _ _ _ session (by rfl)
    (by rfl) found
  obtain ⟨keeps', -⟩ := BoundObject.truth_after_get spelled "level" _ _ _ session (by rfl)
    (by rfl) found'
  refine ⟨found, keeps.2 same, (tells "isLevel" "Level" (by decide) (by decide)).2 same, found', ?_⟩
  exact fun kept => keeps'.1 kept turns

open GaugeExample in
theorem gauge_truth_turns :
    ¬ ∀ (o : BoundObject) (field : String) (type : FieldType) (v w : Value) (s : Session),
      Dict.get? o.table field = some type → o.slot? field = some v →
      (o.get field s).result = .ok w →
      (o.get field s).object.isTruthy field = o.isTruthy field := by
  intro claim
  have kept := claim (gauge ⟨.primitive .int, 0⟩ (.str "low")) "level" ⟨.primitive .int, 0⟩
    (.str "low") (.int 0) session (by decide) (by rfl) (by rfl)
  revert kept
  decide

end LazyBinding
