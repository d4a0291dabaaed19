import LazyBinding.Proofs.CompleteExport
import LazyBinding.Proofs.DocumentText
import LazyBinding.Proofs.PlainDocument

/-!
# Texts of objects read back

An export keeps to the limits of a text, but for doubles that are not finite and for deep nesting.
So what is decoded from the text of an object, in either layout, is its export, when the reader of
numbers reads the doubles of the export back.
-/
namespace LazyBinding

variable {v w : Value} {depth : Nat} {x : Float}

/-! ### Values that a text keeps -/

mutual

/-- How many containers are inside each other. -/
def Value.nesting : Value → Nat
  | .array items => nestingItems items + 1
  | .map entries => nestingEntries entries + 1
  | .object _ _ _ data => nestingEntries data + 1
  | _ => 0

def Value.nestingItems : List Value → Nat
  | [] => 0
  | v :: rest => max v.nesting (nestingItems rest)

def Value.nestingEntries : List (String × Value) → Nat
  | [] => 0
  | (_, v) :: rest => max v.nesting (nestingEntries rest)

end

mutual

/-- All doubles in the value are finite. -/
def Value.isFinite : Value → Bool
  | .float x => x.isFinite
  | .array items => areFinite items
  | .map entries => entriesAreFinite entries
  | .object _ _ _ data => entriesAreFinite data
  | _ => true

def Value.areFinite : List Value → Bool
  | [] => true
  | v :: rest => v.isFinite && areFinite rest

def Value.entriesAreFinite : List (String × Value) → Bool
  | [] => true
  | (_, v) :: rest => v.isFinite && entriesAreFinite rest

end

theorem Value.nestingItems_le {items : List Value} :
    Value.nestingItems items ≤ depth ↔ ∀ v ∈ items, v.nesting ≤ depth := by
  induction items with
  | nil => simp [Value.nestingItems]
  | cons v rest ih => simp [Value.nestingItems, ih]

theorem Value.nestingEntries_le {entries : List (String × Value)} :
    Value.nestingEntries entries ≤ depth ↔ ∀ entry ∈ entries, entry.2.nesting ≤ depth := by
  induction entries with
  | nil => simp [Value.nestingEntries]
  | cons entry rest ih =>
    obtain ⟨key, v⟩ := entry
    simp [Value.nestingEntries, ih]

theorem Value.areFinite_iff {items : List Value} :
    Value.areFinite items = true ↔ ∀ v ∈ items, v.isFinite = true := by
  induction items with
  | nil => simp [Value.areFinite]
  | cons v rest ih => simp [Value.areFinite, ih]

theorem Value.entriesAreFinite_iff {entries : List (String × Value)} :
    Value.entriesAreFinite entries = true ↔ ∀ entry ∈ entries, entry.2.isFinite = true := by
  induction entries with
  | nil => simp [Value.entriesAreFinite]
  | cons entry rest ih =>
    obtain ⟨key, v⟩ := entry
    simp [Value.entriesAreFinite, ih]

/-- The double is in the value. -/
inductive Value.HasDouble (x : Float) : Value → Prop where
  | here : HasDouble x (.float x)
  | item {items : List Value} {v : Value} (mem : v ∈ items) (inside : HasDouble x v) :
    HasDouble x (.array items)
  | entry {entries : List (String × Value)} {entry : String × Value} (mem : entry ∈ entries)
    (inside : HasDouble x entry.2) : HasDouble x (.map entries)

theorem Value.HasDouble.isFinite (h : v.HasDouble x) (finite : v.isFinite = true) :
    x.isFinite = true := by
  induction h with
  | here => exact finite
  | item mem _ ih => exact ih (Value.areFinite_iff.1 finite _ mem)
  | entry mem _ ih => exact ih (Value.entriesAreFinite_iff.1 finite _ mem)

theorem Value.toInt_bounds (n : Int64) :
    Int64.minValue.toInt ≤ n.toInt ∧ n.toInt ≤ Int64.maxValue.toInt := by
  have least := n.le_toInt
  have greatest := n.toInt_lt
  constructor
  · exact least
  · exact Int.le_of_lt_add_one greatest

theorem Value.ofJsonItems_eq_map (items : List Json) :
    Value.ofJsonItems items = items.map Value.ofJson := by
  induction items with
  | nil => rfl
  | cons item rest ih => rw [Value.ofJsonItems, ih, List.map_cons]

theorem Value.ofJsonMembers_eq_map (members : List (String × Json)) :
    Value.ofJsonMembers members = members.map fun member => (member.1, Value.ofJson member.2) := by
  induction members with
  | nil => rfl
  | cons member rest ih => rw [Value.ofJsonMembers, ih, List.map_cons]

section Reader

variable [Json.DoubleReader]

/-- A value of which a text keeps everything. -/
inductive Value.Writable : (depth : Nat) → Value → Prop where
  | null {depth : Nat} : Writable depth .null
  | bool {depth : Nat} (b : Bool) : Writable depth (.bool b)
  | int {depth : Nat} (n : Int64) : Writable depth (.int n)
  | float {depth : Nat} {x : Float} (finite : x.isFinite = true) (back : Json.ReadsBack x) :
    Writable depth (.float x)
  | str {depth : Nat} (s : String) : Writable depth (.str s)
  | array {depth : Nat} {items : List Value} (inner : ∀ v ∈ items, Writable depth v) :
    Writable (depth + 1) (.array items)
  | map {depth : Nat} {entries : List (String × Value)} (distinct : Dict.Distinct entries)
    (inner : ∀ entry ∈ entries, Writable depth entry.2) : Writable (depth + 1) (.map entries)

namespace Value.Writable

theorem of_plain (plain : v.unfit? = none) (keyed : v.isWellKeyed = true)
    (finite : v.isFinite = true) (back : ∀ x, v.HasDouble x → Json.ReadsBack x)
    (nested : v.nesting ≤ depth) : v.Writable depth := by
  induction depth generalizing v with
  | zero =>
    cases v with
    | null => exact .null
    | bool b => exact .bool b
    | int n => exact .int n
    | float x => exact .float finite (back x .here)
    | str s => exact .str s
    | array items => cases nested
    | map entries => cases nested
    | object => cases plain
    | handle => cases plain
  | succ depth ih =>
    cases v with
    | null => exact .null
    | bool b => exact .bool b
    | int n => exact .int n
    | float x => exact .float finite (back x .here)
    | str s => exact .str s
    | array items =>
      have plain := Value.unfitInItems?_eq_none.1 plain
      have keyed := Value.areWellKeyed_iff.1 keyed
      have finite := Value.areFinite_iff.1 finite
      have nested := Value.nestingItems_le.1 (Nat.le_of_succ_le_succ nested)
      exact .array fun v hv => ih (plain v hv) (keyed v hv) (finite v hv)
        (fun x inside => back x (.item hv inside)) (nested v hv)
    | map entries =>
      have plain := Value.unfitInEntries?_eq_none.1 plain
      obtain ⟨distinct, keyed⟩ := Dict.isWellKeyed_iff.1 keyed
      have finite := Value.entriesAreFinite_iff.1 finite
      have nested := Value.nestingEntries_le.1 (Nat.le_of_succ_le_succ nested)
      exact .map distinct fun entry hentry => ih (plain entry hentry) (keyed entry hentry)
        (finite entry hentry) (fun x inside => back x (.entry hentry inside)) (nested entry hentry)
    | object => cases plain
    | handle => cases plain

theorem fits (h : v.Writable depth) : Json.Fits depth v.document := by
  induction h with
  | null => exact .null
  | bool b => exact .bool b
  | int n =>
    obtain ⟨least, greatest⟩ := toInt_bounds n
    have hmax : Int64.maxValue.toInt < UInt64.size := by decide
    exact .int least (by omega)
  | float finite back =>
    rw [Value.document, if_pos finite]
    exact .float finite back
  | str s => exact .str s
  | array _ ih =>
    rw [Value.document, Value.documents_eq_map]
    exact .arr (List.forall_mem_map.2 ih)
  | @map depth entries distinct _ ih =>
    rw [Value.document, Value.members_eq_map]
    refine .obj ?_ (List.forall_mem_map.2 ih)
    rw [Dict.Distinct, Dict.keys, List.map_map]
    exact distinct

theorem ofJson_document (h : v.Writable depth) : Value.ofJson v.document = v := by
  induction h with
  | null => rfl
  | bool b => rfl
  | int n => rw [Value.document, Value.ofJson, if_pos (toInt_bounds n), Int64.ofInt_toInt]
  | float finite _ => rw [Value.document, if_pos finite, Value.ofJson]
  | str s => rfl
  | @array depth items _ ih =>
    have back : (items.map Value.document).map Value.ofJson = items := by
      rw [List.map_map]
      exact (List.map_congr_left ih).trans (List.map_id items)
    rw [Value.document, Value.documents_eq_map, Value.ofJson, ofJsonItems_eq_map, back]
  | @map depth entries _ _ ih =>
    have back : (entries.map fun entry => (entry.1, entry.2.document)).map
        (fun member => (member.1, Value.ofJson member.2)) = entries := by
      rw [List.map_map]
      refine (List.map_congr_left fun entry hentry => ?_).trans (List.map_id entries)
      exact Prod.ext rfl (ih entry hentry)
    rw [Value.document, Value.members_eq_map, Value.ofJson, ofJsonMembers_eq_map, back]

/-- The value is what either text of its document is decoded to. -/
theorem decode_encode (h : v.Writable Json.maxDepth) (indented : Bool) :
    Value.decode (.ofText (v.document.encode indented)) = .ok v := by
  rw [Value.decode, h.fits.decodeFirst_encode indented]
  exact congrArg Except.ok h.ofJson_document

end Value.Writable

/-! ### Texts of objects -/

/-- Of an export with at most 127 nested containers and with finite doubles that the reader of
numbers reads back, either text of the object is decoded to the export: the keys in the same order,
integers as integers, and the same doubles. -/
theorem BoundObject.text_decodes (registries : List (Registry × Bool))
    (operations : List Session.Operation) (o : BoundObject) (keyed : o.IsWellKeyed) :
    let s := (Session.fresh registries).run operations
    ∀ v, (o.exported s).2 = .ok v → v.isFinite = true → v.nesting ≤ 127 →
      (∀ x, v.HasDouble x → Json.ReadsBack x) →
      ∀ indented, ∃ text, (o.toJsonText indented s).2 = .ok text ∧
        Value.decode (.ofText text) = .ok v := by
  intro s v exported finite nested back indented
  have hs : s.Keeps s := ((Session.keeps_fresh registries).run operations).self
  have h : o.ExportsTo s levelLimit v := exported
  have plain := h.fit hs keyed
  have writable : v.Writable Json.maxDepth :=
    .of_plain plain (h.wellKeyed hs keyed) finite back nested
  refine ⟨v.document.encode indented, ?_, writable.decode_encode indented⟩
  have hexport : o.exported s = ((o.exported s).1, .ok v) := Prod.ext rfl exported
  have document : v.plainToJson (o.exported s).1 = ((o.exported s).1, .ok v.document) :=
    Value.toJsonWith_document plain (o.exported s).1
  rw [toJsonText, toJson, hexport]
  simp only [document]

end Reader

namespace LinkExample

/-- An object with a size that is still to be cast, and with fields that its class does not
declare. -/
def measured : BoundObject :=
  ⟨0, ⟨"Link"⟩, table,
    [("size", .str "3"), ("ratio", .float (.ofBits 0x3FB999999999999A)),
      ("note", .map [("\"é\n", .array [.null])])]⟩

end LinkExample

local instance measuredDoubles : Json.DoubleReader := Json.nearestDoubles

open LinkExample in
theorem measured_link_text_decodes :
    let v := Value.map [("size", .int 3), ("ratio", .float (.ofBits 0x3FB999999999999A)),
      ("note", .map [("\"é\n", .array [.null])])]
    measured.IsWellKeyed ∧ (measured.exported session).2 = .ok v ∧ v.isFinite = true ∧
      v.nesting ≤ 127 ∧ (∀ x, v.HasDouble x → Json.ReadsBack x) ∧
      ∀ indented, ∃ text, (measured.toJsonText indented session).2 = .ok text ∧
        Value.decode (.ofText text) = .ok v := by
  intro v
  have keyed : measured.IsWellKeyed := by rfl
  have exported : (measured.exported session).2 = .ok v := by rfl
  have finite : v.isFinite = true := by decide +kernel
  have nested : v.nesting ≤ 127 := by decide
  have back : ∀ x, v.HasDouble x → Json.ReadsBack x :=
    fun x inside => Json.readsBack_nearest (inside.isFinite finite)
  exact ⟨keyed, exported, finite, nested, back,
    BoundObject.text_decodes [(registry, false)] [] measured keyed v exported finite nested back⟩

end LazyBinding
