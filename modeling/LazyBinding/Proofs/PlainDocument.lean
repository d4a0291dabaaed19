import LazyBinding.Proofs.PlainExport

/-!
# Documents of plain values

The document of a value without objects and handles, said without a session. Whatever is to be done
with objects, encoding such a value gives this document.
-/
namespace LazyBinding

mutual

/-- The document of a value, with null for what has none. -/
def Value.document : Value → Json
  | .null => .null
  | .bool b => .bool b
  | .int n => .int n.toInt
  | .float x => if x.isFinite then .float x else .null
  | .str text => .str text
  | .array items => .arr (documents items)
  | .map entries => .obj (members entries)
  | .object .. => .null
  | .handle _ => .null

def Value.documents : List Value → List Json
  | [] => []
  | v :: rest => v.document :: documents rest

def Value.members : List (String × Value) → List (String × Json)
  | [] => []
  | (key, v) :: rest => (key, v.document) :: members rest

end

theorem Value.documents_eq_map (items : List Value) :
    Value.documents items = items.map Value.document := by
  induction items with
  | nil => rfl
  | cons v rest ih => rw [documents, ih, List.map_cons]

theorem Value.members_eq_map (entries : List (String × Value)) :
    Value.members entries = entries.map fun entry => (entry.1, entry.2.document) := by
  induction entries with
  | nil => rfl
  | cons entry rest ih => rw [members, ih, List.map_cons]

section

variable {object : BoundObject → Session → Session × Except ObjectError Json}

mutual

theorem Value.toJsonWith_document : ∀ {v : Value}, v.unfit? = none →
    ∀ s, v.toJsonWith object s = (s, .ok v.document)
  | .null, _, _ | .bool _, _, _ | .int _, _, _ | .float _, _, _ | .str _, _, _ => by
    simp only [Value.toJsonWith, Value.document]
  | .array items, h, s => by
    have h : Value.unfitInItems? items = none := h
    simp only [Value.toJsonWith, Value.document, Value.itemsToJson_documents h s]
  | .map entries, h, s => by
    have h : Value.unfitInEntries? entries = none := h
    simp only [Value.toJsonWith, Value.document, Value.entriesToJson_members h s]

theorem Value.itemsToJson_documents : ∀ {items : List Value}, Value.unfitInItems? items = none →
    ∀ s, Value.itemsToJson object items s = (s, .ok (Value.documents items))
  | [], _, _ => by simp only [Value.itemsToJson, Value.documents]
  | v :: rest, h, s => by
    obtain ⟨hv, hrest⟩ := Option.or_eq_none_iff.1 h
    simp only [Value.itemsToJson, Value.documents, Value.toJsonWith_document hv s,
      Value.itemsToJson_documents hrest s]

theorem Value.entriesToJson_members : ∀ {entries : List (String × Value)},
    Value.unfitInEntries? entries = none →
    ∀ s, Value.entriesToJson object entries s = (s, .ok (Value.members entries))
  | [], _, _ => by simp only [Value.entriesToJson, Value.members]
  | (key, v) :: rest, h, s => by
    obtain ⟨hv, hrest⟩ := Option.or_eq_none_iff.1 h
    simp only [Value.entriesToJson, Value.members, Value.toJsonWith_document hv s,
      Value.entriesToJson_members hrest s]

end

end

end LazyBinding
