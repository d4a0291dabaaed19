import LazyBinding.Proofs.ClassGraph

/-!
# Flattening

The field table that a class ought to have, said without caches, locks or an order of work: the
declarations of the class, replayed on the table of its parent. A class has at most one such table.
-/
namespace LazyBinding.Registry

variable {r : Registry} {c : ClassPath}

/-- The table of the class `c` after its declarations `ds`. It starts from the table of the parent;
a field sets the type of its name, and an import sets every entry of the imported table. -/
inductive Replays (r : Registry) : ClassPath → List Declaration → FieldTable → Prop where
  | root : Replays r .root [] []
  | start {c p d table} : r.HasParent c p → r.get? p = some d →
      Replays r p d.declarations table → Replays r c [] table
  | field {c ds name definition type table} : Replays r c ds table →
      FieldType.parse r c definition = .ok type →
      Replays r c (ds ++ [.field name definition]) (Dict.put table name type)
  | imports {c ds reference t d table imported} : Replays r c ds table →
      r.resolve reference c = some t → r.get? t = some d → Replays r t d.declarations imported →
      Replays r c (ds ++ [.imports reference]) (Dict.putAll table imported)

/-- The table is that of the class after all its declarations. -/
def Flattens (r : Registry) (c : ClassPath) (table : FieldTable) : Prop :=
  ∃ d, r.get? c = some d ∧ r.Replays c d.declarations table

theorem Replays.of_nil {table : FieldTable} (h : r.Replays c [] table) :
    c = .root ∧ table = [] ∨
      ∃ p d, r.HasParent c p ∧ r.get? p = some d ∧ r.Replays p d.declarations table := by
  generalize hds : ([] : List Declaration) = ds at h
  cases h with
  | root => exact Or.inl ⟨rfl, rfl⟩
  | start hp hd replays => exact Or.inr ⟨_, _, hp, hd, replays⟩
  | field | imports => simp at hds

theorem Replays.of_field {ds : List Declaration} {name definition : String} {table : FieldTable}
    (h : r.Replays c (ds ++ [.field name definition]) table) :
    ∃ before type, r.Replays c ds before ∧ FieldType.parse r c definition = .ok type ∧
      table = Dict.put before name type := by
  generalize hds : ds ++ [Declaration.field name definition] = all at h
  cases h with
  | root | start => simp at hds
  | field replays parsed =>
    obtain ⟨rfl, hx⟩ := List.append_inj' hds rfl
    cases hx
    exact ⟨_, _, replays, parsed, rfl⟩
  | imports => exact absurd (List.append_inj' hds rfl).2 (by simp)

theorem Replays.of_imports {ds : List Declaration} {reference : String} {table : FieldTable}
    (h : r.Replays c (ds ++ [.imports reference]) table) :
    ∃ before t d imported, r.Replays c ds before ∧ r.resolve reference c = some t ∧
      r.get? t = some d ∧ r.Replays t d.declarations imported ∧
      table = Dict.putAll before imported := by
  generalize hds : ds ++ [Declaration.imports reference] = all at h
  cases h with
  | root | start => simp at hds
  | field => exact absurd (List.append_inj' hds rfl).2 (by simp)
  | imports replays resolved hd imported =>
    obtain ⟨rfl, hx⟩ := List.append_inj' hds rfl
    cases hx
    exact ⟨_, _, _, _, replays, resolved, hd, imported, rfl⟩

theorem Replays.unique {ds : List Declaration} {table table' : FieldTable}
    (h : r.Replays c ds table) (h' : r.Replays c ds table') : table = table' := by
  induction h generalizing table' with
  | root =>
    rcases h'.of_nil with ⟨-, rfl⟩ | ⟨p, d, hp, -⟩
    · rfl
    · exact absurd rfl hp.ne_root
  | start hp hd _ ih =>
    rcases h'.of_nil with ⟨rfl, -⟩ | ⟨p', d', hp', hd', replays'⟩
    · exact absurd rfl hp.ne_root
    · cases hp.unique hp'
      cases hd.symm.trans hd'
      exact ih replays'
  | field _ parsed ih =>
    obtain ⟨before, type, replays', parsed', rfl⟩ := h'.of_field
    cases parsed.symm.trans parsed'
    rw [ih replays']
  | imports _ resolved hd _ ih ih' =>
    obtain ⟨before, t, d, imported, replays', resolved', hd', imported', rfl⟩ := h'.of_imports
    cases resolved.symm.trans resolved'
    cases hd.symm.trans hd'
    rw [ih replays', ih' imported']

theorem Flattens.unique {table table' : FieldTable} (h : r.Flattens c table)
    (h' : r.Flattens c table') : table = table' := by
  obtain ⟨d, hd, h⟩ := h
  obtain ⟨d', hd', h'⟩ := h'
  cases hd.symm.trans hd'
  exact h.unique h'

/-- Whatever class a field of a table refers to, inherited or imported as it may be, can be reached
from the class of the table. -/
theorem Replays.refersTo {ds : List Declaration} {table : FieldTable} (h : r.Replays c ds table)
    {d : ClassDecl} (hd : r.get? c = some d) (hds : ∀ x ∈ ds, x ∈ d.declarations)
    {entry : String × FieldType} (hentry : entry ∈ table) {t : ClassPath}
    (ht : entry.2.class? = some t) : Relation.TransGen r.RefersTo c t := by
  induction h generalizing d with
  | root => cases hentry
  | start hp hd' _ ih => exact .head (Or.inl (Or.inl hp)) (ih hd' (fun _ => id) hentry)
  | @field c ds name definition type table _ parsed ih =>
    rcases Dict.mem_put hentry with rfl | known
    · exact .single (Or.inr ⟨d, name, definition, type, hd, hds _ (by simp), parsed, ht⟩)
    · exact ih hd (fun x hx => hds x (by simp [hx])) known
  | @imports c ds reference u d' table imported _ resolved hd' _ ih ih' =>
    rcases Dict.mem_putAll hentry with known | new
    · exact ih hd (fun x hx => hds x (by simp [hx])) known
    · have himport : r.DependsOn c u := Or.inr ⟨d, reference, hd, hds _ (by simp), resolved⟩
      exact .head (Or.inl himport) (ih' hd' (fun _ => id) new)

theorem Flattens.refersTo {table : FieldTable} (h : r.Flattens c table)
    {entry : String × FieldType} (hentry : entry ∈ table) {t : ClassPath}
    (ht : entry.2.class? = some t) : Relation.TransGen r.RefersTo c t := by
  obtain ⟨d, hd, replays⟩ := h
  exact replays.refersTo hd (fun _ => id) hentry ht

theorem Replays.named {ds : List Declaration} {table : FieldTable} (h : r.Replays c ds table)
    {d : ClassDecl} (hd : r.get? c = some d) (hds : ∀ x ∈ ds, x ∈ d.declarations)
    (sound : ∀ t, Relation.ReflTransGen r.DependsOn c t → r.Sound t) : "" ∉ Dict.keys table := by
  induction h generalizing d with
  | root => exact List.not_mem_nil
  | start hp hd' _ ih =>
    exact ih hd' (fun _ => id) fun t ht => sound t (.head (Or.inl hp) ht)
  | @field c ds name definition type table _ _ ih =>
    intro unnamed
    rcases Dict.mem_keys_put.1 unnamed with same | known
    · obtain ⟨named, -⟩ : r.Admissible c (.field name definition) :=
        (sound c .refl).admissible d hd _ (hds _ (by simp))
      exact named same.symm
    · exact ih hd (fun x hx => hds x (by simp [hx])) sound known
  | imports _ resolved hd' _ ih ih' =>
    intro unnamed
    rw [Dict.keys_putAll, OrderedSet.mem_addAll] at unnamed
    rcases unnamed with known | new
    · exact ih hd (fun x hx => hds x (by simp [hx])) sound known
    · refine ih' hd' (fun _ => id) (fun t ht => sound t (.head ?_ ht)) new
      exact Or.inr ⟨d, _, hd, hds _ (by simp), resolved⟩

end LazyBinding.Registry
