import LazyBinding.Proofs.FieldClasses
import LazyBinding.Proofs.FieldLocations
import LazyBinding.Proofs.ReportOrder

/-!
# Problems that a report tells apart

A report files what it finds by class and path. Since no name is escaped in a path, two fields may
share an entry, but only where a name reads like a way through another field; apart from that a
report has one entry for each problem and keeps its message.
-/
namespace LazyBinding

theorem encard_eq_of_oneToOne {α β : Type} {R : α → β → Prop} {S : Set α} {T : Set β}
    (left : ∀ a, a ∈ S ↔ ∃ b, R a b) (right : ∀ b, b ∈ T ↔ ∃ a, R a b)
    (functional : ∀ a b b', R a b → R a b' → b = b')
    (injective : ∀ a a' b, R a b → R a' b → a = a') : S.encard = T.encard := by
  let pairs : Set (α × β) := {pair | R pair.1 pair.2}
  have first : S = Prod.fst '' pairs := by
    ext a
    simp [left, pairs]
  have second : T = Prod.snd '' pairs := by
    ext b
    simp [right, pairs]
  have fst : Set.InjOn Prod.fst pairs := by
    rintro ⟨a, b⟩ h ⟨_, b'⟩ h' rfl
    exact Prod.ext rfl (functional a b b' h h')
  have snd : Set.InjOn Prod.snd pairs := by
    rintro ⟨a, b⟩ h ⟨a', _⟩ h' rfl
    exact Prod.ext (injective a a' b h h') rfl
  rw [first, second, fst.encard_image, snd.encard_image]

theorem encard_setOf_mem {α : Type} [DecidableEq α] {items : List α} (h : items.Nodup) :
    {a | a ∈ items}.encard = items.length := by
  have same : {a | a ∈ items} = (items.toFinset : Set α) := by
    ext a
    simp
  rw [same, Set.encard_coe_eq_coe_finsetCard, List.toFinset_card_of_nodup h]

namespace BoundObject

variable {registries : List (Registry × Bool)} {start s : Session} {o x : BoundObject}
variable {path field : String} {p q : Problem} {l l' : FieldLocation}

theorem FieldProblem.entry_path (h : o.FieldProblem start path field p) :
    p.entry.2 = Report.joinPath path field := by
  cases h <;> rfl

theorem FieldProblem.hasData (h : o.FieldProblem start path field p) : o.hasData field = true := by
  cases h with
  | undeclared stored => exact Dict.has_iff.2 (mem_keys_of_slot? stored)
  | unconvertible stored => exact Dict.has_iff.2 (mem_keys_of_slot? stored)

theorem FieldProblem.unique (h : o.FieldProblem start path field p)
    (h' : o.FieldProblem start path field q) (kind : p.kind = q.kind) : p = q := by
  cases h with
  | undeclared =>
    cases h' with
    | undeclared => rfl
    | unconvertible => cases kind
  | unconvertible stored fails =>
    cases h' with
    | undeclared => cases kind
    | unconvertible stored' fails' =>
      cases stored.symm.trans stored'
      cases fails.symm.trans fails'
      rfl

theorem IsBuilt.named (built : o.IsBuilt registries) : "" ∉ Dict.keys o.table := by
  have hstart := Session.keeps_fresh registries
  have compiled := built.isBound.table hstart
  obtain ⟨d, hd, replays⟩ := hstart.flattens compiled
  refine replays.named hd (fun _ => id) fun t ht => ?_
  exact (hstart.settled o.schema).sound_of_compile (hstart.compiled compiled)
    (Registry.RefersTo.of_dependsOn ht)

theorem StandsAt.mem_keys {step : FieldStep} (h : o.StandsAt start step x) :
    step.field ∈ Dict.keys o.table := by
  obtain ⟨v, -, typed, -⟩ := h
  by_contra absent
  have untyped : (o.outlet step.field).type = .untyped := by
    simp only [outlet, FieldTable.outlet, FieldTable.typeOf, (Dict.get?_eq_none_iff _ _).2 absent,
      Option.getD_none]
  rw [untyped] at typed
  cases typed

theorem Leads.named (built : o.IsBuilt registries) {route : List FieldStep}
    (leads : Leads start route o x) : ∀ step ∈ route.head?, step.field ≠ "" := by
  intro step hstep unnamed
  cases leads with
  | here => cases hstep
  | step stands =>
    cases hstep
    exact built.named (unnamed ▸ stands.mem_keys)

theorem ProblemAt.toList_path (built : o.IsBuilt registries) (h : o.ProblemAt start l p) :
    p.entry.2.toList = locationText l.route l.field := by
  obtain ⟨x, leads, wrong⟩ := h
  rw [wrong.entry_path]
  exact LazyBinding.toList_path (leads.named built) l.field

theorem ProblemAt.unique (h : o.ProblemAt start l p) (h' : o.ProblemAt start l q)
    (kind : p.kind = q.kind) : p = q := by
  obtain ⟨x, leads, wrong⟩ := h
  obtain ⟨y, leads', wrong'⟩ := h'
  cases leads.unique leads'
  exact wrong.unique wrong' kind

/-- Two fields with a problem that share an entry are one, or else the ways to them part
ambiguously. -/
theorem ProblemAt.apart (built : o.IsBuilt registries) (h : o.ProblemAt start l p)
    (h' : o.ProblemAt start l' q) (same : p.entry = q.entry) :
    l = l' ∨ o.PartsAmbiguously start l l' := by
  have text : locationText l.route l.field = locationText l'.route l'.field := by
    rw [← h.toList_path built, ← h'.toList_path built, same]
  obtain ⟨x, leads, wrong⟩ := h
  obtain ⟨y, leads', wrong'⟩ := h'
  refine (leads.apart leads' wrong.hasData wrong'.hasData text).imp_left ?_
  rintro ⟨route, field⟩
  exact FieldLocation.ext route field

/-- No object in the tree is ambiguous. -/
def IsUnambiguous (start : Session) (o : BoundObject) : Prop :=
  ∀ route z, Leads start route o z → ¬ z.IsAmbiguous start

theorem IsUnambiguous.eq (plain : o.IsUnambiguous start) (built : o.IsBuilt registries)
    (h : o.ProblemAt start l p) (h' : o.ProblemAt start l' q) (same : p.entry = q.entry) :
    l = l' := by
  rcases h.apart built h' same with rfl | ⟨shared, z, m, m', -, -, -, leads, mistakes⟩
  · rfl
  · have ambiguous : z.IsAmbiguous start := by
      rcases mistakes with mistakes | mistakes
      · exact mistakes.isAmbiguous
      · exact mistakes.isAmbiguous
    exact absurd ambiguous (plain shared z leads)

/-- Where no object is ambiguous, no message takes the place of another one. -/
theorem IsUnambiguous.lists_iff (plain : o.IsUnambiguous s) (built : o.IsBuilt registries)
    {report : Report} (adds : Report.empty.Adds report (o.HasProblem s)) :
    report.Lists p ↔ ∃ l, o.ProblemAt s l p := by
  have sound : ∀ q, report.Lists q → ∃ l, o.ProblemAt s l q := by
    intro q listed
    exact hasProblem_iff.1 ((adds.sound q listed).resolve_left (Report.not_lists_empty q))
  refine ⟨sound p, ?_⟩
  rintro ⟨l, h⟩
  obtain ⟨q, same, listed⟩ := adds.complete p (Or.inr (hasProblem_iff.2 ⟨l, h⟩))
  obtain ⟨l', h'⟩ := sound q listed
  obtain ⟨kind, entry⟩ := Problem.samePlace_iff.1 same
  cases plain.eq built h' h entry
  rwa [← h'.unique h kind]

theorem IsUnambiguous.encard_eq (plain : o.IsUnambiguous s) (built : o.IsBuilt registries)
    {report : Report}
    (adds : Report.empty.Adds report (o.HasProblem s)) (ordered : report.IsOrdered)
    (kind : ProblemKind) :
    {l | ∃ p : Problem, p.kind = kind ∧ o.ProblemAt s l p}.encard =
      (report.entries kind).length := by
  rw [← encard_setOf_mem (ordered.entries_nodup kind)]
  refine encard_eq_of_oneToOne
    (R := fun l e => ∃ p : Problem, p.kind = kind ∧ p.entry = e ∧ o.ProblemAt s l p) ?_ ?_ ?_ ?_
  · intro l
    constructor
    · rintro ⟨p, hp, h⟩
      exact ⟨p.entry, p, hp, rfl, h⟩
    · rintro ⟨_, p, hp, -, h⟩
      exact ⟨p, hp, h⟩
  · intro e
    refine Report.mem_entries.trans ?_
    simp only [plain.lists_iff built adds]
    constructor
    · rintro ⟨p, hp, he, l, h⟩
      exact ⟨l, p, hp, he, h⟩
    · rintro ⟨l, p, hp, he, h⟩
      exact ⟨p, hp, he, l, h⟩
  · rintro l _ _ ⟨p, hp, rfl, h⟩ ⟨q, hq, rfl, h'⟩
    rw [h.unique h' (hp.trans hq.symm)]
  · rintro l l' _ ⟨p, -, rfl, h⟩ ⟨q, -, same, h'⟩
    exact plain.eq built h h' same.symm

/-- In the report of an object that has been made, two fields with a problem share an entry only if,
where the ways to them part, one goes through a field with an object in it and the other through a
field whose name reads like the first way. If no object in the tree is ambiguous then every problem
is listed with its own message, and of each kind there are as many entries as problems. -/
theorem IsBuilt.problems_apart (built : o.IsBuilt registries)
    (occurs : Session.Occurs registries s) {report : Report}
    (analysed : (o.analyze true s).result = .ok report) :
    (∀ l l' p q, o.ProblemAt s l p → o.ProblemAt s l' q → p.entry = q.entry →
      l = l' ∨ ∃ shared z m m', l = m.below shared ∧ l' = m'.below shared ∧
        m.first ≠ m'.first ∧ Leads s shared o z ∧ (z.Mistakes s m m' ∨ z.Mistakes s m' m)) ∧
    (o.IsUnambiguous s →
      (∀ l p, o.ProblemAt s l p → report.Lists p) ∧
      ∀ kind, {l | ∃ p : Problem, p.kind = kind ∧ o.ProblemAt s l p}.encard =
        (report.entries kind).length) := by
  refine ⟨fun l l' p q h h' same => h.apart built h' same, ?_⟩
  intro plain
  have explores := o.analyze_explores occurs.keeps.self
  rw [analysed] at explores
  obtain ⟨-, adds⟩ := explores
  constructor
  · intro l p h
    exact (plain.lists_iff built adds).2 ⟨l, h⟩
  · exact plain.encard_eq built adds (analyze_isOrdered analysed)

end BoundObject

namespace FolderExample

open BoundObject

def registry : Registry where
  declared := [⟨⟨"Folder"⟩, none,
    [.field "name" "string", .field "size" "int", .field "parts" "Folder[]"], none⟩]
  wellFormed := by decide
  distinct := by decide

def registries : List (Registry × Bool) := [(registry, false)]

def session : Session := Session.fresh registries

theorem occurs : Session.Occurs registries session := ⟨[], .refl⟩

def table : FieldTable :=
  [("name", ⟨.primitive .string, 0⟩), ("size", ⟨.primitive .int, 0⟩),
    ("parts", ⟨.object ⟨"Folder"⟩, 1⟩)]

def folder (data : Dict String Value) : BoundObject := ⟨0, ⟨"Folder"⟩, table, data⟩

theorem compiled : (session.table 0 ⟨"Folder"⟩).2 = .ok table := by cbv

theorem built (data : Dict String Value) : (folder data).IsBuilt registries := by
  have hookless : (session.registry 0).hook? ⟨"Folder"⟩ = none := by rfl
  have made : (builder 0 ⟨"Folder"⟩ data session).2 = .ok (folder data) :=
    (builder_hookless occurs.keeps occurs.keeps hookless).2 ⟨table, compiled, rfl⟩
  exact .made occurs made

theorem part_of_standsAt {data : Dict String Value} {step : FieldStep} {x : BoundObject}
    (h : (folder data).StandsAt session step x) : step.field = "parts" := by
  obtain ⟨field, indices⟩ := step
  have declared := h.mem_keys
  obtain ⟨v, -, typed, -⟩ := h
  simp only [folder, table, Dict.keys, List.map_cons, List.map_nil, List.mem_cons,
    List.not_mem_nil, or_false] at declared
  rcases declared with rfl | rfl | rfl
  · cases typed
  · cases typed
  · rfl

def part : BoundObject := folder [("colour", .null), ("size", .map [])]

/-- An object and a part of it, each with an undeclared field and a bad one. -/
def whole : BoundObject :=
  folder [("colour", .null), ("size", .array []), ("parts", .array [.null, .ofObject part])]

theorem part_alone {step : FieldStep} {x : BoundObject} : ¬ part.StandsAt session step x := by
  intro h
  have field := part_of_standsAt h
  obtain ⟨v, stored, -⟩ := h
  rw [field] at stored
  cases stored

theorem part_of_whole {step : FieldStep} {x : BoundObject} (h : whole.StandsAt session step x) :
    step = ⟨"parts", [1]⟩ ∧ x = part := by
  obtain ⟨name, indices⟩ := step
  obtain rfl : name = "parts" := part_of_standsAt h
  obtain ⟨v, stored, -, -, length, found⟩ := h
  cases stored
  obtain ⟨i, rfl⟩ := List.length_eq_one_iff.1 length
  have item : [Value.null, .ofObject part][i]?.bind (Value.nestedObject? []) = some x := found
  rcases i with _ | _ | i
  · cases item
  · cases item
    exact ⟨rfl, rfl⟩
  · cases item

theorem whole_unambiguous : whole.IsUnambiguous session := by
  intro route z leads
  rintro ⟨step, x, other, stands, stored, front⟩
  have inside : other ∈ Dict.keys z.data := Dict.has_iff.1 stored
  cases leads with
  | here =>
    obtain ⟨rfl, rfl⟩ := part_of_whole stands
    clear stored
    revert other
    decide
  | step stands' further =>
    obtain ⟨-, rfl⟩ := part_of_whole stands'
    cases further with
    | here => exact part_alone stands
    | step stands'' => exact part_alone stands''

def report : Report where
  missing := [(⟨"Folder"⟩, ["colour", "parts[1].colour"])]
  bad := [(⟨"Folder"⟩, [
    ("parts[1].size", "field \"size\": expected int, found map"),
    ("size", "field \"size\": expected int, found array")])]

theorem whole_analysed : (whole.analyze true session).result = .ok report := by rfl

/-- A field whose name is the path of another one. -/
def twin : BoundObject :=
  folder [("parts", .array [.ofObject part]), ("parts[0].colour", .null)]

end FolderExample

open FolderExample BoundObject in
theorem whole_problems_apart :
    whole.IsBuilt registries ∧ whole.IsUnambiguous session ∧
      (whole.analyze true session).result = .ok report ∧
      {l | ∃ p : Problem, p.kind = .undeclared ∧ whole.ProblemAt session l p}.encard = 2 ∧
      {l | ∃ p : Problem, p.kind = .unconvertible ∧ whole.ProblemAt session l p}.encard = 2 := by
  obtain ⟨-, distinct⟩ := (built _).problems_apart occurs whole_analysed
  obtain ⟨-, count⟩ := distinct whole_unambiguous
  exact ⟨built _, whole_unambiguous, whole_analysed, count .undeclared, count .unconvertible⟩

open FolderExample BoundObject in
theorem twin_shares_entry :
    ¬ ∀ (registries : List (Registry × Bool)) (s : Session) (o : BoundObject) (report : Report),
      Session.Occurs registries s → o.IsBuilt registries →
      (o.analyze true s).result = .ok report →
      ∀ l l' p q, o.ProblemAt s l p → o.ProblemAt s l' q → p.kind = q.kind → l ≠ l' →
        p.entry ≠ q.entry := by
  intro claim
  have analysed : ∃ report, (twin.analyze true session).result = .ok report := ⟨_, rfl⟩
  obtain ⟨report, analysed⟩ := analysed
  have own : twin.ProblemAt session ⟨[], "parts[0].colour"⟩
      (.undeclared ⟨"Folder"⟩ "parts[0].colour") :=
    ⟨twin, .here twin, .undeclared (v := .null) rfl rfl⟩
  have inner : twin.ProblemAt session ⟨[⟨"parts", [0]⟩], "colour"⟩
      (.undeclared ⟨"Folder"⟩ "parts[0].colour") :=
    ⟨part, .step ⟨_, rfl, rfl, rfl, rfl, rfl⟩ (.here part), .undeclared (v := .null) rfl rfl⟩
  exact claim registries session twin report occurs (built _) analysed _ _ _ _ own inner rfl
    (by decide) rfl

end LazyBinding
