import LazyBinding.CommandLine.Run
import LazyBinding.Proofs.ReadTransparency

/-!
# Checks and exports agree

A check looks for objects below fields of object type and goes on after each problem; an export
looks for them in all arrays and maps and ends at the first problem. Of the documents that are bound
to the classes of a manifest both accept the same.
-/
namespace LazyBinding

variable {start s t : Session} {strict : Bool} {cls : ClassPath} {o o' : BoundObject}

/-! ### Schemas of manifests -/

namespace Registry

variable {r r' : Registry} {d : ClassDecl}

theorem declared_register (h : r.register d = .ok r') : r'.declared = r.declared ++ [d] := by
  unfold register at h
  split at h
  · split at h
    · cases h
    · cases h
      rfl
  · cases h

theorem declared_ofDecls {decls : List ClassDecl} (h : ofDecls decls = .ok r) :
    r.declared = decls := by
  have all : ∀ (decls : List ClassDecl) {before : Registry},
      decls.foldlM register before = .ok r → r.declared = before.declared ++ decls := by
    intro decls
    induction decls with
    | nil =>
      intro before h
      cases h
      simp
    | cons d rest ih =>
      intro before h
      rw [List.foldlM_cons] at h
      cases hd : before.register d with
      | error e =>
        rw [hd] at h
        cases h
      | ok next =>
        rw [hd] at h
        rw [ih h, declared_register hd, List.append_assoc, List.singleton_append]
  simpa [empty] using all decls h

end Registry

theorem Manifest.hookless {m : Manifest} {r : Registry} (h : m.registry = .ok r) (cls : ClassPath) :
    r.hook? cls = none := by
  refine Registry.hook?_eq_none (fun d hd => ?_) cls
  rw [Registry.declared_ofDecls h] at hd
  obtain ⟨entry, -, rfl⟩ := List.mem_map.1 hd
  rfl

/-- Whether a manifest is accepted does not depend on strictness, and neither does anything else but
the strictness of the schema. -/
theorem ClassSource.schema_cases [Json.DoubleReader] (source : ClassSource) (text : String) :
    (∃ failure, ∀ strict, source.schema strict text = .error failure) ∨
      ∃ r : Registry, (∀ cls, r.hook? cls = none) ∧ ∀ strict, source.schema strict text =
        .ok ((Schema.ofRegistry r strict).compile source.cls).1 := by
  unfold schema
  cases hm : Manifest.parse text with
  | error e => exact Or.inl ⟨_, fun _ => rfl⟩
  | ok m =>
    cases hr : m.registry with
    | error e =>
      refine Or.inl ⟨e.messages, fun strict => ?_⟩
      simp only [Except.mapError, bind, Except.bind, hr]
    | ok r =>
      have compiled : ∀ strict, (Schema.ofRegistry r strict).compile source.cls =
          (((Schema.ofRegistry r strict).compile source.cls).1,
            (SchemaCache.empty.compile r source.cls).2.map fun _ => ()) := fun _ => rfl
      simp only [Except.mapError, bind, Except.bind, hr]
      cases hc : (SchemaCache.empty.compile r source.cls).2 with
      | error e =>
        refine Or.inl ⟨("failed to compile class " ++ source.cls.text) :: e.messages,
          fun strict => ?_⟩
        rw [compiled, hc]
        rfl
      | ok table =>
        refine Or.inr ⟨r, Manifest.hookless hr, fun strict => ?_⟩
        rw [compiled, hc]
        rfl

/-! ### Sessions of commands -/

namespace Session

theorem schema_strict_onSchema {α : Type} (s : Session) (id other : SchemaId)
    {f : Schema → Schema × α} (h : ∀ schema, (f schema).1.strict = schema.strict) :
    ((s.onSchema id f).1.schema other).strict = (s.schema other).strict := by
  rcases s.schema_onSchema id other f with ⟨rfl, hs⟩ | hs
  · rw [hs, h]
  · rw [hs]

theorem Evolves.strictness (h : s.Evolves t) (id : SchemaId) :
    (t.schema id).strict = (s.schema id).strict := by
  induction h with
  | refl => rfl
  | table other cls _ ih => exact (schema_strict_onSchema _ other id fun _ => rfl).trans ih
  | clear other _ ih => exact (schema_strict_onSchema _ other id fun _ => rfl).trans ih

/-- What can be said of the session of a command while documents are worked on: `start` tells the
registries, and the schema of the class is as strict as the command. -/
structure Serves (start : Session) (strict : Bool) (s : Session) : Prop where
  keeps : start.Keeps s
  strict : (s.schema 0).strict = strict

theorem Serves.evolves (h : start.Serves strict s) (ht : s.Evolves t) : start.Serves strict t :=
  ⟨h.keeps.evolves ht, (ht.strictness 0).trans h.strict⟩

theorem Serves.run (h : start.Serves strict s) (operations : List Operation) :
    start.Serves strict (s.run operations) := by
  induction operations generalizing s with
  | nil => exact h
  | cons operation rest ih => exact ih (h.evolves (s.perform_evolves operation))

theorem serves_compiled (r : Registry) (strict : Bool) (cls : ClassPath) :
    (fresh [(r, false)]).Serves strict ⟨[((Schema.ofRegistry r strict).compile cls).1]⟩ := by
  have hkeeps : (fresh [(r, false)]).Keeps (fresh [(r, strict)]) := by
    have hfresh := keeps_fresh [(r, strict)]
    have hregistry : ∀ id,
        (fresh [(r, strict)]).registry id = (fresh [(r, false)]).registry id := by
      intro id
      cases id with
      | zero => rfl
      | succ id => rfl
    exact ⟨hregistry, fun id => hregistry id ▸ hfresh.settled id⟩
  exact ⟨hkeeps.table 0 cls, rfl⟩

theorem fresh_hookless {r : Registry} (h : ∀ cls, r.hook? cls = none) (strict : Bool) :
    (fresh [(r, strict)]).Hookless := by
  intro id cls
  cases id with
  | zero => exact h cls
  | succ id => exact Registry.hook?_eq_none (fun d hd => by cases hd) cls

end Session

/-! ### Documents -/

theorem Report.hasBad_eq_false {r : Report} (h : r.hasProblems = false) :
    r.hasBad = false := (Bool.or_eq_false_iff.1 h).2

namespace BoundObject

/-- What a check wants of an object. -/
def PassesCheck (start : Session) (strict : Bool) (o : BoundObject) : Prop :=
  ∃ r, (o.analyze true start).result = .ok r ∧ (Verdict.report r).fails strict = false

theorem PassesCheck.lenient (h : o.PassesCheck start strict) : o.PassesCheck start false := by
  obtain ⟨r, hr, hpass⟩ := h
  exact ⟨r, hr, by simp [Verdict.fails, (Bool.or_eq_false_iff.1 hpass).1]⟩

theorem passesCheck_iff (hstart : start.Keeps start) (o : BoundObject) :
    o.PassesCheck start false ↔ o.Passes start levelLimit := by
  have good := (analyseDeep_decides hstart levelLimit).good o "" .empty hstart
  unfold PassesCheck analyze analyzeWith
  rw [if_pos rfl]
  generalize analyseDeep builder levelLimit o "" .empty start = all at good ⊢
  dsimp only
  constructor
  · intro h
    obtain ⟨r, hr, hpass⟩ := h
    split at hr
    · next complete =>
      cases hr
      exact (good.1 ⟨complete, by simpa [Verdict.fails] using hpass⟩).2
    · cases hr
  · intro h
    obtain ⟨complete, clean⟩ := good.2 ⟨rfl, h⟩
    rw [if_pos complete]
    exact ⟨_, rfl, by simp [Verdict.fails, clean]⟩

theorem validate_ok_iff (o : BoundObject) (hstart : start.Keeps start) (hs : start.Keeps s) :
    (o.validate s).result = .ok () ↔ o.PassesCheck start true := by
  have steady :=
    o.analyzeWith_steady builder_evolves (builder_steady start) levelLimit true hs hstart
  have hsame : (o.analyze true s).result = (o.analyze true start).result :=
    congrArg Prod.snd steady
  unfold PassesCheck
  rw [← hsame]
  unfold validate validateWith analyze analyzeWith
  rw [if_pos rfl]
  generalize analyseDeep builder levelLimit o "" .empty s = all
  obtain ⟨s', o', report, complete⟩ := all
  cases complete with
  | false => simp
  | true =>
    cases hproblems : report.hasProblems with
    | false => simp [Verdict.fails, hproblems, Report.hasBad_eq_false hproblems]
    | true => simp [Verdict.fails, hproblems]

theorem validate_ripens (instances : start.LeavesInstances) (hstart : start.Keeps start)
    (o : BoundObject) (hs : start.Keeps s) : o.Ripens start (o.validate s).object := by
  have ripens := (analyseDeep_transparent instances hstart levelLimit).ripens o "" .empty hs
  unfold validate validateWith
  dsimp only
  split
  · exact ripens
  · split
    · exact ripens
    · exact ripens

/-- The object that a document is bound to before any validation. -/
def IsMadeOf (start : Session) (cls : ClassPath) (content : Json) (o : BoundObject) : Prop :=
  ∃ data, Value.ofJson content = .map data ∧ (make 0 cls data start).2 = .ok o

theorem IsMadeOf.unique {content : Json} (h : o.IsMadeOf start cls content)
    (h' : o'.IsMadeOf start cls content) : o = o' := by
  obtain ⟨data, hdata, made⟩ := h
  obtain ⟨data', hdata', made'⟩ := h'
  cases hdata.symm.trans hdata'
  cases made.symm.trans made'
  rfl

theorem IsMadeOf.isPlain {content : Json} (hookless : start.Hookless) (hstart : start.Keeps start)
    (h : o.IsMadeOf start cls content) : o.IsPlain := by
  obtain ⟨data, hdata, made⟩ := h
  have hfit := Value.ofJson_fit content
  rw [hdata] at hfit
  unfold IsPlain
  rw [construct_data hookless hstart levelLimit made]
  exact Value.unfitInEntries?_eq_none.1 hfit

theorem ofDocument_decides (instances : start.LeavesInstances) (hstart : start.Keeps start)
    (hs : start.Serves strict s) (cls : ClassPath) (content : Json) :
    SucceedsIff
      (∃ o : BoundObject, o.IsMadeOf start cls content ∧ (strict = true → o.PassesCheck start true))
      (fun o' => ∃ o : BoundObject, o.IsMadeOf start cls content ∧ o.Ripens start o')
      (ofDocument 0 cls content s).2 := by
  unfold ofDocument
  split
  · next data hdata =>
    have hmake := builder_steady start 0 cls data hs.keeps hstart
    have hs' := hs.evolves (make_evolves 0 cls data s)
    unfold instantiate makeValidated
    rw [hs.strict]
    change (make 0 cls data s).2 = (make 0 cls data start).2 at hmake
    generalize make 0 cls data s = x at hmake hs' ⊢
    obtain ⟨s', result⟩ := x
    cases result with
    | error e =>
      rintro ⟨o, ⟨data', hdata', made⟩, -⟩
      cases hdata.symm.trans hdata'
      cases hmake.trans made
    | ok o =>
      have made : o.IsMadeOf start cls content := ⟨data, hdata, hmake.symm⟩
      cases strict with
      | false => exact ⟨⟨o, made, fun h => by cases h⟩, o, made, .refl o⟩
      | true =>
        -- The validation reads the object; what it hands on is the same object in a riper form.
        have hvalid := o.validate_ok_iff hstart hs'.keeps
        have ripens := validate_ripens instances hstart o hs'.keeps
        dsimp only
        rw [if_pos rfl]
        generalize o.validate s' = checked at hvalid ripens ⊢
        obtain ⟨_, o', result⟩ := checked
        cases result with
        | ok => exact ⟨⟨o, made, fun _ => hvalid.1 rfl⟩, o, made, ripens⟩
        | error e =>
          rintro ⟨o₁, made₁, h⟩
          cases made.unique made₁
          cases hvalid.2 (h rfl)
  · next hdata =>
    rintro ⟨o, ⟨data, hdata', -⟩, -⟩
    exact hdata data hdata'

end BoundObject

theorem Verdict.ofDocument_evolves (cls : ClassPath) (d : Document) (s : Session) :
    s.Evolves (ofDocument cls d s).1 := by
  have bound := BoundObject.ofDocument_evolves 0 cls d.content s
  unfold ofDocument
  split
  · next heq => exact bound.along heq
  · next o heq =>
    have evolves := (bound.along heq).trans (o.analyze_evolves true _)
    dsimp only
    split
    · exact evolves
    · exact evolves

namespace Document

theorem passes_iff (instances : start.LeavesInstances) (hstart : start.Keeps start)
    (hs : start.Serves false s) (strict : Bool) (d : Document) :
    (Verdict.ofDocument cls d s).2.fails strict = false ↔
      ∃ o : BoundObject, o.IsMadeOf start cls d.content ∧ o.PassesCheck start strict := by
  have bound := BoundObject.ofDocument_decides instances hstart hs cls d.content
  have hs' := hs.evolves (BoundObject.ofDocument_evolves 0 cls d.content s)
  unfold Verdict.ofDocument
  generalize BoundObject.ofDocument 0 cls d.content s = x at bound hs' ⊢
  obtain ⟨s', result⟩ := x
  cases result with
  | error e =>
    refine iff_of_false (by simp [Verdict.fails]) ?_
    rintro ⟨o, made, -⟩
    exact bound ⟨o, made, fun h => by cases h⟩
  | ok o' =>
    obtain ⟨-, o, made, ripens⟩ := bound
    have hsame := ripens.analyze instances hstart true hstart hs'.keeps
    have unique : (∃ o : BoundObject, o.IsMadeOf start cls d.content ∧ o.PassesCheck start strict) ↔
        o.PassesCheck start strict := by
      refine ⟨?_, fun h => ⟨o, made, h⟩⟩
      rintro ⟨o₁, made₁, h⟩
      exact made.unique made₁ ▸ h
    rw [unique, BoundObject.PassesCheck, hsame]
    dsimp only
    cases (o'.analyze true s').result with
    | error e => simp [Verdict.fails]
    | ok r => simp

theorem export?_decides (hookless : start.Hookless) (hstart : start.Keeps start)
    (hs : start.Serves strict s) (d : Document) :
    SucceedsIff (∃ o : BoundObject, o.IsMadeOf start cls d.content ∧
        (strict = true → o.PassesCheck start true) ∧ o.Passes start BoundObject.levelLimit)
      (fun _ => start.Serves strict (d.export? cls s).1) (d.export? cls s).2 := by
  have bound :=
    BoundObject.ofDocument_decides (hookless.leavesInstances hstart) hstart hs cls d.content
  have hs' := hs.evolves (BoundObject.ofDocument_evolves 0 cls d.content s)
  unfold export?
  generalize BoundObject.ofDocument 0 cls d.content s = x at bound hs' ⊢
  obtain ⟨s', result⟩ := x
  cases result with
  | error e =>
    rintro ⟨o, made, valid, -⟩
    exact bound ⟨o, made, valid⟩
  | ok o' =>
    obtain ⟨⟨o₁, made₁, valid⟩, o, made, ripens⟩ := bound
    rw [← made.unique made₁] at valid
    have decides := BoundObject.exportWith_decides hookless hstart BoundObject.levelLimit
    have exported := decides.decides (made.isPlain hookless hstart) hstart
    have transparent := BoundObject.exportWith_transparent hstart BoundObject.levelLimit
    rw [transparent.alike ripens hstart hs'.keeps] at exported
    have hs₁ := hs'.evolves (o'.exported_evolves s')
    change SucceedsIff _ _ (o'.exported s').2 at exported
    dsimp only
    generalize o'.exported s' = y at exported hs₁ ⊢
    obtain ⟨s₁, result⟩ := y
    cases result with
    | error e =>
      rintro ⟨o₂, made₂, -, passes⟩
      exact exported (made.unique made₂ ▸ passes)
    | ok v =>
      obtain ⟨json, hjson⟩ : ∃ json, v.toJson s₁ = (s₁, .ok json) :=
        Value.toJsonWith_fit exported.2 s₁
      simp only [hjson]
      exact ⟨⟨o, made, valid, exported.1⟩, hs₁⟩

/-- A document has an export exactly if it passes a check. -/
theorem export?_checked (hookless : start.Hookless) (hstart : start.Keeps start)
    (hs : start.Serves false s) (ht : start.Serves strict t) (cls : ClassPath) (d : Document) :
    SucceedsIff ((Verdict.ofDocument cls d s).2.fails strict = false)
      (fun _ => start.Serves strict (d.export? cls t).1) (d.export? cls t).2 := by
  refine (export?_decides hookless hstart ht d).congr ?_
  rw [passes_iff (hookless.leavesInstances hstart) hstart hs]
  refine exists_congr fun o => and_congr_right fun _ => ?_
  rw [← BoundObject.passesCheck_iff hstart]
  cases strict with
  | false => simp
  | true => exact ⟨fun h => h.1 rfl, fun h => ⟨fun _ => h, h.lenient⟩⟩

/-- Documents that are worked on in order all have exports exactly if all pass. -/
theorem exportAll_checked (hookless : start.Hookless) (hstart : start.Keeps start)
    (hs : start.Serves false s) (ht : start.Serves strict t) (cls : ClassPath)
    (documents : List Document) :
    SucceedsIff (∀ entry ∈ Verdict.ofDocuments cls documents s, entry.2.fails strict = false)
      (fun exported => exported.length = documents.length) (exportAll cls documents t) := by
  induction documents generalizing s t with
  | nil => simp [Verdict.ofDocuments, exportAll, SucceedsIff]
  | cons d rest ih =>
    have first := export?_checked hookless hstart hs ht cls d
    have hs' := hs.evolves (Verdict.ofDocument_evolves cls d s)
    unfold Verdict.ofDocuments exportAll
    generalize Verdict.ofDocument cls d s = x at first hs' ⊢
    generalize d.export? cls t = y at first ⊢
    obtain ⟨s', v⟩ := x
    obtain ⟨t', result⟩ := y
    dsimp only
    rw [List.forall_mem_cons]
    cases result with
    | error failure => exact fun h => first h.1
    | ok json =>
      have others := ih hs' first.2
      dsimp only
      generalize exportAll cls rest t' = result at others ⊢
      cases result with
      | error failure => exact fun h => others h.2
      | ok exported => exact ⟨⟨first.1, others.1⟩, congrArg (· + 1) others.2⟩

end Document

end LazyBinding
