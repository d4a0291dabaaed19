import LazyBinding.Files.Tree
import LazyBinding.Json.Filter.Reader
import LazyBinding.Proofs.CheckAndExport
import Mathlib

/-!
# Exit statuses

How the commands that check and export documents end in a file tree. Both load the manifest and the
documents in the same way, and then they exit alike because checks and exports agree.
-/
namespace LazyBinding

variable {strict : Bool}

theorem Outcome.ofVerdicts_status (strict : Bool) (verdicts : List (String × Verdict)) :
    (Outcome.ofVerdicts strict verdicts).status =
      if ∀ entry ∈ verdicts, entry.2.fails strict = false then 0 else 1 := by
  have failed : (verdicts.filter fun entry => entry.2.fails strict).length = 0 ↔
      ∀ entry ∈ verdicts, entry.2.fails strict = false := by
    simp [List.filter_eq_nil_iff]
  exact if_congr failed rfl rfl

namespace Command

/-- Commands that work on a file tree. -/
abbrev TreeRun := Run (StateM FileTree)

variable {α β : Type} {files files' : FileTree}

theorem run_bind (x : TreeRun α) (f : α → TreeRun β) (files : FileTree) :
    (x >>= f).run files =
      match x.run files with
      | (.ok a, files) => (f a).run files
      | (.error failure, files) => (.error failure, files) := by
  change (match x.run files with | (result, files) => ExceptT.bindCont f result files) = _
  cases x.run files with
  | mk result files =>
    cases result with
    | ok a => rfl
    | error failure => rfl

theorem settle_run (a : α) (f : α → TreeRun β) (files : FileTree) :
    (settle (.ok a) >>= f : TreeRun β).run files = (f a).run files := rfl

theorem attempt_run (context : String) (operation : StateM FileTree (Except FileError α))
    (files : FileTree) : (attempt context operation : TreeRun α).run files =
      ((operation files).1.mapError fun e => [context, e.message], (operation files).2) := by
  have lifted : (liftM operation : TreeRun (Except FileError α)).run files =
      (.ok (operation files).1, (operation files).2) := rfl
  unfold attempt
  rw [run_bind, lifted]
  cases (operation files).1 with
  | ok a => rfl
  | error e => rfl

/-- Loading a schema leaves the files as they are, and it fails in one way for all strictnesses. -/
theorem loadSchema_cases [Json.DoubleReader] (source : ClassSource) (files : FileTree) :
    (∃ failure, ∀ strict,
      (loadSchema source strict : TreeRun Schema).run files = (.error failure, files)) ∨
    ∃ r : Registry, (∀ cls, r.hook? cls = none) ∧ ∀ strict,
      (loadSchema source strict : TreeRun Schema).run files =
        (.ok ((Schema.ofRegistry r strict).compile source.cls).1, files) := by
  let context := "failed to read schema manifest " ++ source.manifest
  have hread : (attempt context (Files.read source.manifest) : TreeRun String).run files =
      ((files.read source.manifest).mapError fun e => [context, e.message], files) :=
    attempt_run context _ files
  have loaded : ∀ strict, (loadSchema source strict : TreeRun Schema).run files =
      (((files.read source.manifest).mapError fun e => [context, e.message]) >>=
        source.schema strict, files) := by
    intro strict
    unfold loadSchema
    rw [run_bind, hread]
    cases files.read source.manifest with
    | ok text => rfl
    | error e => rfl
  cases hfile : files.read source.manifest with
  | error e => exact Or.inl ⟨_, fun strict => by rw [loaded, hfile]; rfl⟩
  | ok text =>
    rw [hfile] at loaded
    change ∀ strict, _ = (source.schema strict text, files) at loaded
    rcases source.schema_cases text with ⟨failure, hs⟩ | ⟨r, hookless, hs⟩
    · exact Or.inl ⟨failure, fun strict => by rw [loaded, hs]⟩
    · exact Or.inr ⟨r, hookless, fun strict => by rw [loaded, hs]⟩

section

variable [Json.DoubleReader] [Json.FilterLanguage]

/-- The exit status of a command. -/
def exitStatus (command : Command) (files : FileTree) : Nat :=
  match ((command.perform : TreeRun Outcome).run files).1 with
  | .ok outcome => outcome.status
  | .error messages => (Outcome.failure messages).status

theorem runArguments_status {arguments : List String} {command : Command}
    (h : Arguments.read arguments = .run command) (files : FileTree) :
    ((runArguments arguments : StateM FileTree Outcome).run files).1.status =
      command.exitStatus files := by
  unfold runArguments exitStatus
  rw [h]
  dsimp only
  rw [StateT.run_bind]
  change (match (command.perform : TreeRun Outcome).run files with
    | (result, files) => (match result with
      | .ok outcome => pure outcome
      | .error messages => pure (.failure messages) : StateM FileTree Outcome) files).1.status = _
  cases (command.perform : TreeRun Outcome).run files with
  | mk result files =>
    cases result with
    | ok outcome => rfl
    | error messages => rfl

theorem exitStatus_of_no_schema {source : ClassSource} {failure : Failure}
    (h : ∀ strict, (loadSchema source strict : TreeRun Schema).run files = (.error failure, files'))
    (inputs : InputSelection) (strict : Bool) (out : Option String) :
    (check source inputs strict).exitStatus files = 1 ∧
      (exportTo source inputs strict out).exitStatus files = 1 := by
  unfold exitStatus perform
  constructor
  · rw [run_bind, h]
    rfl
  · rw [run_bind, h]
    rfl

omit [Json.DoubleReader] [Json.FilterLanguage] in
theorem run_bind_eq_ok {x : TreeRun α} {f : α → TreeRun β} {b : β}
    (h : ((x >>= f).run files).1 = .ok b) :
    ∃ a files', ((f a).run files').1 = .ok b := by
  rw [run_bind] at h
  split at h
  · next a files' _ => exact ⟨a, files', h⟩
  · cases h

omit [Json.DoubleReader] [Json.FilterLanguage] in
theorem deliver_status {out : Option String} {text : String} {outcome : Outcome}
    (h : ((deliver out text : TreeRun Outcome).run files).1 = .ok outcome) :
    outcome.status = 0 := by
  unfold deliver at h
  cases out with
  | none =>
    cases h
    rfl
  | some path =>
    have written : ∀ {files : FileTree},
        ((do
          attempt ("failed to write " ++ path) (Files.write path text)
          return Outcome.success "" : TreeRun Outcome).run files).1 = .ok outcome →
        outcome.status = 0 := by
      intro files h
      obtain ⟨_, _, h⟩ := run_bind_eq_ok h
      cases h
      rfl
    dsimp only at h
    split at h
    · obtain ⟨_, _, h⟩ := run_bind_eq_ok h
      exact written h
    · exact written h

/-- A check of documents succeeds exactly if all of them pass. -/
theorem check_status {source : ClassSource} {inputs : InputSelection} {schema : Schema}
    {documents : List Document}
    (schemaLoaded : (loadSchema source false : TreeRun Schema).run files = (.ok schema, files))
    (loaded : (loadDocuments inputs : TreeRun _).run files = (.ok documents, files')) :
    (check source inputs strict).exitStatus files =
      if ∀ entry ∈ Verdict.ofDocuments source.cls documents ⟨[schema]⟩, entry.2.fails strict = false
      then 0 else 1 := by
  have performed : ((check source inputs strict).perform : TreeRun Outcome).run files =
      (.ok (.ofVerdicts strict (Verdict.ofDocuments source.cls documents ⟨[schema]⟩)), files') := by
    unfold perform
    rw [run_bind, schemaLoaded]
    dsimp only
    rw [run_bind, loaded]
    rfl
  unfold exitStatus
  rw [performed]
  exact Outcome.ofVerdicts_status _ _

theorem exportTo_status {source : ClassSource} {inputs : InputSelection} {schema : Schema}
    {documents : List Document} {out : Option String} {P : Prop} [Decidable P]
    (schemaLoaded : (loadSchema source strict : TreeRun Schema).run files = (.ok schema, files))
    (loaded : (loadDocuments inputs : TreeRun _).run files = (.ok documents, files'))
    (nonempty : documents ≠ [])
    (delivered : ∀ text, ((deliver out text : TreeRun Outcome).run files').1.isOk = true)
    (exported : SucceedsIff P (fun exported => exported.length = documents.length)
      (Document.exportAll source.cls documents ⟨[schema]⟩)) :
    (exportTo source inputs strict out).exitStatus files = if P then 0 else 1 := by
  have performed : ((exportTo source inputs strict out).perform : TreeRun Outcome).run files =
      (do
        let exported ← settle (Document.exportAll source.cls documents ⟨[schema]⟩)
        let document ← settle (Document.combine exported)
        deliver out (document.encode true) : TreeRun Outcome).run files' := by
    unfold perform
    rw [run_bind, schemaLoaded]
    dsimp only
    rw [run_bind, loaded]
  unfold exitStatus
  rw [performed]
  generalize Document.exportAll source.cls documents ⟨[schema]⟩ = result at exported ⊢
  cases result with
  | error failure =>
    rw [if_neg exported]
    rfl
  | ok exported' =>
    obtain ⟨document, combined⟩ : ∃ document, Document.combine exported' = .ok document := by
      unfold Document.combine
      split
      · exact absurd (List.length_eq_zero_iff.1 exported.2.symm) nonempty
      · exact ⟨_, rfl⟩
      · exact ⟨_, rfl⟩
    have written := delivered (document.encode true)
    rw [if_pos exported.1, settle_run, combined, settle_run]
    cases hresult : ((deliver out (document.encode true) : TreeRun Outcome).run files').1 with
    | error failure =>
      rw [hresult] at written
      cases written
    | ok outcome => exact deliver_status hresult

end

end Command

/-- Checks and exports agree, both if they are strict and if they are not. Whatever else is done with
the schemas meanwhile, a document passes a check exactly if it can be bound, exported and encoded. So
the two commands exit alike on documents that can be read, if there are any and the output can be
written. -/
theorem check_agrees_with_export [Json.DoubleReader] [Json.FilterLanguage] (source : ClassSource)
    (strict : Bool) :
    (∀ text lenient chosen, source.schema false text = .ok lenient →
      source.schema strict text = .ok chosen →
      ∀ (before before' : List Session.Operation) (d : Document),
        (Verdict.ofDocument source.cls d (Session.run ⟨[lenient]⟩ before)).2.fails strict = false ↔
          ∃ json, (d.export? source.cls (Session.run ⟨[chosen]⟩ before')).2 = .ok json) ∧
    ∀ (inputs : InputSelection) (out : Option String) (files files' : FileTree)
      (documents : List Document),
      (Command.loadDocuments inputs : Command.TreeRun _).run files = (.ok documents, files') →
      documents ≠ [] →
      (∀ text, ((Command.deliver out text : Command.TreeRun _).run files').1.isOk = true) →
      (Command.check source inputs strict).exitStatus files =
          (Command.exportTo source inputs strict out).exitStatus files ∧
        ((Command.check source inputs strict).exitStatus files = 0 ∨
          (Command.check source inputs strict).exitStatus files = 1) := by
  constructor
  · intro text lenient chosen hlenient hchosen before before' d
    rcases source.schema_cases text with ⟨failure, hs⟩ | ⟨r, hookless, hs⟩
    · cases (hs false).symm.trans hlenient
    · cases (hs false).symm.trans hlenient
      cases (hs strict).symm.trans hchosen
      have hfresh := Session.keeps_fresh [(r, false)]
      exact (Document.export?_checked (Session.fresh_hookless hookless false) hfresh
        ((Session.serves_compiled r false source.cls).run before)
        ((Session.serves_compiled r strict source.cls).run before') source.cls d).iff
  · intro inputs out files files' documents loaded nonempty delivered
    rcases Command.loadSchema_cases source files with ⟨failure, hs⟩ | ⟨r, hookless, hs⟩
    · obtain ⟨checked, exported⟩ := Command.exitStatus_of_no_schema hs inputs strict out
      rw [checked, exported]
      exact ⟨rfl, Or.inr rfl⟩
    · have exported := Document.exportAll_checked
        (Session.fresh_hookless hookless false) (Session.keeps_fresh [(r, false)])
        (Session.serves_compiled r false source.cls) (Session.serves_compiled r strict source.cls)
        source.cls documents
      rw [Command.check_status (hs false) loaded,
        Command.exportTo_status (hs strict) loaded nonempty delivered exported]
      refine ⟨rfl, ?_⟩
      split
      · exact Or.inl rfl
      · exact Or.inr rfl

namespace PairExample

/-- A class whose objects may hold one of their kind. -/
def manifest : String :=
  "\x7b\"classes\":\x7b\"Pair\":[null,[[\"rest\",\"Pair\"]]]\x7d\x7d"

def source : ClassSource := ⟨"m", ⟨"Pair"⟩⟩

def inputs : InputSelection := ⟨false, none, none, ["d"]⟩

def files : FileTree :=
  ⟨[(["m"], .file manifest), (["d"], .file "\x7b\"rest\":\x7b\x7d\x7d")]⟩

end PairExample

section

local instance pairDoubles : Json.DoubleReader := Json.nearestDoubles

local instance pairFilters : Json.FilterLanguage := Json.Filter.language

open PairExample in
theorem check_agrees_with_export_pair :
    (∃ lenient chosen, source.schema false manifest = .ok lenient ∧
      source.schema true manifest = .ok chosen ∧
      ∀ (before before' : List Session.Operation) (d : Document),
        (Verdict.ofDocument source.cls d (Session.run ⟨[lenient]⟩ before)).2.fails true = false ↔
          ∃ json, (d.export? source.cls (Session.run ⟨[chosen]⟩ before')).2 = .ok json) ∧
    (Command.check source inputs true).exitStatus files =
      (Command.exportTo source inputs true none).exitStatus files := by
  have compiles : (source.schema false manifest).isOk = true := by cbv
  have loaded : (Command.loadDocuments inputs : Command.TreeRun _).run files =
      (.ok [⟨"d", .obj [("rest", .obj [])]⟩], files) := by cbv
  obtain ⟨agree, exits⟩ := check_agrees_with_export source true
  refine ⟨?_, (exits inputs none files files _ loaded (by simp) fun _ => rfl).1⟩
  rcases source.schema_cases manifest with ⟨failure, hs⟩ | ⟨r, -, hs⟩
  · rw [hs false] at compiles
    cases compiles
  · exact ⟨_, _, hs false, hs true, agree manifest _ _ (hs false) (hs true)⟩

end

end LazyBinding
