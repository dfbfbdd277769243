import ScriptLens.Service

/-! # Services with a memory

A service forgets the scripts that it was given and the builds that failed. A history keeps
them beside it, so that it can be said which script an analysis ought to be of.
-/
namespace ScriptLens

def Task.isBuilding (t : Task) : Bool :=
  match t.stage with
  | .building _ => true
  | _ => false

/-- A service with all that it was asked for. -/
structure History where
  service : Service
  /-- The scripts of each document: the one it was opened with, then those of its edits, so
  that an edit stands at its number. -/
  versions : Array (Array Script)
  failed : List Nat

namespace History

def start (config : Config) : History := ⟨.new config, #[], []⟩

def act (h : History) (a : Action) : History :=
  { service := h.service.act a
    versions :=
      match a with
      | .openDocument _ script => h.versions.push #[script]
      | .update name script =>
        match h.service.number? name with
        | some n => h.versions.modify n (·.push script)
        | none => h.versions
      | _ => h.versions
    failed :=
      match a with
      | .fail i => if (h.service.tasks[i]?).any Task.isBuilding then i :: h.failed else h.failed
      | _ => h.failed }

def run (config : Config) (actions : List Action) : History := actions.foldl act (start config)

/-- A history does not change what the service does. -/
theorem service_run (config : Config) (actions : List Action) :
    (run config actions).service = Service.run config actions := by
  have hfold : ∀ h : History,
      (actions.foldl act h).service = actions.foldl Service.act h.service := by
    induction actions with
    | nil => exact fun _ => rfl
    | cons a rest ih => exact fun h => ih (h.act a)
  exact hfold (start config)

def script? (h : History) (n k : Nat) : Option Script := (h.versions[n]?).bind (·[k]?)

end History

/-! ## Steps of tasks -/

inductive Service.TaskStep (s : Service) (i : Nat) : Service → Prop where
  | idle : TaskStep s i s
  | wake {t : Task} {d : Document} {script : Script} (task : s.tasks[i]? = some t)
      (stage : t.stage = .waiting script) (document : s.documents[t.document]? = some d)
      (latest : d.isCurrent t.sequence = true) : TaskStep s i (s.setStage i (.building script))
  | giveUp {t : Task} {d : Document} {script : Script} (task : s.tasks[i]? = some t)
      (stage : t.stage = .waiting script) (document : s.documents[t.document]? = some d)
      (stale : d.isCurrent t.sequence = false) : TaskStep s i (s.setStage i (.finished false))
  | build {t : Task} {script : Script} (task : s.tasks[i]? = some t)
      (stage : t.stage = .building script) :
      TaskStep s i (s.setStage i (.built (Analysis.build s.config t.sequence script)))
  | discard {t : Task} {d : Document} {a : Analysis} (task : s.tasks[i]? = some t)
      (stage : t.stage = .built a) (document : s.documents[t.document]? = some d)
      (late : d.isCurrent a.sequence = true → a.sequence ≤ d.current.sequence) :
      TaskStep s i (s.setStage i (.finished false))
  | install {t : Task} {d : Document} {a : Analysis} (task : s.tasks[i]? = some t)
      (stage : t.stage = .built a) (document : s.documents[t.document]? = some d)
      (latest : d.isCurrent a.sequence = true) (newer : d.current.sequence < a.sequence) :
      TaskStep s i { s.setStage i (.finished true) with
        documents := s.documents.modify t.document fun _ => { d with current := a } }

theorem Service.modify_self {documents : Array Document} {n : Nat} {d : Document}
    (h : documents[n]? = some d) : documents.modify n (fun _ => d) = documents := by
  apply Array.ext_getElem?
  intro m
  rw [Array.getElem?_modify]
  split
  · next heq => rw [← heq, h, Option.map_some]
  · rfl

theorem Service.taskStep_advance {s : Service} {i : Nat}
    (hdoc : ∀ t, s.tasks[i]? = some t → t.document < s.documents.size) :
    s.TaskStep i (s.advance i) := by
  cases ht : s.tasks[i]? with
  | none =>
    rw [advance, ht]
    exact .idle
  | some t =>
    obtain ⟨d, hd⟩ : ∃ d, s.documents[t.document]? = some d :=
      ⟨_, Array.getElem?_eq_getElem (hdoc t ht)⟩
    cases hstage : t.stage with
    | finished applied =>
      simp only [advance, ht, hstage]
      exact .idle
    | waiting script =>
      simp only [advance, ht, hstage, hd]
      split
      · next hcurrent => exact .wake ht hstage hd hcurrent
      · next hstale => exact .giveUp ht hstage hd (by simpa using hstale)
    | building script =>
      simp only [advance, ht, hstage, hd]
      exact .build ht hstage
    | built a =>
      simp only [advance, ht, hstage, hd, Document.apply]
      split
      · next happly =>
        simp only [Bool.and_eq_true, decide_eq_true_eq] at happly
        exact .install ht hstage hd happly.1 happly.2
      · next hlate =>
        simp only [Service.modify_self hd]
        refine .discard ht hstage hd ?_
        intro hcurrent
        simpa [hcurrent] using hlate

end ScriptLens
