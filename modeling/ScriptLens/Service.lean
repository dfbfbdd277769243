import ScriptLens.Analysis

/-! # The analysis service

Open documents and the tasks that analyse their edits. Every edit of a document gets
the next number. Its task waits, gives up if a later edit has come meanwhile, builds
an analysis and installs it if the edit is still the latest. Nothing is cancelled:
a task whose document was closed, or opened anew, runs to its end and has no effect.

Tasks advance one step at a time and in any order, between each other and between
calls.
-/
namespace ScriptLens

/-- One opening of a document. -/
structure Document where
  latest : Nat
  isClosed : Bool
  current : Analysis

inductive Stage where
  | waiting (script : Script)
  | building (script : Script)
  | built (analysis : Analysis)
  | finished (isApplied : Bool)

structure Task where
  /-- The number of the document among all that were ever opened. -/
  document : Nat
  sequence : Nat
  stage : Stage

structure Service where
  config : Config
  /-- Every document that was ever opened. -/
  documents : Array Document
  registry : List (String × Nat)
  tasks : Array Task

inductive ServiceError where
  | unknownDocument (name : String)
deriving DecidableEq

def ServiceError.message : ServiceError → String
  | .unknownDocument name => "unknown document: " ++ name

namespace Document

def ofAnalysis (a : Analysis) : Document := ⟨a.sequence, false, a⟩

/-- Whether an edit is the last one of a document that is open. -/
def isCurrent (d : Document) (sequence : Nat) : Bool := !d.isClosed && d.latest == sequence

/-- Installs an analysis, unless it comes too late. -/
def apply (d : Document) (a : Analysis) : Document × Bool :=
  if d.isCurrent a.sequence && d.current.sequence < a.sequence then ({ d with current := a }, true)
  else (d, false)

end Document

namespace Task

def isFinished (t : Task) : Bool :=
  match t.stage with
  | .finished _ => true
  | _ => false

def isApplied (t : Task) : Bool :=
  match t.stage with
  | .finished applied => applied
  | _ => false

end Task

namespace Service

def new (config : Config) : Service := ⟨config, #[], [], #[]⟩

def number? (s : Service) (name : String) : Option Nat := s.registry.lookup name

def document? (s : Service) (name : String) : Option Document :=
  (s.number? name).bind fun n => s.documents[n]?

def unregister (name : String) (registry : List (String × Nat)) : List (String × Nat) :=
  registry.filter (·.1 ≠ name)

def markClosed (s : Service) (name : String) : Array Document :=
  match s.number? name with
  | some n => s.documents.modify n fun d => { d with isClosed := true }
  | none => s.documents

/-- Analyses a script at once and opens it, in place of a document of that name. -/
def openDocument (s : Service) (name : String) (script : Script) : Service :=
  let opened := Document.ofAnalysis (Analysis.build s.config 0 script)
  { s with
    documents := (s.markClosed name).push opened
    registry := (name, s.documents.size) :: unregister name s.registry }

/-- Gives an edit its number and starts its task. -/
def update (s : Service) (name : String) (script : Script) : Except ServiceError Service :=
  match s.number? name with
  | none => .error (.unknownDocument name)
  | some n =>
    match s.documents[n]? with
    | none => .error (.unknownDocument name)
    | some d =>
      .ok { s with
        documents := s.documents.modify n fun d => { d with latest := d.latest + 1 }
        tasks := s.tasks.push ⟨n, d.latest + 1, .waiting script⟩ }

/-- Closes a document; its tasks have no effect any more. -/
def close (s : Service) (name : String) : Service :=
  { s with documents := s.markClosed name, registry := unregister name s.registry }

def isOpen (s : Service) (name : String) : Bool := (s.number? name).isSome

def analysis? (s : Service) (name : String) : Option Analysis :=
  (s.document? name).map (·.current)

def latest? (s : Service) (name : String) : Option Nat := (s.document? name).map (·.latest)

def names (s : Service) : List String :=
  (s.registry.map (·.1)).mergeSort fun a b => decide (a ≤ b)

def complete (s : Service) (name : String) (cursor : Point) :
    Except ServiceError (Context × List Candidate) :=
  match s.analysis? name with
  | none => .error (.unknownDocument name)
  | some a => .ok (a.complete cursor none)

def setStage (s : Service) (i : Nat) (stage : Stage) : Service :=
  { s with tasks := s.tasks.modify i fun t => { t with stage := stage } }

def advance (s : Service) (i : Nat) : Service :=
  match s.tasks[i]? with
  | none => s
  | some t =>
    match t.stage, s.documents[t.document]? with
    | .finished _, _ => s
    | _, none => s.setStage i (.finished false)
    | .waiting script, some d =>
      s.setStage i (if d.isCurrent t.sequence then .building script else .finished false)
    | .building script, some _ => s.setStage i (.built (Analysis.build s.config t.sequence script))
    | .built a, some d =>
      let (d, applied) := d.apply a
      { s.setStage i (.finished applied) with
        documents := s.documents.modify t.document fun _ => d }

/-- A task that comes to no analysis. -/
def fail (s : Service) (i : Nat) : Service :=
  match s.tasks[i]? with
  | none => s
  | some t =>
    match t.stage with
    | .building _ => s.setStage i (.finished false)
    | _ => s

def settle (s : Service) (i : Nat) : Service := ((s.advance i).advance i).advance i

def pending (s : Service) : List Nat :=
  (List.range s.tasks.size).filter fun i => !(s.tasks[i]?).any Task.isFinished

/-- Lets all tasks end, and tells which of them had an effect. -/
def flush (s : Service) : Service × List Bool :=
  let ids := s.pending
  let s := ids.foldl settle s
  (s, ids.map fun i => (s.tasks[i]?).any Task.isApplied)

end Service

inductive Action where
  | openDocument (name : String) (script : Script)
  | update (name : String) (script : Script)
  | close (name : String)
  | advance (task : Nat)
  | fail (task : Nat)

namespace Service

/-- A call that fails changes nothing. -/
def act (s : Service) : Action → Service
  | .openDocument name script => s.openDocument name script
  | .update name script => (s.update name script).toOption.getD s
  | .close name => s.close name
  | .advance task => s.advance task
  | .fail task => s.fail task

def run (config : Config) (actions : List Action) : Service := actions.foldl act (new config)

end Service

end ScriptLens
