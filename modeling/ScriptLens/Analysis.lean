import ScriptLens.Ast.View
import ScriptLens.Completion.Offer
import ScriptLens.Config
import ScriptLens.Diagnostic
import ScriptLens.Index.Build
import ScriptLens.Scope.Visit

/-! # Analyses

All that is known about one version of a script: its index with the bindings of its
names, a snapshot of its concrete tree and the faults found in it. A version is told
from others of the same script by its number.
-/
namespace ScriptLens

structure Script where
  source : String
  tree : Cst

namespace Script

def parsed (s : Script) : Parsed := .ofCst s.source.toUTF8 s.tree

def indexed (s : Script) : Indexed :=
  let program := s.parsed.program
  let index := Index.ofTree program.toTree s.source
  ⟨index, some (program.resolve index)⟩

def snapshot (s : Script) (maxDepth : Nat) : Snapshot := .ofCst s.source.toUTF8 maxDepth s.tree

end Script

structure Analysis where
  sequence : Nat
  source : String
  indexed : Indexed
  snapshot : Snapshot
  diagnostics : List Diagnostic
  maxResults : Nat

namespace Analysis

def build (config : Config) (sequence : Nat) (script : Script) : Analysis :=
  { sequence := sequence
    source := script.source
    indexed := script.indexed
    snapshot := script.snapshot config.snapshotDepth
    diagnostics := script.parsed.diagnostics
    maxResults := config.completion.maxResults }

theorem source_of_eq_build {a : Analysis} {config : Config} {sequence : Nat} {script : Script}
    (h : a = build config sequence script) : a.source = script.source := by
  subst h
  rfl

def index (a : Analysis) : Index := a.indexed.index

def hasErrors (a : Analysis) : Bool := !a.diagnostics.isEmpty || a.snapshot.hasError

/-- The context of a cursor and what is offered there, as far as the limit allows. -/
def complete (a : Analysis) (cursor : Point) (buffer : Option Snapshot) :
    Context × List Candidate :=
  let context := Context.ofCursor a.snapshot cursor
  (context, (context.candidates a.indexed buffer).take a.maxResults)

end Analysis

end ScriptLens
