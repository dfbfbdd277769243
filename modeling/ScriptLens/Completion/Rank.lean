import ScriptLens.Completion.Candidate
import ScriptLens.Text.Lowercase

/-! # Merging candidates

Candidates from several sources become one list in which every label stands once.
Of several candidates with one label the one from the most trusted source is kept,
and of those the first. The list is sorted by source, then by label without regard
to case, then by label.
-/
namespace ScriptLens

inductive CandidateSource where
  | analysis | alias | runtime
deriving DecidableEq

/-- The rank of a source; a smaller one is trusted more. -/
def CandidateSource.priority : CandidateSource → Nat
  | .analysis => 0
  | .alias => 1
  | .runtime => 2

structure Ranked where
  candidate : Candidate
  source : CandidateSource
deriving DecidableEq

namespace Ranked

def label (r : Ranked) : String := r.candidate.label

def priority (r : Ranked) : Nat := r.source.priority

/-- Adds a candidate to a list with distinct labels; an equally trusted candidate
that is there already stays. -/
def place (r : Ranked) : List Ranked → List Ranked
  | [] => [r]
  | best :: rest =>
    if best.label = r.label then (if best.priority ≤ r.priority then best else r) :: rest
    else best :: r.place rest

def isBefore (a b : Ranked) : Bool :=
  let la := Text.lowercase a.label.toList
  let lb := Text.lowercase b.label.toList
  if a.priority ≠ b.priority then a.priority < b.priority
  else if la ≠ lb then la < lb
  else !decide (b.label.toList < a.label.toList)

def ofSources (sources : List (CandidateSource × List Candidate)) : List Ranked :=
  sources.flatMap fun (source, candidates) => candidates.map (⟨·, source⟩)

def merge (sources : List (CandidateSource × List Candidate)) : List Ranked :=
  ((ofSources sources).foldl (fun best r => r.place best) []).mergeSort isBefore

end Ranked

end ScriptLens
