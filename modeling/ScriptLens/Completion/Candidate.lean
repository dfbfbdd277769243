/-! # Completion candidates -/
namespace ScriptLens

inductive CandidateKind where
  | property | method | variable | function | keyword
deriving DecidableEq

structure Candidate where
  label : String
  kind : CandidateKind
  /-- Where the candidate comes from. -/
  detail : String
deriving DecidableEq

def CandidateKind.word : CandidateKind → String
  | .property => "property"
  | .method => "method"
  | .variable => "variable"
  | .function => "function"
  | .keyword => "keyword"

def CandidateKind.ofWord? : String → Option CandidateKind
  | "property" => some .property
  | "method" => some .method
  | "variable" => some .variable
  | "function" => some .function
  | "keyword" => some .keyword
  | _ => none

end ScriptLens
