import ScriptLens.CommandLine.Help
import ScriptLens.CommandLine.Report
import ScriptLens.Sexpr.View

/-! # Carrying out a command line

What a run prints and how it ends depends on the environment, on files and on the
concrete trees of scripts. A command line that is refused ends with code two, unless
it asked for help; a file that cannot be read ends the run with code one.
-/
namespace ScriptLens.CommandLine

structure Surroundings where
  setting? : String → Option String
  file? : String → Option ByteArray
  tree? : String → Option Cst

structure Outcome where
  code : Nat
  output : String
deriving DecidableEq

inductive RunError where
  | config (cause : ConfigError)
  | unreadable (file : String)
deriving DecidableEq

def Refusal.outcome : Refusal → Outcome
  | .usage => ⟨2, ""⟩
  | .help topic => ⟨0, helpText topic⟩
  | .version => ⟨0, versionText⟩

def Surroundings.config (s : Surroundings) : Option String → Except RunError Config
  | some path => (Config.load (s.file? path)).mapError .config
  | none => .ok (.ofEnvironment s.setting? s.file?)

def Surroundings.script (s : Surroundings) (path : String) : Except RunError Script :=
  match (s.file? path).bind Text.ofBytes?, s.tree? path with
  | some source, some tree => .ok ⟨source, tree⟩
  | _, _ => .error (.unreadable path)

def Command.file : Command → String
  | .index file _ => file
  | .cst file _ => file
  | .scopes file => file
  | .complete file _ _ => file

def Command.report (a : Analysis) : Command → String
  | .index _ options => a.index.format options
  | .cst _ options => a.snapshot.format options
  | .scopes _ => a.scopeReport
  | .complete _ row col => a.completionReport ⟨row, col⟩

/-- A text as a paragraph: without blanks at its end, and with a line's end. -/
def paragraph (text : String) : String :=
  String.ofList (Text.trimEnd text.toList) ++ "\n"

def execute (s : Surroundings) (i : Invocation) : Except RunError String := do
  let config ← s.config i.config
  let script ← s.script i.command.file
  return paragraph (i.command.report (Analysis.build config 0 script))

def run (s : Surroundings) (args : List String) : Outcome :=
  match parse args with
  | .error refusal => refusal.outcome
  | .ok invocation =>
    match execute s invocation with
    | .error _ => ⟨1, ""⟩
    | .ok output => ⟨0, output⟩

/-- The files that a run may read, apart from concrete trees. -/
def paths (setting? : String → Option String) (args : List String) : List String :=
  match parse args with
  | .error _ => []
  | .ok i => (i.config.or (setting? Config.fileVariable)).toList ++ [i.command.file]

end ScriptLens.CommandLine
