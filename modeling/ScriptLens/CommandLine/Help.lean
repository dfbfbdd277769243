import ScriptLens.CommandLine.Basic

/-! # Help texts

A help text says what a topic is about and how it is used, and then lists commands,
operands and options in aligned columns.
-/
namespace ScriptLens.CommandLine

def programName : String := "jsinsight"

def versionText : String := programName ++ " 0.1.0\n"

structure Row where
  term : String
  about : String

def Row.line (width : Nat) (r : Row) : String :=
  "  " ++ r.term ++ String.ofList (List.replicate (width - r.term.length) ' ') ++ "  " ++ r.about

/-- A title and rows in two columns, without the last line's end. -/
def columns (title : String) (rows : List Row) : List String :=
  let width := (rows.map (·.term.length)).foldl max 0
  if rows.isEmpty then [] else ["\n".intercalate (title :: rows.map (Row.line width))]

def about : Topic → String
  | .program => "Inspect the structure, scopes and completions of a JavaScript file"
  | .index => "Print the indexed AST as an S-expression"
  | .cst => "Print the concrete syntax tree snapshot as an S-expression"
  | .scopes => "Print the scope tree with bindings, references and unresolved names"
  | .complete => "Show the completion context and candidates at a 0-based position"
  | .help => "Print this message or the help of the given subcommand(s)"

def usage : Topic → String
  | .program => programName ++ " [OPTIONS] <COMMAND>"
  | .index => programName ++ " index [OPTIONS] <FILE>"
  | .cst => programName ++ " cst [OPTIONS] <FILE>"
  | .scopes => programName ++ " scopes [OPTIONS] <FILE>"
  | .complete => programName ++ " complete [OPTIONS] <FILE> <ROW> <COL>"
  | .help => programName ++ " help [COMMAND]..."

def commands : Topic → List Row
  | .program =>
    [ ⟨"index", about .index⟩, ⟨"cst", about .cst⟩, ⟨"scopes", about .scopes⟩,
      ⟨"complete", about .complete⟩, ⟨"help", about .help⟩ ]
  | _ => []

def operands : Topic → List Row
  | .program => []
  | .complete => [⟨"<FILE>", ""⟩, ⟨"<ROW>", ""⟩, ⟨"<COL>", ""⟩]
  | .help => [⟨"[COMMAND]...", "Print help for the subcommand(s)"⟩]
  | _ => [⟨"<FILE>", ""⟩]

def logLevelRow : Row :=
  ⟨"    --log-level <LOG_LEVEL>",
    "Log filter, e.g. `debug` or `jsinsight=trace`. Falls back to RUST_LOG"⟩

def noColorRow : Row := ⟨"    --no-color", ""⟩

def logFileRow : Row :=
  ⟨"    --log-file", "Also write a debug log to the platform cache directory"⟩

def configRow : Row := ⟨"    --config <CONFIG>", "JSON config file; overrides JSINSIGHT_CONFIG"⟩

def helpRow : Row := ⟨"-h, --help", "Print help"⟩

def versionRow : Row := ⟨"-V, --version", "Print version"⟩

/-- The options of a topic. Those of a command and those of all commands take turns,
and of two in the same turn the one that is first in the alphabet comes first. -/
def options : Topic → List Row
  | .program => [logLevelRow, noColorRow, logFileRow, configRow, helpRow, versionRow]
  | .index | .cst =>
    [ ⟨"    --compact", ""⟩, logLevelRow, ⟨"    --max-depth <MAX_DEPTH>", ""⟩, noColorRow,
      logFileRow, ⟨"    --max-nodes <MAX_NODES>", ""⟩, configRow, ⟨"    --no-spans", ""⟩,
      helpRow ]
  | .scopes | .complete => [logLevelRow, noColorRow, logFileRow, configRow, helpRow]
  | .help => []

/-- The help text of a topic; its parts are set off by empty lines. -/
def helpText (topic : Topic) : String :=
  "\n\n".intercalate
    ([about topic, "Usage: " ++ usage topic] ++ columns "Commands:" (commands topic) ++
      columns "Arguments:" (operands topic) ++ columns "Options:" (options topic)) ++ "\n"

end ScriptLens.CommandLine
