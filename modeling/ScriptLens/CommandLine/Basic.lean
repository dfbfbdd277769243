import ScriptLens.Sexpr.Basic
import ScriptLens.Text.Decimal

/-! # Command lines

A command line names a command with its operands. Options may stand anywhere: those
for all commands before the name of the command as well as after it, where the later
place counts. An option is given at most once in each place. Arguments are read from
left to right, and the first that is wrong, or that asks for help, decides. A value
that follows its option is checked when the place is read on, so that the last value
before a command is checked after the command.
-/
namespace ScriptLens.CommandLine

inductive Command where
  | index (file : String) (options : SexprOptions)
  | cst (file : String) (options : SexprOptions)
  | scopes (file : String)
  | complete (file : String) (row col : Nat)

structure Invocation where
  config : Option String
  command : Command

inductive Topic where
  | program | index | cst | scopes | complete | help
deriving DecidableEq

/-- Why a command line is not carried out. -/
inductive Refusal where
  | usage
  | help (topic : Topic)
  | version
deriving DecidableEq

def Topic.ofWord? : String → Option Topic
  | "index" => some .index
  | "cst" => some .cst
  | "scopes" => some .scopes
  | "complete" => some .complete
  | "help" => some .help
  | _ => none

inductive Shape where
  | text | path | number
deriving DecidableEq

def Shape.accepts : Shape → String → Bool
  | .text, _ => true
  | .path, s => !s.isEmpty
  | .number, s => (Text.word? s.toList).isSome

inductive Argument where
  | plain (text : String)
  /-- Two hyphens, a name, and perhaps a value after an equals sign. -/
  | option (name : String) (value : Option String)
  | letter (c : Char)
  /-- Two hyphens, after which all arguments are plain. -/
  | divider
deriving DecidableEq

def Argument.ofString (s : String) : Argument :=
  match s.toList with
  | ['-', '-'] => .divider
  | '-' :: '-' :: rest =>
    .option (String.ofList (rest.takeWhile (· ≠ '=')))
      (match rest.dropWhile (· ≠ '=') with
        | _ :: value => some (String.ofList value)
        | [] => none)
  | '-' :: c :: _ => .letter c
  | _ => .plain s

structure Level where
  topic : Topic
  flags : List String
  options : List (String × Shape)
  operands : List Shape

namespace Level

/-- Operands of the program as a whole are commands. -/
def takesCommand (l : Level) : Bool := l.topic == .program

def hasVersion (l : Level) : Bool := l.topic == .program

def global (topic : Topic) : Level :=
  { topic := topic
    flags := ["no-color", "log-file"]
    options := [("log-level", .text), ("config", .path)]
    operands := [] }

def program : Level := global .program

def tree (topic : Topic) : Level :=
  { global topic with
    flags := ["compact", "no-spans"] ++ (global topic).flags
    options := [("max-depth", .number), ("max-nodes", .number)] ++ (global topic).options
    operands := [.path] }

def scopes : Level := { global .scopes with operands := [.path] }

def complete : Level := { global .complete with operands := [.path, .number, .number] }

end Level

/-- A value that follows its option and has not been checked. -/
structure Pending where
  name : String
  shape : Shape
  value : String

structure Given where
  flags : List String := []
  values : List (String × String) := []
  operands : List String := []
  pending : Option Pending := none

namespace Given

def value? (g : Given) (name : String) : Option String := g.values.lookup name

def number? (g : Given) (name : String) : Option Nat :=
  (g.value? name).bind fun s => Text.word? s.toList

def addFlag (g : Given) (name : String) : Except Refusal Given :=
  if g.flags.contains name then .error .usage else .ok { g with flags := name :: g.flags }

def addValue (g : Given) (name : String) (shape : Shape) (value : String) :
    Except Refusal Given :=
  if (g.value? name).isSome || !shape.accepts value then .error .usage
  else .ok { g with values := (name, value) :: g.values }

def settle (g : Given) : Except Refusal Given :=
  match g.pending with
  | none => .ok g
  | some p => { g with pending := none }.addValue p.name p.shape p.value

def addOperand (g : Given) (l : Level) (text : String) : Except Refusal Given :=
  match l.operands[g.operands.length]? with
  | some shape =>
    if shape.accepts text then .ok { g with operands := g.operands ++ [text] }
    else .error .usage
  | none => .error .usage

end Given

def readOption (l : Level) (g : Given) (name : String) (value : Option String) :
    Except Refusal Given :=
  match value with
  | some v =>
    match l.options.lookup name with
    | some shape => g.addValue name shape v
    | none => .error .usage
  | none =>
    if name = "help" then .error (.help l.topic)
    else if name = "version" && l.hasVersion then .error .version
    else if l.flags.contains name then g.addFlag name
    else .error .usage

def readLetter (l : Level) (c : Char) : Refusal :=
  if c = 'h' then .help l.topic
  else if c = 'V' && l.hasVersion then .version
  else .usage

/-- Reads one place. What is left over starts with the name of a command. -/
def read (l : Level) (g : Given) : List String → Except Refusal (Given × List String)
  | [] => .ok (g, [])
  | arg :: rest =>
    match Argument.ofString arg with
    | .plain text =>
      if l.takesCommand then .ok (g, arg :: rest)
      else do read l (← (← g.settle).addOperand l text) rest
    | .letter c => do
      let _ ← g.settle
      .error (readLetter l c)
    | .divider => do return (← rest.foldlM (·.addOperand l) (← g.settle), [])
    | .option name (some value) => do
      read l (← readOption l (← g.settle) name (some value)) rest
    | .option name none =>
      match l.options.lookup name, rest with
      | none, rest => do read l (← readOption l (← g.settle) name none) rest
      | some shape, value :: rest =>
        match Argument.ofString value with
        | .plain value => do read l { (← g.settle) with pending := some ⟨name, shape, value⟩ } rest
        | _ => .error .usage
      | some _, [] => .error .usage

def readAll (l : Level) (args : List String) : Except Refusal Given := do
  (← read l {} args).1.settle

def sexprOptions (g : Given) : SexprOptions :=
  { withSpan := !g.flags.contains "no-spans"
    isCompact := g.flags.contains "compact"
    maxDepth := g.number? "max-depth"
    maxNodes := g.number? "max-nodes" }

def level : Topic → Level
  | .scopes => .scopes
  | .complete => .complete
  | .program => .program
  | topic => .tree topic

def command? (topic : Topic) (g : Given) : Option Command :=
  match topic, g.operands with
  | .index, [file] => some (.index file (sexprOptions g))
  | .cst, [file] => some (.cst file (sexprOptions g))
  | .scopes, [file] => some (.scopes file)
  | .complete, [file, row, col] =>
    match Text.word? row.toList, Text.word? col.toList with
    | some row, some col => some (.complete file row col)
    | _, _ => none
  | _, _ => none

def helpOn : List String → Refusal
  | [] => .help .program
  | [word] => ((Topic.ofWord? word).map Refusal.help).getD .usage
  | _ => .usage

/-- The arguments from the name of a command on: the command and what was given
with it. -/
def readCommand : List String → Except Refusal (Given × Command)
  | [] => .error .usage
  | word :: rest =>
    match Topic.ofWord? word with
    | none => .error .usage
    | some .help => .error (helpOn rest)
    | some topic => do
      let given ← readAll (level topic) rest
      match command? topic given with
      | none => .error .usage
      | some command => return (given, command)

def parse (args : List String) : Except Refusal Invocation := do
  let (around, rest) ← read .program {} args
  let (given, command) ← readCommand rest
  let around ← around.settle
  return ⟨(given.value? "config").or (around.value? "config"), command⟩

end ScriptLens.CommandLine
