import ScriptLens.JsonText.Printer
import ScriptLens.JsonText.Value
import ScriptLens.Snapshot.Basic
import ScriptLens.Text.Blank

/-! # Settings

Settings come from a file, if one is named, and single ones from the environment.
A file holds an object with any of the fields, or a list of their values in order;
what it leaves out keeps its default, and fields it should not have are ignored.
-/
namespace ScriptLens

structure CompletionConfig where
  maxResults : Nat := 200
deriving DecidableEq

structure Config where
  /-- The time without an edit after which a script is analysed again. -/
  debounceMs : Nat := 150
  snapshotDepth : Nat := Snapshot.defaultDepth
  completion : CompletionConfig := {}
  logLevel : Option String := none
deriving DecidableEq

inductive ConfigError where
  /-- The file does not exist or is no text. -/
  | unreadable
  | malformed
deriving DecidableEq

namespace Config

open JsonText

/-- A field of an object, by a name that is given at most once. -/
def field? (fields : List (String × Value)) (name : String) : Option (Option Value) :=
  match fields.filter (·.1 == name) with
  | [] => some none
  | [(_, v)] => some (some v)
  | _ => none

/-- The values of the named fields of an object or of the places of a list. -/
def slots? (names : List String) : Value → Option (List (Option Value))
  | .list items =>
    if names.length < items.length then none
    else some (items.map some ++ List.replicate (names.length - items.length) none)
  | .object fields => do
    let named ← fields.mapM fun (key, v) => (decode? key).map fun k => (String.ofList k, v)
    names.mapM (field? named)
  | _ => none

def read? {α : Type} (default : α) (read : Value → Option α) : Option Value → Option α
  | none => some default
  | some v => read v

def logLevel? : Value → Option (Option String)
  | .null => some none
  | v => v.text?.map some

end Config

def CompletionConfig.ofJson? (v : JsonText.Value) : Option CompletionConfig :=
  match Config.slots? ["max_results"] v with
  | some [maxResults] =>
    (Config.read? ({} : CompletionConfig).maxResults JsonText.Value.word? maxResults).map (⟨·⟩)
  | _ => none

namespace Config

open JsonText

def ofJson? (v : Value) : Option Config :=
  match slots? ["debounce_ms", "snapshot_max_depth", "completion", "log_level"] v with
  | some [debounce, depth, completion, logLevel] => do
    let defaults : Config := {}
    return {
      debounceMs := ← read? defaults.debounceMs Value.word? debounce
      snapshotDepth := ← read? defaults.snapshotDepth Value.word? depth
      completion := ← read? defaults.completion CompletionConfig.ofJson? completion
      logLevel := ← read? defaults.logLevel logLevel? logLevel }
  | _ => none

def parse? (text : String) : Option Config := (JsonText.parse? text.toList).bind ofJson?

def load (file : Option ByteArray) : Except ConfigError Config :=
  match file.bind Text.ofBytes? with
  | none => .error .unreadable
  | some text =>
    match parse? text with
    | none => .error .malformed
    | some c => .ok c

def fileVariable : String := "JSINSIGHT_CONFIG"

def debounceVariable : String := "JSINSIGHT_DEBOUNCE_MS"

def depthVariable : String := "JSINSIGHT_SNAPSHOT_MAX_DEPTH"

/-- A number from the environment, with blanks around it. -/
def setting? (env : String → Option String) (name : String) : Option Nat :=
  (env name).bind fun value => Text.word? (Text.trim value.toList)

/-- The settings of an environment. A file with faults counts as none, and so does a
variable that holds no number or a depth of zero. -/
def ofEnvironment (env : String → Option String) (files : String → Option ByteArray) : Config :=
  let base := match env fileVariable with
    | some path => (load (files path)).toOption.getD {}
    | none => {}
  { base with
    debounceMs := (setting? env debounceVariable).getD base.debounceMs
    snapshotDepth := ((setting? env depthVariable).filter (0 < ·)).getD base.snapshotDepth }

def toJson (c : Config) : String :=
  object
    [ ("debounce_ms", toString c.debounceMs),
      ("snapshot_max_depth", toString c.snapshotDepth),
      ("completion", object [("max_results", toString c.completion.maxResults)]),
      ("log_level", (c.logLevel.map quoted).getD "null") ]

end Config

end ScriptLens
