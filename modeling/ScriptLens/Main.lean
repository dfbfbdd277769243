import ScriptLens.CommandLine.Run
import ScriptLens.Cst.Stored

/-! # The program

Reads what a run needs, and prints what it comes to. The concrete tree of a script
is stored beside it, in a file whose name has `.cst` added.
-/
namespace ScriptLens.CommandLine

def readFile? (path : String) : IO (Option ByteArray) := do
  try
    return some (← IO.FS.readBinFile path)
  catch _ =>
    return none

def treePath (path : String) : String := path ++ ".cst"

/-- The variables and files of this machine, as far as a command line names them. -/
def surroundings (args : List String) : IO Surroundings := do
  let names := [Config.fileVariable, Config.debounceVariable, Config.depthVariable]
  let values ← names.mapM fun name => return (name, ← IO.getEnv name)
  let setting? (name : String) : Option String := (values.lookup name).join
  let paths := paths setting? args
  let files ← (paths ++ paths.map treePath).mapM fun path => return (path, ← readFile? path)
  let file? (path : String) : Option ByteArray := (files.lookup path).join
  let tree? (path : String) : Option Cst :=
    ((file? (treePath path)).bind Text.ofBytes?).bind Cst.ofStored?
  return ⟨setting?, file?, tree?⟩

end ScriptLens.CommandLine

def main (args : List String) : IO UInt32 := do
  let outcome := ScriptLens.CommandLine.run (← ScriptLens.CommandLine.surroundings args) args
  IO.print outcome.output
  return outcome.code.toUInt32
