import Lineage.Command.Arguments
import Lineage.Command.Run

set_option autoImplicit false

/-!
# The program

Reads the command line, the environment and the files that a command needs, and prints its report.

## Main definitions

* `Lineage.Command.answer`: the exit code of a command line, after everything is printed.
-/

namespace Lineage

namespace Command

/-- What is found under a path on disk. -/
def contentOf (path : String) : IO FileContent := do
  try
    return .text (← IO.FS.readFile path)
  catch e =>
    match e with
    | .inappropriateType .. => return .blocked
    | .noFileOrDirectory .. => return .missing
    | _ => return .directory

/-- The paths of the files that the datasets of a document are read from. -/
def sourcePaths (doc : Document) : List String :=
  doc.datasets.filterMap fun d =>
    match d.source.map Catalog.Address.ofText with
    | some (.path path) => some path
    | _ => none

/-- The files that a command needs, read from disk. -/
def filesFor (command : Command) : IO Files := do
  let document ← contentOf command.graph
  let paths := match document with
    | .text content => ((Document.ofText? content).map sourcePaths).getD []
    | _ => []
  let sources ← paths.mapM fun path => return (path, ← contentOf path)
  let entries := (command.graph, document) :: sources
  return fun path => ((entries.find? fun entry => entry.1 == path).map Prod.snd).getD .missing

/-- The environment variables that settings are read from. -/
def settingNames : List String :=
  ["SPECGRAPH_BATCH_SIZE", "SPECGRAPH_SEED", "SPECGRAPH_SQL_TABLE"]

/-- What a command finds around it. -/
def surroundingsFor (command : Command) : IO Surroundings := do
  let files ← filesFor command
  let values ← settingNames.mapM fun name => return (name, ← IO.getEnv name)
  let seed ← IO.rand 0 (Number.word32 - 1)
  return ⟨files, fun name => (values.find? fun entry => entry.1 == name).bind Prod.snd,
    .ofSeed seed⟩

/-- Answer a command line; the result is the exit code. -/
def answer (words : List String) : IO UInt32 := do
  match Request.ofWords words with
  | .misuse =>
    IO.eprint mainPage
    return 2
  | .page text =>
    IO.print text
    return 0
  | .run command =>
    let report := run (← surroundingsFor command) command
    IO.print report.printed
    match report.complaint with
    | none => return 0
    | some complaint =>
      IO.eprintln ("Error: " ++ complaint.message)
      return 1

end Command

end Lineage

/-- The entry point. -/
def main (words : List String) : IO UInt32 := Lineage.Command.answer words
