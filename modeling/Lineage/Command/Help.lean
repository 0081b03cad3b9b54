import Lineage.Command.Basic

set_option autoImplicit false

/-!
# Parameters and help pages

A page says what a command does, how it is called and what its parameters are; lists stand in two
columns.

## Main definitions

* `Lineage.Command.Parameter`: what may be given to a command.
* `Lineage.Command.Action.parameters`: the parameters of a kind of command.
* `Lineage.Command.mainPage`, `Lineage.Command.Action.page`, `Lineage.Command.helpPage`: the pages.
-/

namespace Lineage.Command

/-- What may be given to a command. -/
inductive Parameter where
  /-- The path of the graph document. -/
  | graph
  /-- The name of a dataset. -/
  | dataset
  /-- The number of rows of a batch. -/
  | batchSize
  /-- The seed of samples and shuffles. -/
  | seed
  /-- After how many batches to stop. -/
  | limit
  /-- The page of the command. -/
  | help
  deriving DecidableEq, Repr

namespace Parameter

/-- The word for a parameter, which follows two dashes. -/
def name : Parameter → String
  | graph => "graph"
  | dataset => "dataset"
  | batchSize => "batch-size"
  | seed => "seed"
  | limit => "limit"
  | help => "help"

/-- The letter for a parameter, which follows one dash. -/
def letter? : Parameter → Option Char
  | graph => some 'g'
  | dataset => some 'd'
  | help => some 'h'
  | _ => none

/-- What stands for the value of a parameter on a page. -/
def placeholder : Parameter → String
  | graph => " <GRAPH>"
  | dataset => " <DATASET>"
  | batchSize => " <BATCH_SIZE>"
  | seed => " <SEED>"
  | limit => " <LIMIT>"
  | help => ""

/-- Whether a command cannot do without a parameter. -/
def isRequired : Parameter → Bool
  | graph | dataset => true
  | _ => false

/-- A parameter as it is given, with a placeholder for its value. -/
def usage (p : Parameter) : String := "--" ++ p.name ++ p.placeholder

/-- A parameter in a list, with its letter. -/
def entry (p : Parameter) : String :=
  (match p.letter? with
    | some c => String.ofList ['-', c, ',', ' ']
    | none => "    ") ++ p.usage

end Parameter

namespace Action

/-- The parameters of a kind of command. -/
def parameters : Action → List Parameter
  | .validate | .dot => [.graph, .help]
  | .schema => [.graph, .dataset, .help]
  | .rows => [.graph, .dataset, .batchSize, .seed, .limit, .help]

/-- What a kind of command does. -/
def about : Action → String
  | .validate => "Parse a graph YAML file and check every dataset's schema"
  | .schema => "Print the schema of one dataset"
  | .rows => "Evaluate one dataset and print its rows"
  | .dot => "Print the graph in Graphviz dot format"

/-- What a page says of a parameter. -/
def describe : Action → Parameter → String
  | .validate, .graph => "Path to the graph YAML file"
  | .schema, .dataset => "Dataset name"
  | _, .batchSize => "Rows per batch (overrides config)"
  | _, .seed => "Seed for sample/shuffle (overrides config)"
  | _, .limit => "Stop after this many batches"
  | _, .help => "Print help"
  | _, _ => ""

end Action

/-- A list in two columns. -/
def twoColumns (rows : List (String × String)) : String :=
  let width := rows.foldl (fun w row => max w row.1.length) 0
  String.join (rows.map fun row =>
    "  " ++ row.1 ++ String.ofList (List.replicate (width - row.1.length + 2) ' ') ++ row.2 ++ "\n")

/-- The word for the command that prints pages. -/
def helpWord : String := "help"

/-- What the command that prints pages does. -/
def helpAbout : String := "Print this message or the help of the given subcommand(s)"

/-- The page of the program. -/
def mainPage : String :=
  "Typed lazy transform graphs evaluated to Arrow batches\n\n"
    ++ "Usage: specgraph <COMMAND>\n\nCommands:\n"
    ++ twoColumns ((Action.all.map fun a => (a.name, a.about)) ++ [(helpWord, helpAbout)])
    ++ "\nOptions:\n" ++ twoColumns [(Parameter.help.entry, "Print help")]

/-- The page of a kind of command. -/
def Action.page (a : Action) : String :=
  let required := a.parameters.filter Parameter.isRequired
  let optional := a.parameters.filter fun p => !p.isRequired && p ≠ .help
  a.about ++ "\n\nUsage: specgraph " ++ a.name ++ (if optional.isEmpty then "" else " [OPTIONS]")
    ++ String.join (required.map fun p => " " ++ p.usage) ++ "\n\nOptions:\n"
    ++ twoColumns (a.parameters.map fun p => (p.entry, a.describe p))

/-- The page of the command that prints pages. -/
def helpPage : String :=
  helpAbout ++ "\n\nUsage: specgraph help [COMMAND]...\n\nArguments:\n"
    ++ twoColumns [("[COMMAND]...", "Print help for the subcommand(s)")]

end Lineage.Command
