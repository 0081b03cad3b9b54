import Lineage.Settings

set_option autoImplicit false

/-!
# Commands

What can be asked for on the command line: to check a graph document, to show the schema or the rows
of one of its datasets, to draw it.

## Main definitions

* `Lineage.Command`: the commands.
* `Lineage.Command.Flags`: the flags that choose how rows are shown.
* `Lineage.Command.Action`: the words for the commands.
-/

namespace Lineage

namespace Command

/-- How rows are shown. -/
structure Flags where
  /-- The number of rows of a batch. -/
  batchSize : Option Nat
  /-- The seed of samples and shuffles. -/
  seed : Option Nat
  /-- After how many batches to stop. -/
  limit : Option Nat
  deriving DecidableEq, Repr

/-- No flag is given. -/
def Flags.none : Flags := ⟨.none, .none, .none⟩

/-- The settings that the flags set. -/
def Flags.layer (flags : Flags) : SettingsLayer := ⟨flags.batchSize, flags.seed, .none⟩

/-- The kinds of commands. -/
inductive Action where
  /-- Check the schema of every dataset. -/
  | validate
  /-- Print the schema of a dataset. -/
  | schema
  /-- Print the rows of a dataset. -/
  | rows
  /-- Print the graph. -/
  | dot
  deriving DecidableEq, Repr

namespace Action

/-- The kinds in the order in which they are listed. -/
def all : List Action := [.validate, .schema, .rows, .dot]

/-- The word for a kind. -/
def name : Action → String
  | .validate => "validate"
  | .schema => "schema"
  | .rows => "show"
  | .dot => "dot"

/-- The kind of a word. -/
def ofName? (name : String) : Option Action := all.find? fun action => action.name == name

end Action

end Command

/-- What is asked for; `graph` is the path of a graph document. -/
inductive Command where
  /-- Check the schema of every dataset. -/
  | validate (graph : String)
  /-- Print the schema of a dataset. -/
  | schema (graph dataset : String)
  /-- Print the rows of a dataset. -/
  | rows (graph dataset : String) (flags : Command.Flags)
  /-- Print the graph. -/
  | dot (graph : String)
  deriving DecidableEq, Repr

/-- The path of the graph document. -/
def Command.graph : Command → String
  | .validate graph => graph
  | .schema graph _ => graph
  | .rows graph _ _ => graph
  | .dot graph => graph

end Lineage
