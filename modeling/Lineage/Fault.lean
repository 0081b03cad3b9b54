import Lineage.Path.Basic

set_option autoImplicit false

/-!
# Faults

Why an operation has no result. A fault belongs to one class and carries what its report needs;
`Fault.message` is the only place where reports are worded.

## Main definitions

* `Lineage.Fault`: the causes.
* `Lineage.Fault.message`: the report of a cause.
* `Lineage.Outcome`: a value or a fault.
-/

namespace Lineage

/-- Why an operation has no result. -/
inductive Fault where
  /-- Settings that cannot be used. -/
  | config (detail : String)
  /-- A type or schema that does not fit. -/
  | schema (detail : String)
  /-- The content of a node has no digest. -/
  | hashing (detail : String)
  /-- A request that breaks a rule of the graph. -/
  | invariant (detail : String)
  /-- A kind of transform or data that is not handled. -/
  | unsupported (kind : String)
  /-- A step of a path leads nowhere. -/
  | pathNotFound (path : Path) (label : String)
  /-- A path branches where one place has to be addressed. -/
  | ambiguousPath (path : Path)
  /-- A result without rows where one is needed. -/
  | emptyResult (detail : String)
  /-- A batch, column or value of another form than asked for. -/
  | wrongShape (detail : String)
  /-- Input that is not acceptable. -/
  | invalidInput (detail : String)
  /-- Columns that cannot be built, joined or converted. -/
  | columns
  /-- A failure while running. -/
  | execution (detail : String)
  /-- A query that cannot be read or run. -/
  | query (detail : String)
  /-- A failure of an external operation. -/
  | external (op : String) (detail : String)
  /-- A document that does not parse or does not decode. -/
  | document
  /-- A document refers to a dataset it has not defined. -/
  | unknownDataset (name : String)
  /-- A document defines a dataset twice. -/
  | duplicateDataset (name : String)
  /-- A dataset of a document is ill-formed. -/
  | invalidDataset (name : String) (detail : String)
  /-- The operation has no answer at all for its input. -/
  | abort
  deriving DecidableEq, Repr

namespace Fault

/-- The report of a fault. -/
def message : Fault → String
  | config detail => "Invalid configuration: " ++ detail
  | schema detail => "Schema error: " ++ detail
  | hashing detail => "Hashing error: " ++ detail
  | invariant detail => "Internal invariant failed: " ++ detail
  | unsupported kind => "Not implemented for transform kind '" ++ kind ++ "'"
  | pathNotFound path label => "Path not found: '" ++ label ++ "' in " ++ path.render
  | ambiguousPath path =>
    "Path " ++ path.render ++ " branches where a single address is required"
  | emptyResult detail => "Empty result: " ++ detail
  | wrongShape detail => "Wrong shape: " ++ detail
  | invalidInput detail => "Invalid input: " ++ detail
  | columns => "arrow error"
  | execution detail => "execution error: " ++ detail
  | query detail => "sql error: " ++ detail
  | external op detail => "external op '" ++ op ++ "': " ++ detail
  | document => "yaml"
  | unknownDataset name => "unknown dataset '" ++ name ++ "'"
  | duplicateDataset name => "dataset '" ++ name ++ "' is defined twice"
  | invalidDataset name detail => "dataset '" ++ name ++ "': " ++ detail
  | abort => "abort"

end Fault

/-- A value or the fault that kept it from being computed. -/
abbrev Outcome (α : Type) := Except Fault α

/-- A value that was found, or a fault. -/
def Outcome.ofOption {α : Type} (fault : Fault) : Option α → Outcome α
  | some a => .ok a
  | none => .error fault

end Lineage
