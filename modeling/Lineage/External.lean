import Lineage.Column.Batch
import Lineage.Dict
import Lineage.Json.Writer

set_option autoImplicit false

/-!
# External operations

Operations from outside consume and return tables and plain values. They are registered under a
library and a name.

## Main definitions

* `Lineage.Datum`: a table or a value.
* `Lineage.ExternalInput`, `Lineage.ExternalOperation`: what an operation gets, and what it is.
* `Lineage.Registry`: operations under their names.
-/

namespace Lineage

/-- What external operations consume and return. -/
inductive Datum where
  /-- A table. -/
  | table (content : Batch)
  /-- A plain value. -/
  | value (content : Json)

namespace Datum

/-- The word for the kind of a datum. -/
def kindName : Datum → String
  | .table _ => "table"
  | .value _ => "value"

/-- The table that an operation has returned. -/
def asTable (op : String) : Datum → Outcome Batch
  | .table b => .ok b
  | .value v =>
    .error (.wrongShape ("external op '" ++ op ++ "' returned a value (" ++ v.render
      ++ ") where a table was expected"))

/-- The value that an operation has returned. -/
def asValue (op : String) : Datum → Outcome Json
  | .value v => .ok v
  | .table _ =>
    .error (.wrongShape ("external op '" ++ op
      ++ "' returned a table where a value was expected"))

end Datum

/-- What an external operation gets. -/
structure ExternalInput where
  /-- The arguments written in the transform. -/
  arguments : Json
  /-- The positional parents. -/
  parents : List Datum
  /-- The named parents. -/
  named : Dict Datum

/-- An external operation. -/
abbrev ExternalOperation := ExternalInput → Outcome Datum

/-- Operations under their full names, the library and the name with a point between them. Of two
entries with one name the first counts. -/
structure Registry where
  /-- The operations. -/
  operations : List (String × ExternalOperation)

namespace Registry

/-- No operation. -/
def empty : Registry := ⟨[]⟩

/-- The full name of an operation. -/
def fullName (library op : String) : String := library ++ "." ++ op

/-- The operation under a name. -/
def find (r : Registry) (library op : String) : Outcome ExternalOperation :=
  let name := fullName library op
  Outcome.ofOption (.external name "not registered")
    ((r.operations.find? fun entry => entry.1 == name).map Prod.snd)

/-- The names of the operations, each once and sorted. -/
def ids (r : Registry) : List String :=
  (Dict.ofList (r.operations.map fun entry => (entry.1, ()))).map Prod.fst

/-- The text of a registry: the names of its operations between quotes. -/
def render (r : Registry) : String :=
  let names := r.ids.map Text.quoted
  "ExternalRegistry \x7b ops: [" ++ ColumnType.commaSeparated names ++ "] \x7d"

end Registry

end Lineage
