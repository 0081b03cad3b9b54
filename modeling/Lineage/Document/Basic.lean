import Lineage.Dict
import Lineage.Settings

set_option autoImplicit false

/-!
# Graph documents

A document describes a graph in the order of its datasets: sources with their fields, and results
of steps on datasets that come before them.

## Main definitions

* `Lineage.Document`: settings and datasets.
* `Lineage.Document.Dataset`, `Lineage.Document.FieldType`: datasets and the fields of sources.
* `Lineage.Document.Operation`, `Lineage.Document.Bound`: steps and the limits that filters set.
-/

namespace Lineage

namespace Document

/-- A field of a source. -/
structure FieldType where
  /-- The name. -/
  name : String
  /-- The word for the type. -/
  type : String
  /-- Whether values may be absent. -/
  nullable : Bool
  /-- The least number. -/
  least : Option Float
  /-- The greatest number. -/
  greatest : Option Float
  /-- The names of an enumeration. -/
  names : List String
  /-- Whether keys are unique. -/
  unique : Bool
  /-- The dotted path of the key that a key refers to. -/
  references : Option String

/-- Limits that a filter sets for one field. -/
structure Bound where
  /-- The least number. -/
  least : Option Float
  /-- The greatest number. -/
  greatest : Option Float
  /-- The names that stay. -/
  names : Option (List String)

/-- No limit. -/
def Bound.none : Bound := ⟨Option.none, Option.none, Option.none⟩

/-- A step on a dataset. -/
inductive Operation where
  /-- Keep rows within limits, given by the dotted names of fields, sorted by name. -/
  | filter (bounds : Dict Bound)
  /-- Keep fields with given dotted names. -/
  | project (columns : List String)
  /-- Keep the part under a dotted path. -/
  | getItem (path : String)
  /-- Keep rows drawn at random: so many, or a part of all. -/
  | sample (size : Option Nat) (fraction : Option Float)
  /-- Keep the rows from `start` up to but not including `stop`. -/
  | slice (start stop : Int)
  /-- Keep all rows. -/
  | extract (size : Nat) (seed : Option Nat)
  /-- All rows in random order. -/
  | shuffle
  /-- The result of a query. -/
  | selectSql (query : String)

/-- A dataset: a source, or the result of a step. -/
structure Dataset where
  /-- The name. -/
  name : String
  /-- A description, empty if there is none. -/
  doc : String
  /-- The address of a source. -/
  source : Option String
  /-- The fields of a source; told from its rows if they are missing. -/
  fields : Option (List FieldType)
  /-- The dotted paths of the primary keys of a source. -/
  primaryKeys : List String
  /-- The name of the dataset that a step is on. -/
  origin : Option String
  /-- The step. -/
  operation : Option Operation

end Document

/-- A graph document. -/
structure Document where
  /-- Settings. -/
  settings : SettingsLayer
  /-- The datasets in order. -/
  datasets : List Document.Dataset

end Lineage
