import Lineage.Fault
import Lineage.Json.Record
import Lineage.Number.Reader
import Lineage.Text.Blank

set_option autoImplicit false

/-!
# Settings of the engine

Settings come in layers: defaults, the environment, a document, the command line. An upper layer
replaces what it sets.

## Main definitions

* `Lineage.Settings`: what the engine runs with.
* `Lineage.Settings.ofEnvironment`: the defaults under the environment.
* `Lineage.SettingsLayer`: settings that may be unset, of a document or a command line.
* `Lineage.Settings.validate`: refuses settings that cannot be used.
-/

namespace Lineage

/-- What the engine runs with. -/
structure Settings where
  /-- The number of rows of a batch where none is asked for. -/
  batchSize : Nat
  /-- The seed of samples and shuffles. -/
  seed : Option Nat
  /-- The name under which a query sees the rows it runs on. -/
  sqlTable : String
  deriving DecidableEq, Repr

/-- Settings that may be unset. -/
structure SettingsLayer where
  /-- The number of rows of a batch. -/
  batchSize : Option Nat
  /-- The seed of samples and shuffles. -/
  seed : Option Nat
  /-- The name under which a query sees the rows it runs on. -/
  sqlTable : Option String
  deriving DecidableEq, Repr

/-- Nothing is set. -/
def SettingsLayer.empty : SettingsLayer := ⟨none, none, none⟩

/-- The names of the members of settings. -/
def Settings.memberNames : List String := ["batch_size", "seed", "sql_table"]

namespace Settings

/-- Batches of ten thousand rows, no seed, the table name `self`. -/
def default : Settings := ⟨10000, none, "self"⟩

/-- The settings with what a layer sets. -/
def override (s : Settings) (layer : SettingsLayer) : Settings :=
  ⟨layer.batchSize.getD s.batchSize,
    match layer.seed with
    | some seed => some seed
    | none => s.seed,
    layer.sqlTable.getD s.sqlTable⟩

/-- What an environment sets; numbers that cannot be read and blank names are ignored. -/
def environmentLayer (environment : String → Option String) : SettingsLayer :=
  let number (name : String) := (environment name).bind (Number.natOfText? (Number.word64 - 1))
  ⟨number "SPECGRAPH_BATCH_SIZE", number "SPECGRAPH_SEED",
    (environment "SPECGRAPH_SQL_TABLE").bind fun text =>
      let name := Text.strip text
      if name = "" then none else some name⟩

/-- The defaults with what the environment sets. -/
def ofEnvironment (environment : String → Option String) : Settings :=
  default.override (environmentLayer environment)

/-- The settings with another batch size. -/
def withBatchSize (n : Nat) (s : Settings) : Settings := ⟨n, s.seed, s.sqlTable⟩

/-- The settings with a seed. -/
def withSeed (n : Nat) (s : Settings) : Settings := ⟨s.batchSize, some n, s.sqlTable⟩

/-- Batches must have rows and the table a name. -/
def validate (s : Settings) : Outcome Unit :=
  if s.batchSize = 0 then .error (.config "batch_size must be positive")
  else if s.sqlTable = "" then .error (.config "sql_table must not be empty")
  else .ok ()

/-- The object of the settings. -/
def toJson (s : Settings) : Json :=
  .object [("batch_size", Json.ofNat s.batchSize), ("seed", Json.optional Json.ofNat s.seed),
    ("sql_table", .string s.sqlTable)]

/-- The settings of an object or a list; missing members have their defaults. -/
def ofJson? (value : Json) : Option Settings := do
  let ms ← value.asRecord? memberNames
  some ⟨← Json.defaulted? "batch_size" default.batchSize Json.asNat64? ms,
    ← Json.nullable? "seed" Json.asNat64? ms,
    ← Json.defaulted? "sql_table" default.sqlTable Json.asString? ms⟩

end Settings

namespace SettingsLayer

/-- The object of a layer. -/
def toJson (s : SettingsLayer) : Json :=
  .object [("batch_size", Json.optional Json.ofNat s.batchSize),
    ("seed", Json.optional Json.ofNat s.seed), ("sql_table", Json.optional .string s.sqlTable)]

/-- The layer of an object or a list. -/
def ofJson? (value : Json) : Option SettingsLayer := do
  let ms ← value.asRecord? Settings.memberNames
  some ⟨← Json.nullable? "batch_size" Json.asNat64? ms, ← Json.nullable? "seed" Json.asNat64? ms,
    ← Json.nullable? "sql_table" Json.asString? ms⟩

end SettingsLayer

end Lineage
