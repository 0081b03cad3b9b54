import Lineage.Column.Grid
import Lineage.Command.Basic
import Lineage.Document.Graph
import Lineage.Engine.Basic
import Lineage.Schema.Outline
import Lineage.Ty.Render

set_option autoImplicit false

/-!
# Running commands

A command reads a graph document and reports on it. What it has printed before something goes wrong
stays printed.

## Main definitions

* `Lineage.Command.Surroundings`: what a command finds around it.
* `Lineage.Command.Report`: what a command prints, and what it complains of.
* `Lineage.Command.loadedSettings`, `Lineage.Command.shownSettings`: the settings of a run.
* `Lineage.Command.run`: the report of a command.
-/

namespace Lineage.Command

/-- What a command finds around it. -/
structure Surroundings where
  /-- The files. -/
  files : Files
  /-- The variables of the environment. -/
  environment : String → Option String
  /-- Where random draws start if no seed is set. -/
  entropy : Generator

/-- Why a command is not carried out to its end. -/
inductive Complaint where
  /-- Something is wrong with the document or its evaluation. -/
  | fault (cause : Fault)
  /-- The document cannot be read. -/
  | unread (reason : String)
  /-- The document has no dataset of a name. -/
  | noDataset (name : String)
  deriving DecidableEq, Repr

/-- The wording of a complaint. -/
def Complaint.message : Complaint → String
  | .fault cause => cause.message
  | .unread reason => reason
  | .noDataset name => "no dataset named '" ++ name ++ "'"

/-- What a command prints, and what it complains of. -/
structure Report where
  /-- What is printed. -/
  printed : String
  /-- The complaint, if there is one. -/
  complaint : Option Complaint
  deriving DecidableEq, Repr

namespace Report

/-- Nothing is printed. -/
def failed (complaint : Complaint) : Report := ⟨"", some complaint⟩

/-- All goes well. -/
def done (printed : String) : Report := ⟨printed, none⟩

/-- The report with more printed in front. -/
def after (printed : String) (r : Report) : Report := ⟨printed ++ r.printed, r.complaint⟩

/-- The report that an attempt leads to. -/
def ofAttempt {α : Type} (attempt : Except Complaint α) (report : α → Report) : Report :=
  match attempt with
  | .ok a => report a
  | .error complaint => failed complaint

end Report

/-- An outcome whose fault is complained of. -/
def attempt {α : Type} (outcome : Outcome α) : Except Complaint α := outcome.mapError .fault

/-- The text of a document. -/
def readDocument (s : Surroundings) (path : String) : Except Complaint String :=
  match s.files path with
  | .text content => .ok content
  | found => .error (.unread (found.refusal?.getD "Is a directory (os error 21)"))

/-- The sources of a command: files and nothing else. -/
def catalog (s : Surroundings) : Catalog := ⟨[], s.files⟩

/-- The types of sources without fields, told from their rows. -/
def typeSource (s : Surroundings) : Document.TypeSource := fun name uri =>
  ((catalog s).inferType uri).mapError fun cause => .invalidDataset name cause.message

/-- The settings of a document in an environment: those of the document over those of the
environment over the defaults. -/
def loadedSettings (environment : String → Option String) (document : SettingsLayer) :
    Outcome Settings := do
  let settings := (Settings.ofEnvironment environment).override document
  settings.validate
  .ok settings

/-- The settings under flags. -/
def shownSettings (settings : Settings) (flags : Flags) : Outcome Settings := do
  let settings := settings.override flags.layer
  settings.validate
  .ok settings

/-- The graph of a document, and the settings. -/
def load (s : Surroundings) (path : String) : Except Complaint (Document.Plan × Settings) := do
  let text ← readDocument s path
  let plan ← attempt (Document.planOfText Node.id (typeSource s) text)
  let settings ← attempt (loadedSettings s.environment plan.settings)
  .ok (plan, settings)

/-- The node of a dataset. -/
def findDataset (plan : Document.Plan) (name : String) : Except Complaint NodeId :=
  match plan.find? name with
  | some id => .ok id
  | none => .error (.noDataset name)

/-- What evaluates the nodes of a document. -/
def engine (s : Surroundings) (plan : Document.Plan) (settings : Settings) : Engine where
  settings := settings
  graph := plan.graph
  catalog := catalog s
  externals := .empty
  queries := Query.run
  entropy := s.entropy

/-- A line for each dataset with its type, and a last line; a dataset without schema ends the
report. -/
def typeLines (e : Engine) (last : String) : List (String × NodeId) → SchemaCache → Report
  | [], _ => .done last
  | (name, id) :: rest, cache =>
    match (e.schema id).run cache with
    | (.ok found, cache) =>
      (typeLines e last rest cache).after ("  " ++ name ++ ": " ++ found.ty.render ++ "\n")
    | (.error cause, _) => .failed (.fault cause)

/-- The report on the datasets of a document. -/
def validateReport (s : Surroundings) (graph : String) : Report :=
  .ofAttempt (load s graph) fun (plan, settings) =>
    let last := "✓ Graph is valid (" ++ toString plan.datasets.length ++ " datasets)\n"
    typeLines (engine s plan settings) last plan.datasets []

/-- The report on the schema of a dataset. -/
def schemaReport (s : Surroundings) (graph dataset : String) : Report :=
  .ofAttempt (do
    let (plan, settings) ← load s graph
    let id ← findDataset plan dataset
    attempt ((engine s plan settings).schema id |>.run []).1)
    fun found => .done found.document

/-- The report on batches: a grid for each, and the numbers of rows and batches. A limit is met when
there is one more batch; what comes after that is not looked at. -/
def gridReport (limit : Option Nat) (stream : BatchStream) : Report :=
  let shown := match limit with
    | some n => stream.batches.take n
    | none => stream.batches
  let last := toString (Batch.totalSize shown) ++ " rows in " ++ toString shown.length
    ++ " batches\n"
  let report : Report :=
    if shown.length < stream.batches.length then .done last
    else
      match stream.failure with
      | some cause => .failed (.fault cause)
      | none => .done last
  report.after (String.join (shown.map fun batch => batch.grid.render ++ "\n"))

/-- The report on the rows of a dataset. -/
def rowsReport (s : Surroundings) (graph dataset : String) (flags : Flags) : Report :=
  .ofAttempt (do
    let (plan, settings) ← load s graph
    let settings ← attempt (shownSettings settings flags)
    let id ← findDataset plan dataset
    attempt ((engine s plan settings).stream id settings.batchSize |>.run []).1)
    (gridReport flags.limit)

/-- The report on a graph. -/
def dotReport (s : Surroundings) (graph : String) : Report :=
  .ofAttempt (load s graph) fun (plan, _) => .done plan.graph.render

/-- The report of a command. -/
def run (s : Surroundings) : Command → Report
  | .validate graph => validateReport s graph
  | .schema graph dataset => schemaReport s graph dataset
  | .rows graph dataset flags => rowsReport s graph dataset flags
  | .dot graph => dotReport s graph

end Lineage.Command
