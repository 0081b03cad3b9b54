import Mathlib.Data.Fintype.EquivFin
import Lineage.Command.Run
import Lineage.Proofs.Document.Mirror
import Lineage.Proofs.Number.Whole

set_option autoImplicit false

/-!
# The settings of a run

Settings come in layers: the flags of a command line over a document over the environment over the
defaults. For each of them the first layer that sets it counts. Rows are shown with the settings of
all layers, but these are looked at twice: once without the flags, when the document is loaded, and
once with them. So a batch size of zero below the flags is refused even where a flag overrides it.

## Main definitions

* `Lineage.SettingsLayer.SetBy`: a layer says what an environment sets.
* `Lineage.Settings.ofLayers`: the settings of layers.
* `Lineage.Settings.Usable`: settings that can be used.
* `Lineage.Command.rowsUnder`: the report on the rows of a dataset under settings.
* `Lineage.Command.RefusesSettings`: whatever rows are asked for, the settings are complained of.

## Main results

* `Lineage.Number.natOfText?_eq_some_iff`: which numbers are read from a text.
* `Lineage.SettingsLayer.setBy_iff`: there is one layer that says what an environment sets.
* `Lineage.Settings.ofLayers_cons`: a layer overrides those below it.
* `Lineage.Command.rows_under_layers`: which settings rows are shown with, and when the settings are
  refused.
-/

namespace Lineage

/-! ### What an environment sets -/

namespace Number

/-- A text writes a number: in digits, with a plus in front or without. -/
def Writes (text : String) (n : ℕ) : Prop :=
  ∃ digits, (text.toList = digits ∨ text.toList = '+' :: digits) ∧ digits ≠ [] ∧
    (∀ c ∈ digits, isDigit c = true) ∧ natOfDigits digits = n

/-- **Numbers that are read from a text**: what it writes, up to a limit. -/
theorem natOfText?_eq_some_iff {limit n : ℕ} {text : String} :
    natOfText? limit text = some n ↔ Writes text n ∧ n ≤ limit := by
  rw [natOfText?, Option.bind_eq_some_iff]
  constructor
  · rintro ⟨k, hread, hlimit⟩
    split at hlimit
    · rename_i hle
      cases hlimit
      refine ⟨⟨_, ?_, Binary64.natOfDigits?_eq_some_iff.mp hread⟩, hle⟩
      split
      · rename_i rest htext
        exact Or.inr htext
      · exact Or.inl rfl
    · cases hlimit
  · rintro ⟨⟨digits, htext, hnumber⟩, hle⟩
    refine ⟨n, ?_, if_pos hle⟩
    rcases htext with htext | htext
    · rw [htext]
      split
      · -- A plus is no digit.
        exact absurd (hnumber.2.1 '+' List.mem_cons_self) (by decide)
      · exact Binary64.natOfDigits?_eq_some_iff.mpr hnumber
    · rw [htext]
      exact Binary64.natOfDigits?_eq_some_iff.mpr hnumber

end Number

namespace SettingsLayer

/-- A layer says what an environment sets: numbers of 64 bits, and the name of the table without
the blanks around it. Texts that are none of these set nothing. -/
structure SetBy (layer : SettingsLayer) (environment : String → Option String) : Prop where
  /-- The number of rows of a batch. -/
  batchSize : ∀ n, layer.batchSize = some n ↔
    ∃ text, environment "SPECGRAPH_BATCH_SIZE" = some text ∧ Number.Writes text n ∧ n < 2 ^ 64
  /-- The seed of samples and shuffles. -/
  seed : ∀ n, layer.seed = some n ↔
    ∃ text, environment "SPECGRAPH_SEED" = some text ∧ Number.Writes text n ∧ n < 2 ^ 64
  /-- The name under which a query sees the rows it runs on. -/
  sqlTable : ∀ name, layer.sqlTable = some name ↔
    ∃ text, environment "SPECGRAPH_SQL_TABLE" = some text ∧ Text.strip text = name ∧ name ≠ ""

variable {layer layer' : SettingsLayer} {environment : String → Option String}

/-- What an environment sets is determined. -/
lemma SetBy.unique (h : layer.SetBy environment) (h' : layer'.SetBy environment) :
    layer = layer' := by
  obtain ⟨batchSize, seed, sqlTable⟩ := layer
  obtain ⟨batchSize', seed', sqlTable'⟩ := layer'
  rw [mk.injEq]
  exact ⟨Option.ext fun n => (h.batchSize n).trans (h'.batchSize n).symm,
    Option.ext fun n => (h.seed n).trans (h'.seed n).symm,
    Option.ext fun name => (h.sqlTable name).trans (h'.sqlTable name).symm⟩

/-- The number that a variable holds. -/
lemma bind_natOfText?_eq_some_iff {held : Option String} {n : ℕ} :
    held.bind (Number.natOfText? (Number.word64 - 1)) = some n ↔
      ∃ text, held = some text ∧ Number.Writes text n ∧ n < 2 ^ 64 := by
  have hlimit : n ≤ Number.word64 - 1 ↔ n < 2 ^ 64 := by
    unfold Number.word64
    omega
  simp only [Option.bind_eq_some_iff, Number.natOfText?_eq_some_iff, hlimit]

/-- The layer that is read from an environment says what it sets. -/
lemma setBy_environmentLayer (environment : String → Option String) :
    (Settings.environmentLayer environment).SetBy environment := by
  refine ⟨fun n => bind_natOfText?_eq_some_iff, fun n => bind_natOfText?_eq_some_iff,
    fun name => ?_⟩
  simp only [Settings.environmentLayer, Option.bind_eq_some_iff]
  refine exists_congr fun text => and_congr_right fun _ => ?_
  split
  · rename_i hblank
    simp [hblank, eq_comm]
  · rename_i hname
    rw [Option.some.injEq]
    exact (and_iff_left_of_imp fun heq => heq ▸ hname).symm

/-- **What an environment sets** is said by the layer that is read from it, and by no other.

**Proof sketch.** What an environment sets, it sets in one way only, and the layer that is
read from it says what it sets. -/
theorem setBy_iff : layer.SetBy environment ↔ layer = Settings.environmentLayer environment :=
  ⟨fun h => h.unique (setBy_environmentLayer environment),
    fun h => h ▸ setBy_environmentLayer environment⟩

end SettingsLayer

/-! ### Layers over layers -/

namespace Settings

/-- The settings of layers, the uppermost first: of each what the first layer says that sets it,
and the default if none does. -/
def ofLayers (layers : List SettingsLayer) : Settings where
  batchSize := (layers.findSome? SettingsLayer.batchSize).getD default.batchSize
  seed := (layers.findSome? SettingsLayer.seed).or default.seed
  sqlTable := (layers.findSome? SettingsLayer.sqlTable).getD default.sqlTable

/-- **A layer overrides those below it.** -/
theorem ofLayers_cons (layer : SettingsLayer) (layers : List SettingsLayer) :
    ofLayers (layer :: layers) = (ofLayers layers).override layer := by
  obtain ⟨batchSize, seed, sqlTable⟩ := layer
  cases batchSize <;> cases seed <;> cases sqlTable <;> rfl

/-- Settings that can be used: batches have rows, and the table has a name. -/
structure Usable (s : Settings) : Prop where
  /-- Batches have rows. -/
  batchSize : s.batchSize ≠ 0
  /-- The table has a name. -/
  sqlTable : s.sqlTable ≠ ""

instance (s : Settings) : Decidable s.Usable :=
  decidable_of_iff (s.batchSize ≠ 0 ∧ s.sqlTable ≠ "")
    ⟨fun h => ⟨h.1, h.2⟩, fun h => ⟨h.batchSize, h.sqlTable⟩⟩

variable {s : Settings}

/-- Settings that can be used pass. -/
lemma Usable.validate_eq (h : s.Usable) : s.validate = .ok () := by
  rw [validate, if_neg h.batchSize, if_neg h.sqlTable]

/-- Settings that cannot be used are complained of. -/
lemma exists_validate_eq_error (h : ¬ s.Usable) :
    ∃ detail, s.validate = .error (.config detail) := by
  unfold validate
  split
  · exact ⟨_, rfl⟩
  · rename_i hrows
    split
    · exact ⟨_, rfl⟩
    · rename_i hname
      exact absurd ⟨hrows, hname⟩ h

end Settings

/-! ### Plans of documents -/

namespace Document

/-- A plan has the settings of its document. -/
lemma settings_of_plan {idOf : Node → NodeId} {infer : TypeSource} {doc : Document} {p : Plan}
    (h : plan idOf infer doc = .ok p) : p.settings = doc.settings := by
  refine Outcome.foldlM_induction (P := fun p : Plan => p.settings = doc.settings)
    (fun p d p' hp hadded => ?_) rfl h
  obtain ⟨-, node, -, rfl⟩ := addDataset_eq_ok hadded
  exact hp

/-- Some names are those of no dataset. -/
lemma Plan.exists_find?_eq_none (p : Plan) : ∃ name, p.find? name = none := by
  obtain ⟨name, hname⟩ := Infinite.exists_notMem_finset (p.datasets.map Prod.fst).toFinset
  refine ⟨name, Option.map_eq_none_iff.mpr (List.find?_eq_none.mpr fun entry hentry heq => ?_)⟩
  rw [List.mem_toFinset, ← beq_iff_eq.mp heq] at hname
  exact hname (List.mem_map_of_mem hentry)

end Document

namespace Command

open Settings (ofLayers)

variable {layers : List SettingsLayer}

/-- Flags do not name the table. So of settings that can be used with them, all that may be wrong
without them is the number of rows of a batch. -/
lemma usable_and_usable_iff {flags : Flags} :
    (ofLayers layers).Usable ∧ (ofLayers (flags.layer :: layers)).Usable ↔
      (ofLayers (flags.layer :: layers)).Usable ∧ (ofLayers layers).batchSize ≠ 0 := by
  have htable : (ofLayers (flags.layer :: layers)).sqlTable = (ofLayers layers).sqlTable := rfl
  constructor
  · rintro ⟨hbefore, hfinal⟩
    exact ⟨hfinal, hbefore.batchSize⟩
  · rintro ⟨hfinal, hrows⟩
    exact ⟨⟨hrows, htable ▸ hfinal.sqlTable⟩, hfinal⟩

/-- The settings of a document in an environment are those of the two layers, if they pass. -/
lemma loadedSettings_eq (environment : String → Option String) (document : SettingsLayer) :
    loadedSettings environment document =
      (ofLayers [document, Settings.environmentLayer environment]).validate >>= fun _ =>
        .ok (ofLayers [document, Settings.environmentLayer environment]) := by
  rw [Settings.ofLayers_cons, Settings.ofLayers_cons]
  rfl

/-- The settings under flags are those with a layer more, if they pass. -/
lemma shownSettings_eq (flags : Flags) : shownSettings (ofLayers layers) flags =
    (ofLayers (flags.layer :: layers)).validate >>= fun _ =>
      .ok (ofLayers (flags.layer :: layers)) := by
  rw [Settings.ofLayers_cons]
  rfl

/-! ### Reports on rows -/

/-- The report on the rows of a dataset under settings. -/
def rowsUnder (s : Surroundings) (plan : Document.Plan) (settings : Settings) (dataset : String)
    (limit : Option ℕ) : Report :=
  .ofAttempt (do
    let id ← findDataset plan dataset
    attempt ((engine s plan settings).stream id settings.batchSize |>.run []).1)
    (gridReport limit)

/-- Whatever rows are asked for, nothing is printed and the settings are complained of. -/
def RefusesSettings (s : Surroundings) (graph : String) (flags : Flags) : Prop :=
  ∀ dataset, ∃ detail, run s (.rows graph dataset flags) = .failed (.fault (.config detail))

section Read

variable {s : Surroundings} {graph text : String} {doc : Document} {plan : Document.Plan}
  (htext : readDocument s graph = .ok text) (hdoc : Document.ofText? text = some doc)
  (hplan : Document.plan Node.id (typeSource s) doc = .ok plan)

include htext hdoc hplan

/-- What is loaded of a document that can be read: its plan, with settings that have passed. -/
lemma load_eq : load s graph =
    (attempt (loadedSettings s.environment doc.settings)).map fun settings => (plan, settings) := by
  have hread : attempt (Document.planOfText Node.id (typeSource s) text) = .ok plan := by
    rw [Document.planOfText, hdoc, Outcome.ofOption, Outcome.ok_bind, hplan]
    rfl
  rw [load, htext, ← Document.settings_of_plan hplan]
  show (attempt (Document.planOfText Node.id (typeSource s) text) >>= fun plan => _) = _
  rw [hread]
  show (attempt (loadedSettings s.environment plan.settings) >>= fun settings => _) = _
  cases loadedSettings s.environment plan.settings <;> rfl

variable {environment : SettingsLayer} (henvironment : environment.SetBy s.environment)
  (flags : Flags)

include henvironment

/-- **What is done with the settings**: they are looked at without the flags and with them, and
then rows are shown under the settings with the flags.

**Proof sketch.** The document is read once, which is what the plan and the settings come from
(`load_eq`). Each time settings are asked for they are those of the layers so far, if they
pass. -/
theorem run_rows_eq (dataset : String) : run s (.rows graph dataset flags) =
    .ofAttempt (attempt (do
      (ofLayers [doc.settings, environment]).validate
      (ofLayers [flags.layer, doc.settings, environment]).validate)) fun _ =>
        rowsUnder s plan (ofLayers [flags.layer, doc.settings, environment]) dataset
          flags.limit := by
  show rowsReport s graph dataset flags = _
  obtain rfl := SettingsLayer.setBy_iff.mp henvironment
  rw [rowsReport, load_eq htext hdoc hplan, loadedSettings_eq]
  cases (ofLayers [doc.settings, Settings.environmentLayer s.environment]).validate with
  | error cause => rfl
  | ok _ =>
    show Report.ofAttempt (attempt (shownSettings (ofLayers _) flags) >>= fun settings => _) _ = _
    rw [shownSettings_eq]
    cases (ofLayers [flags.layer, doc.settings,
      Settings.environmentLayer s.environment]).validate <;> rfl

/-- Settings that can be used with and without the flags are those that rows are shown with. -/
lemma run_rows_of_usable (hbefore : (ofLayers [doc.settings, environment]).Usable)
    (hfinal : (ofLayers [flags.layer, doc.settings, environment]).Usable) (dataset : String) :
    run s (.rows graph dataset flags) =
      rowsUnder s plan (ofLayers [flags.layer, doc.settings, environment]) dataset
        flags.limit := by
  rw [run_rows_eq htext hdoc hplan henvironment flags, hbefore.validate_eq, hfinal.validate_eq]
  rfl

/-- **Settings are refused** if they cannot be used without the flags or with them.

**Proof sketch.** Where the settings pass, a dataset that the document does not have is
complained of by its name, and not by the settings; and where they do not pass, they are
complained of before the dataset is looked for. -/
theorem refusesSettings_iff : RefusesSettings s graph flags ↔
    ¬ ((ofLayers [doc.settings, environment]).Usable ∧
      (ofLayers [flags.layer, doc.settings, environment]).Usable) := by
  constructor
  · rintro hrefuses ⟨hbefore, hfinal⟩
    -- Of a dataset that the document does not have it is the name that is complained of.
    obtain ⟨name, hname⟩ := plan.exists_find?_eq_none
    obtain ⟨detail, hdetail⟩ := hrefuses name
    rw [run_rows_of_usable htext hdoc hplan henvironment flags hbefore hfinal, rowsUnder,
      findDataset, hname] at hdetail
    cases hdetail
  · intro h dataset
    rw [run_rows_eq htext hdoc hplan henvironment flags]
    by_cases hbefore : (ofLayers [doc.settings, environment]).Usable
    · obtain ⟨detail, hdetail⟩ :=
        Settings.exists_validate_eq_error fun hfinal => h ⟨hbefore, hfinal⟩
      rw [hbefore.validate_eq, Outcome.ok_bind, hdetail]
      exact ⟨detail, rfl⟩
    · obtain ⟨detail, hdetail⟩ := Settings.exists_validate_eq_error hbefore
      rw [hdetail, Outcome.error_bind]
      exact ⟨detail, rfl⟩

/-- **Rows under layers of settings.** Let a document be read and planned, in an environment that
sets some layer. The settings are refused, whatever rows are asked for, if and only if those of the
flags over the document over the environment over the defaults cannot be used, or the number of rows
of a batch is zero without the flags; and if they are not refused, then these are the settings that
rows are shown with.

**Proof sketch.** The settings are looked at twice, and refused if they do not pass both times
(`refusesSettings_iff`). Since no flag names the table, only the number of rows of a batch can
be wrong without the flags and right with them (`usable_and_usable_iff`). -/
theorem rows_under_layers :
    (RefusesSettings s graph flags ↔
      ¬ (ofLayers [flags.layer, doc.settings, environment]).Usable ∨
        (ofLayers [doc.settings, environment]).batchSize = 0) ∧
    (¬ RefusesSettings s graph flags → ∀ dataset, run s (.rows graph dataset flags) =
      rowsUnder s plan (ofLayers [flags.layer, doc.settings, environment]) dataset
        flags.limit) := by
  rw [refusesSettings_iff htext hdoc hplan henvironment flags, not_not]
  refine ⟨?_, fun ⟨hbefore, hfinal⟩ dataset =>
    run_rows_of_usable htext hdoc hplan henvironment flags hbefore hfinal dataset⟩
  rw [usable_and_usable_iff, not_and_or, not_not]

end Read

/-! ### Batches of five rows -/

/-- A document about stock. -/
def stockText : String :=
  "config:\n"
    ++ "  seed: 11\n"
    ++ "datasets:\n"
    ++ "- name: stock\n"
    ++ "  source: file://stock.csv\n"
    ++ "  fields:\n"
    ++ "  - name: units\n"
    ++ "    type: integer\n"

/-- The document of the text. -/
def stockDocument : Document where
  settings := ⟨none, some 11, none⟩
  datasets := [⟨"stock", "", some "file://stock.csv",
    some [⟨"units", "integer", false, none, none, [], false, none⟩], [], none, none⟩]

/-- The stock. -/
def stockNode : Node :=
  .ofOrigin "stock" .dataset (.source "file://stock.csv"
    (.ofTy "stock" (.struct [("units", .integer Number.least64 Number.greatest64)])))

/-- The plan of the document. -/
def stockPlan : Document.Plan where
  graph := ⟨[(Node.id stockNode, stockNode)]⟩
  settings := ⟨none, some 11, none⟩
  datasets := [("stock", Node.id stockNode)]

/-- The document in an environment that names the table, says how many rows a batch has, and has a
seed that is no number. -/
def stockAround (rows : String) : Surroundings where
  files := fun path =>
    if path = "graph.yaml" then .text stockText
    else if path = "stock.csv" then .text "units\n1\n2\n"
    else .missing
  environment := fun name =>
    if name = "SPECGRAPH_BATCH_SIZE" then some rows
    else if name = "SPECGRAPH_SEED" then some "eleven"
    else if name = "SPECGRAPH_SQL_TABLE" then some " rows "
    else none
  entropy := .ofSeed 0

/-- Batches of five rows are asked for. -/
def fiveRows : Flags := ⟨some 5, none, none⟩

/-- The text is found. -/
lemma readDocument_stock (rows : String) :
    readDocument (stockAround rows) "graph.yaml" = .ok stockText := rfl

set_option maxRecDepth 2000 in
/-- The document is read from the text. -/
lemma ofText?_stockText : Document.ofText? stockText = some stockDocument := by cbv

/-- The document is planned. -/
lemma plan_stock (rows : String) :
    Document.plan Node.id (typeSource (stockAround rows)) stockDocument = .ok stockPlan := rfl

/-- Five rows over eight, the seed of the document over one that is no number, and the table of the
environment. -/
theorem rows_under_layers_stock :
    readDocument (stockAround "+8") "graph.yaml" = .ok stockText ∧
    Document.ofText? stockText = some stockDocument ∧
    Document.plan Node.id (typeSource (stockAround "+8")) stockDocument = .ok stockPlan ∧
    SettingsLayer.SetBy ⟨some 8, none, some "rows"⟩ (stockAround "+8").environment ∧
    ¬ RefusesSettings (stockAround "+8") "graph.yaml" fiveRows ∧
    ∀ dataset, run (stockAround "+8") (.rows "graph.yaml" dataset fiveRows) =
      rowsUnder (stockAround "+8") stockPlan ⟨5, some 11, "rows"⟩ dataset none := by
  have hset : SettingsLayer.SetBy ⟨some 8, none, some "rows"⟩ (stockAround "+8").environment :=
    SettingsLayer.setBy_iff.mpr (by decide)
  obtain ⟨hrefused, hshown⟩ := rows_under_layers (readDocument_stock "+8") ofText?_stockText
    (plan_stock "+8") hset fiveRows
  have haccepted : ¬ RefusesSettings (stockAround "+8") "graph.yaml" fiveRows := by
    rw [hrefused]
    decide
  exact ⟨readDocument_stock "+8", ofText?_stockText, plan_stock "+8", hset, haccepted,
    hshown haccepted⟩

/-- **A flag does not make up for a zero below it**: the settings of all layers can be used, and
are refused. -/
theorem refusesSettings_overridden_zero :
    readDocument (stockAround "0") "graph.yaml" = .ok stockText ∧
    Document.ofText? stockText = some stockDocument ∧
    Document.plan Node.id (typeSource (stockAround "0")) stockDocument = .ok stockPlan ∧
    SettingsLayer.SetBy ⟨some 0, none, some "rows"⟩ (stockAround "0").environment ∧
    ¬ (RefusesSettings (stockAround "0") "graph.yaml" fiveRows ↔
      ¬ (ofLayers [fiveRows.layer, stockDocument.settings,
        ⟨some 0, none, some "rows"⟩]).Usable) := by
  have hset : SettingsLayer.SetBy ⟨some 0, none, some "rows"⟩ (stockAround "0").environment :=
    SettingsLayer.setBy_iff.mpr (by decide)
  have hrefused : RefusesSettings (stockAround "0") "graph.yaml" fiveRows :=
    (refusesSettings_iff (readDocument_stock "0") ofText?_stockText (plan_stock "0") hset
      fiveRows).mpr (by decide)
  have husable : (ofLayers [fiveRows.layer, stockDocument.settings,
      ⟨some 0, none, some "rows"⟩]).Usable := by decide
  exact ⟨readDocument_stock "0", ofText?_stockText, plan_stock "0", hset,
    fun h => h.mp hrefused husable⟩

end Command

end Lineage
