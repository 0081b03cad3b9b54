import Lineage.Proofs.Ty.Branches
import Lineage.Proofs.Ty.Selected

set_option autoImplicit false

/-!
# Nodes of a path that are overlooked

The parts at the ends of a path are looked for below each of its nodes. To cut a type down, only the
first node with the name of a member is followed. Where nodes side by side have one label, those
behind the first are overlooked, and nothing is said if what they ask for is not there.

## Main definitions

* `Lineage.Ty.Overlooks`: the nodes that are overlooked.
* `Lineage.Ty.DiffersByOverlooked`: what there is at the ends of a path, by what can be cut down to
  it and by the nodes that are overlooked.

## Main results

* `Lineage.Ty.exists_subTypesBelow_iff_selectBelow`: where both find their way, node by node.
* `Lineage.Ty.not_overlooks_of_distinctLabels`: where no node is overlooked.
* `Lineage.Ty.exists_subTypes_iff_select`: when there are parts at the ends of a path that a type
  can be cut down to.
-/

namespace Lineage.Ty

variable {t part : Ty} {p node skipped : Path} {full : Path} {nodes : List Path} {info : Info}
  {form : Form} {fields : List (String × Ty)}

/-! ### Nodes behind others of their label -/

/-- A node that selects a part is overlooked where a type is cut down to a path. -/
inductive Overlooks : Ty → Path → Ty → Path → Prop
  /-- Another node of its label stands in front of it. -/
  | here {info : Info} {form : Form} {fields : List (String × Ty)} {part : Ty} {p node : Path}
      (hnode : node ∈ p.subPaths) (hfirst : nodeAt? node.label p.subPaths ≠ some node)
      (found : lookup? node.label fields = some part) :
      Overlooks (.members info form fields) p part node
  /-- Further down, below a node that is followed. -/
  | further {t next part : Ty} {p node skipped : Path}
      (hfirst : nodeAt? node.label p.subPaths = some node)
      (hstep : t.step? node.label = some next) (below : Overlooks next node part skipped) :
      Overlooks t p part skipped

/-- A path without steps has no node that could be overlooked. -/
lemma not_overlooks_nil {label : String} : ¬Overlooks t (.node label []) part skipped := by
  intro h
  cases h with
  | here hnode _ _ => cases hnode
  | further hfirst _ _ => cases hfirst

/-- The only node below a wrapped type is followed. -/
lemma overlooks_wrapped_iff {wrapper : Wrapper} {inner : Ty} {label : String} :
    Overlooks (.wrapped info wrapper inner) (.node label [node]) part skipped ↔
      Overlooks inner node part skipped := by
  constructor
  · intro h
    cases h with
    | further hfirst hstep below =>
      obtain rfl := List.mem_singleton.mp (mem_and_label_of_nodeAt? hfirst).1
      cases hstep
      exact below
  · exact .further (List.find?_cons_of_pos (beq_self_eq_true _)) rfl

/-- **Where nodes side by side have different labels** none is overlooked. -/
theorem not_overlooks_of_distinctLabels (hlabels : p.DistinctLabels) :
    ¬Overlooks t p part skipped := by
  intro h
  induction h with
  | here hnode hfirst found =>
    obtain ⟨hnodup, -⟩ := hlabels
    exact hfirst (nodeAt?_of_mem hnodup hnode)
  | further hfirst hstep below ih =>
    obtain ⟨-, hbelow⟩ := hlabels
    exact ih (hbelow _ (mem_and_label_of_nodeAt? hfirst).1)

/-! ### Members that are found -/

/-- There are parts at the ends of nodes that select members if each node selects one in which there
are parts. -/
lemma exists_subTypesBelow_members_iff :
    (∃ parts, subTypesBelow full (node :: nodes) (.members info form fields) = .ok parts) ↔
      ∀ other ∈ node :: nodes, ∃ part, lookup? other.label fields = some part ∧
        ∃ parts, subTypesBelow full other.subPaths part = .ok parts := by
  have hmap :
      (∃ parts, subTypesBelow full (node :: nodes) (.members info form fields) = .ok parts) ↔
        ∃ found, (node :: nodes).mapM (subTypesOfMember full fields) = .ok found := by
    rw [subTypesBelow_members]
    constructor
    · rintro ⟨_, h⟩
      obtain ⟨found, hfound, -⟩ := Outcome.map_eq_ok.mp h
      exact ⟨found, hfound⟩
    · rintro ⟨found, hfound⟩
      exact ⟨_, Outcome.map_eq_ok.mpr ⟨found, hfound, rfl⟩⟩
  rw [hmap, Outcome.exists_mapM_eq_ok_iff]
  refine forall₂_congr fun other _ => ?_
  simp only [subTypesOfMember_eq_ok, ← exists_and_left]
  exact exists_comm

/-- A struct or union with different names is cut down if each node selects a member, and the first
node of each label selects one that can be cut down. -/
lemma exists_selectBelow_members_iff (hnodup : (fields.map Prod.fst).Nodup) :
    (∃ left, selectBelow full (.members info form fields) (node :: nodes) = .ok left) ↔
      ∀ other ∈ node :: nodes, ∃ part, lookup? other.label fields = some part ∧
        (nodeAt? other.label (node :: nodes) = some other →
          ∃ left, selectBelow full part other.subPaths = .ok left) := by
  constructor
  · rintro ⟨left, h⟩ other hother
    obtain ⟨hknown, remaining, hmembers, -⟩ := selectBelow_members_eq_ok.mp h
    obtain ⟨part, found⟩ := hknown other hother
    exact ⟨part, found,
      exists_selectMembers_iff.mp ⟨remaining, hmembers⟩ _ (mem_of_lookup? found) other⟩
  · intro h
    have hmembers : ∃ remaining, selectMembers full (node :: nodes) fields = .ok remaining := by
      refine exists_selectMembers_iff.mpr ?_
      rintro ⟨name, whole⟩ hfield first hfirst
      obtain ⟨hmem, rfl⟩ := mem_and_label_of_nodeAt? hfirst
      obtain ⟨part, found, hpart⟩ := h first hmem
      cases found.symm.trans (lookup?_of_mem hnodup hfield)
      exact hpart hfirst
    obtain ⟨remaining, hremaining⟩ := hmembers
    refine ⟨_, selectBelow_members_eq_ok.mpr ⟨fun other hother => ?_, remaining, hremaining, rfl⟩⟩
    obtain ⟨part, found, -⟩ := h other hother
    exact ⟨part, found⟩

/-- A wrapped type is cut down below one node if the type inside can be cut down to the node. -/
lemma exists_selectBelow_wrapped_iff {wrapper : Wrapper} {inner : Ty} :
    (∃ left, selectBelow full (.wrapped info wrapper inner) [node] = .ok left) ↔
      ∃ left, selectBelow full inner node.subPaths = .ok left := by
  rw [selectBelow]
  constructor
  · rintro ⟨_, h⟩
    obtain ⟨left, hleft, -⟩ := Outcome.map_eq_ok.mp h
    exact ⟨left, hleft⟩
  · rintro ⟨left, hleft⟩
    exact ⟨_, Outcome.map_eq_ok.mpr ⟨left, hleft, rfl⟩⟩

/-! ### Both ways to follow a path -/

/-- There are parts at the ends of a path exactly if a type can be cut down to it and there are
parts at the ends of every node that is overlooked then. -/
def DiffersByOverlooked (full : Path) (t : Ty) (p : Path) : Prop :=
  (∃ parts, subTypesBelow full p.subPaths t = .ok parts) ↔
    (∃ left, selectBelow full t p.subPaths = .ok left) ∧
      ∀ part skipped, Overlooks t p part skipped →
        ∃ parts, subTypesBelow full skipped.subPaths part = .ok parts

/-- A path without steps is followed either way. -/
lemma differsByOverlooked_nil (full : Path) (t : Ty) (label : String) :
    DiffersByOverlooked full t (.node label []) :=
  iff_of_true ⟨[t], by rw [Path.subPaths, subTypesBelow]⟩
    ⟨⟨t, by rw [Path.subPaths, selectBelow]⟩, fun _ _ h => absurd h not_overlooks_nil⟩

/-- A path that is followed in neither way. -/
lemma differsByOverlooked_of_error (hparts : ∀ parts, subTypesBelow full p.subPaths t ≠ .ok parts)
    (hleft : ∀ left, selectBelow full t p.subPaths ≠ .ok left) : DiffersByOverlooked full t p :=
  iff_of_false (fun ⟨parts, h⟩ => hparts parts h) fun ⟨⟨left, h⟩, _⟩ => hleft left h

/-- A path into the members of a struct or union, if the nodes below them are as they should be. -/
lemma differsByOverlooked_members (hnodup : (fields.map Prod.fst).Nodup)
    (ih : ∀ member ∈ fields, ∀ {p : Path}, DiffersByOverlooked full member.2 p) {label : String} :
    DiffersByOverlooked full (.members info form fields) (.node label (node :: nodes)) := by
  rw [DiffersByOverlooked, Path.subPaths, exists_subTypesBelow_members_iff,
    exists_selectBelow_members_iff hnodup]
  constructor
  · intro h
    -- what is said of a member under one of the nodes
    have hmember : ∀ {other part}, other ∈ node :: nodes → lookup? other.label fields = some part →
        ∃ parts, subTypesBelow full other.subPaths part = .ok parts := by
      intro other part hother found
      obtain ⟨part', found', hparts⟩ := h other hother
      cases found.symm.trans found'
      exact hparts
    refine ⟨fun other hother => ?_, fun part skipped hskipped => ?_⟩
    · obtain ⟨part, found, hparts⟩ := h other hother
      exact ⟨part, found, fun _ => ((ih _ (mem_of_lookup? found)).mp hparts).1⟩
    · cases hskipped with
      | here hnode hfirst found => exact hmember hnode found
      | further hfirst hstep below =>
        have hparts := hmember (mem_and_label_of_nodeAt? hfirst).1 hstep
        exact ((ih _ (mem_of_lookup? hstep)).mp hparts).2 part skipped below
  · -- A node that is the first of its label is followed, and any other one is overlooked.
    rintro ⟨hselect, hskipped⟩ other hother
    obtain ⟨part, found, hleft⟩ := hselect other hother
    refine ⟨part, found, ?_⟩
    by_cases hfirst : nodeAt? other.label (node :: nodes) = some other
    · exact (ih _ (mem_of_lookup? found)).mpr ⟨hleft hfirst, fun inner skipped below =>
        hskipped inner skipped (.further hfirst found below)⟩
    · exact hskipped part other (.here hother hfirst found)

/-- **The nodes that are overlooked make the difference** between the parts at the ends of a path
and the type that is cut down to it.

**Proof sketch.** Induction on the type, for all paths. Below a leaf neither way leads on, nor do
several nodes below a wrapper. Below one node the wrapped type decides, and below nodes that select
members each of these does. -/
theorem exists_subTypesBelow_iff_selectBelow (full : Path) (t : Ty) : t.DistinctNames →
    ∀ {p : Path}, DiffersByOverlooked full t p := by
  induction t using Ty.induction with
  | leaf info content | hypothesis info types =>
    rintro - ⟨label, nodes⟩
    cases nodes with
    | nil => exact differsByOverlooked_nil full _ label
    | cons node nodes =>
      obtain ⟨next, below⟩ := node
      refine differsByOverlooked_of_error (fun parts h => ?_) fun left h => ?_
      · rw [Path.subPaths, subTypesBelow] at h
        · cases h
        all_goals simp
      · cases h
  | members info form fields ih =>
    rintro hnames ⟨label, nodes⟩
    obtain ⟨hnodup, hbelow⟩ := hnames.of_members
    cases nodes with
    | nil => exact differsByOverlooked_nil full _ label
    | cons node nodes =>
      exact differsByOverlooked_members hnodup fun member hmember =>
        ih member hmember (hbelow member hmember)
  | wrapped info wrapper inner ih =>
    rintro hnames ⟨label, nodes⟩
    cases nodes with
    | nil => exact differsByOverlooked_nil full _ label
    | cons first rest =>
      cases rest with
      | nil =>
        simp only [DiffersByOverlooked, Path.subPaths, subTypesBelow_wrapped,
          overlooks_wrapped_iff]
        rw [← Path.subPaths.eq_def, exists_selectBelow_wrapped_iff]
        exact ih hnames.of_wrapped
      | cons second rest =>
        obtain ⟨next, below⟩ := first
        refine differsByOverlooked_of_error (fun parts h => ?_) fun left h => ?_
        · rw [Path.subPaths, subTypesBelow] at h
          cases h
        · cases h

/-- Whether there are parts at the ends of a path does not depend on the path that is named where
there are none. -/
lemma exists_subTypesBelow_congr (full other : Path) :
    (∃ parts, subTypesBelow full p.subPaths t = .ok parts) ↔
      ∃ parts, subTypesBelow other p.subPaths t = .ok parts :=
  (exists_subTypesBelow_iff full).trans (exists_subTypesBelow_iff other).symm

/-- **When there are parts at the ends of a path**: the type can be cut down to the path, and there
are parts at the ends of every node that is overlooked then. So both are the same for paths of which
no nodes side by side have one label.

**Proof sketch.** Both equivalences are the one between the ways to follow a path
(`exists_subTypesBelow_iff_selectBelow`): which path faults name does not matter, and where
labels are distinct no node is overlooked. -/
theorem exists_subTypes_iff_select (hnames : t.DistinctNames) :
    ((∃ parts, t.subTypes p = .ok parts) ↔
      (∃ left, t.select p = .ok left) ∧
        ∀ part skipped, Overlooks t p part skipped → ∃ parts, part.subTypes skipped = .ok parts) ∧
    (p.DistinctLabels → ((∃ parts, t.subTypes p = .ok parts) ↔ ∃ left, t.select p = .ok left)) := by
  have hiff := exists_subTypesBelow_iff_selectBelow p t hnames (p := p)
  refine ⟨hiff.trans (and_congr_right fun _ => ?_), fun hlabels => hiff.trans ?_⟩
  · exact forall₃_congr fun part skipped _ => exists_subTypesBelow_congr p skipped
  · refine and_iff_left_of_imp fun _ part skipped hskipped => ?_
    exact absurd hskipped (not_overlooks_of_distinctLabels hlabels)

/-- A text has no parts below it. -/
lemma subTypesBelow_text (full : Path) (label : String) (below nodes : List Path) :
    subTypesBelow full (.node label below :: nodes) text = .error (.pathNotFound full label) := by
  rw [text, ofLeaf, subTypesBelow]
  all_goals simp

/-- The words of a note. -/
def wordsOfNote : Path := .node "note" [.node "words" []]

/-- The note of a visit, and its words. -/
def noteAndWords : Path := .node "" [.node "note" [], wordsOfNote]

/-- A visit can be cut down to its note and the words of it. The words are overlooked then, but they
cannot be found. The nights and the name of the guest can be found since they are not missed. -/
theorem exists_subTypes_iff_select_visit :
    visit.DistinctNames ∧ (∃ left, visit.select noteAndWords = .ok left) ∧
      Overlooks visit noteAndWords text wordsOfNote ∧
      ¬(∃ parts, visit.subTypes noteAndWords = .ok parts) ∧
      nightsAndName.DistinctLabels ∧ ∃ parts, visit.subTypes nightsAndName = .ok parts := by
  have hskipped : Overlooks visit noteAndWords text wordsOfNote :=
    .here (List.mem_cons_of_mem _ List.mem_cons_self) (by decide) rfl
  refine ⟨distinctNames_visit, ⟨_, rfl⟩, hskipped, fun hparts => ?_, distinctLabels_nightsAndName,
    ?_⟩
  · have hall := (exists_subTypes_iff_select distinctNames_visit).1.mp hparts
    obtain ⟨parts, hwords⟩ := hall.2 _ _ hskipped
    cases (subTypesBelow_text _ _ _ _).symm.trans hwords
  · exact ((exists_subTypes_iff_select distinctNames_visit).2 distinctLabels_nightsAndName).mpr
      ⟨_, rfl⟩

/-- A visit of which the note is left. -/
def noteOnly : Ty := .struct [("note", .text)]

/-- **The words of a note are overlooked** when a visit is cut down to the note and to them: the
note is left, though nothing is found under the words. -/
theorem select_ne_subTypes_noteAndWords :
    visit.DistinctNames ∧ visit.select noteAndWords = .ok noteOnly ∧
      visit.subTypes noteAndWords = .error (.pathNotFound noteAndWords "words") ∧
      ¬((∃ left, visit.select noteAndWords = .ok left) ↔
        ∃ parts, visit.subTypes noteAndWords = .ok parts) := by
  have hnote : ∀ {fields : List (String × Ty)}, lookup? "note" fields = some text →
      subTypesOfMember noteAndWords fields (.node "note" []) = .ok [text] :=
    fun found => subTypesOfMember_eq_ok.mpr ⟨text, found, by rw [Path.subPaths, subTypesBelow]⟩
  have hwords : ∀ {fields : List (String × Ty)}, lookup? "note" fields = some text →
      subTypesOfMember noteAndWords fields wordsOfNote =
        .error (.pathNotFound noteAndWords "words") := by
    intro fields found
    rw [subTypesOfMember, wordsOfNote, Path.label, found]
    exact subTypesBelow_text noteAndWords "words" [] []
  have hparts : visit.subTypes noteAndWords = .error (.pathNotFound noteAndWords "words") := by
    have hnodes : noteAndWords.subPaths = [.node "note" [], wordsOfNote] := rfl
    rw [subTypes, hnodes, visit, struct, subTypesBelow_members, List.mapM_cons, hnote rfl,
      List.mapM_cons, hwords rfl]
    rfl
  refine ⟨distinctNames_visit, rfl, hparts, fun hiff => ?_⟩
  obtain ⟨parts, hok⟩ := hiff.mp ⟨_, rfl⟩
  cases hparts.symm.trans hok

end Lineage.Ty
