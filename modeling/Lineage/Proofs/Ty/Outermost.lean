import Lineage.Proofs.Ty.Branches
import Lineage.Proofs.Ty.Pruning

set_option autoImplicit false

/-!
# The outermost structs of a type

The structs that stand inside no other struct are found by looking into unions, optional types,
lists and arrays. The nodes that lead to them form a tree, whose branches are the steps to one
struct each: to all of them, in the order in which they stand in the type.

## Main definitions

* `Lineage.Ty.openings`: the parts that are looked into, under the labels of the steps.
* `Lineage.Ty.Reaches`: a part is reached by looking into types.
* `Lineage.Ty.Before`: the order of places, depth first.
* `Lineage.Ty.structPlaces`: the branches of the nodes that lead to the outermost structs.

## Main results

* `Lineage.Ty.structPlaces_eq`: these branches go through the parts that are looked into.
* `Lineage.Ty.mem_structPlaces`: they lead to all outermost structs and to nothing else.
* `Lineage.Ty.pairwise_structPlaces`, `Lineage.Ty.nodup_structPlaces`: their order, in which none
  comes twice.
* `Lineage.Ty.along?_of_reaches`: the steps lead to the part that is reached.
-/

namespace Lineage.Ty

variable {t part : Ty} {label name : String} {steps : List String}

/-! ### Places of parts -/

/-- The parts that are looked into, under the labels of the steps into them: the branches of a union
and what an optional type, a list or an array holds. -/
def openings : Ty → List (String × Ty)
  | .members _ .union fields => fields
  | .wrapped _ .optional inner => [(optionalValue, inner)]
  | .wrapped _ (.list _) inner => [(listValues, inner)]
  | .wrapped _ (.array _) inner => [(arrayValues, inner)]
  | _ => []

/-- A part is reached by some steps into parts that are looked into. -/
inductive Reaches : Ty → List String → Ty → Prop
  /-- The type itself. -/
  | here (t : Ty) : Reaches t [] t
  /-- What is reached from a part that is looked into. -/
  | step {t next part : Ty} {label : String} {steps : List String}
      (opening : (label, next) ∈ t.openings) (below : Reaches next steps part) :
      Reaches t (label :: steps) part

/-- Some steps lead to a place that comes before another one, depth first. -/
inductive Before : Ty → List String → List String → Prop
  /-- They part where the one goes into an earlier part than the other. -/
  | apart {t first second : Ty} {label label' : String} {steps steps' : List String}
      (order : [(label, first), (label', second)].Sublist t.openings) :
      Before t (label :: steps) (label' :: steps')
  /-- They go into the same part. -/
  | together {t next : Ty} {label : String} {steps steps' : List String}
      (opening : (label, next) ∈ t.openings) (below : Before next steps steps') :
      Before t (label :: steps) (label :: steps')

/-- Without steps only the type itself is reached. -/
lemma reaches_nil_iff : Reaches t [] part ↔ part = t :=
  ⟨fun h => by cases h; rfl, fun h => h ▸ .here t⟩

/-- The first step goes into a part that is looked into. -/
lemma reaches_cons_iff : Reaches t (label :: steps) part ↔
    ∃ next, (label, next) ∈ t.openings ∧ Reaches next steps part := by
  constructor
  · intro h
    cases h with
    | step opening below => exact ⟨_, opening, below⟩
  · rintro ⟨next, opening, below⟩
    exact .step opening below

/-- A property of types holds if it passes from the parts that are looked into to the type. -/
theorem openings_induction {P : Ty → Prop}
    (step : ∀ t : Ty, (∀ opening ∈ t.openings, P opening.2) → P t) (t : Ty) : P t := by
  induction t using Ty.induction with
  | leaf info content | hypothesis info types => exact step _ nofun
  | members info form fields ih =>
    cases form with
    | struct => exact step _ nofun
    | union => exact step _ ih
  | wrapped info wrapper inner ih =>
    cases wrapper with
    | optional | list maxSize | array shape => exact step _ (List.forall_mem_singleton.mpr ih)
    | constrained constraint => exact step _ nofun

/-- The types that are looked into are unions, and wrappers with a label for the step into them. -/
lemma openings_cases (t : Ty) : t.openings = [] ∨
    (∃ info fields, t = .members info .union fields) ∨
    ∃ info wrapper label inner, t = .wrapped info wrapper inner ∧
      wrapperLabel? wrapper = some label ∧ t.openings = [(label, inner)] := by
  cases t with
  | leaf info content | hypothesis info types => exact Or.inl rfl
  | members info form fields =>
    cases form with
    | struct => exact Or.inl rfl
    | union => exact Or.inr (Or.inl ⟨info, fields, rfl⟩)
  | wrapped info wrapper inner =>
    cases wrapper with
    | optional | list maxSize | array shape => exact Or.inr (Or.inr ⟨_, _, _, _, rfl, rfl, rfl⟩)
    | constrained constraint => exact Or.inl rfl

/-- The parts that are looked into have distinct labels, and distinct names themselves. -/
lemma DistinctNames.of_openings (h : t.DistinctNames) :
    (t.openings.map Prod.fst).Nodup ∧ ∀ opening ∈ t.openings, opening.2.DistinctNames := by
  rcases t.openings_cases with hnone | ⟨info, fields, rfl⟩ |
    ⟨info, wrapper, label, inner, rfl, -, hone⟩
  · rw [hnone]
    exact ⟨List.nodup_nil, nofun⟩
  · exact h.of_members
  · rw [hone]
    exact ⟨List.nodup_singleton _, List.forall_mem_singleton.mpr h.of_wrapped⟩

/-- The label of a part that is looked into leads to it. -/
lemma step?_of_mem_openings (h : t.DistinctNames) (hopening : (label, part) ∈ t.openings) :
    t.step? label = some part := by
  rcases t.openings_cases with hnone | ⟨info, fields, rfl⟩ |
    ⟨info, wrapper, label, inner, rfl, -, hone⟩
  · rw [hnone] at hopening
    cases hopening
  · exact lookup?_of_mem h.of_members.1 hopening
  · rw [hone] at hopening
    cases List.mem_singleton.mp hopening
    rfl

/-- **The steps lead to the part that is reached**, where names are distinct. -/
theorem along?_of_reaches (hnames : t.DistinctNames) (h : Reaches t steps part) :
    along? steps t = some part := by
  induction h with
  | here t => rfl
  | step opening below ih =>
    rw [along?, step?_of_mem_openings hnames opening]
    exact ih (hnames.of_openings.2 _ opening)

/-- No place comes before itself, where names are distinct. -/
lemma Before.ne {steps' : List String} (hnames : t.DistinctNames) (h : Before t steps steps') :
    steps ≠ steps' := by
  induction h with
  | apart order =>
    rintro heq
    have hpair : [_, _].Nodup := (order.map Prod.fst).nodup hnames.of_openings.1
    exact absurd (List.cons.inj heq).1 (by simpa using hpair)
  | together opening below ih =>
    exact fun heq => ih (hnames.of_openings.2 _ opening) (List.cons.inj heq).2

/-! ### The nodes that lead to structs -/

/-- The branches of the nodes that lead to the outermost structs; the one without steps for a
struct. -/
def structPlaces (t : Ty) : List (List String) :=
  match t.structNodes? with
  | none => []
  | some nodes => (Path.node "" nodes).branches

/-- The branches of a path do not depend on the label of its root. -/
lemma branches_node (label label' : String) (nodes : List Path) :
    (Path.node label nodes).branches = (Path.node label' nodes).branches := by
  cases nodes with
  | nil => rfl
  | cons node nodes => rw [Path.branches, Path.branches]

/-- The branches of a path whose root has nodes below it. -/
lemma branches_of_ne_nil {nodes : List Path} (hne : nodes ≠ []) :
    (Path.node label nodes).branches = Path.branchesOf nodes := by
  obtain ⟨node, nodes, rfl⟩ := List.exists_cons_of_ne_nil hne
  rw [Path.branches]

/-- A struct has members. -/
lemma exists_fields_of_isStruct (h : t.isStruct = true) :
    ∃ info fields, t = .members info .struct fields := by
  cases t with
  | members info form fields =>
    cases form with
    | struct => exact ⟨info, fields, rfl⟩
    | union => cases h
  | leaf info content | wrapped info wrapper inner | hypothesis info types => cases h

/-- A struct is not looked into. -/
lemma openings_of_isStruct (h : t.isStruct = true) : t.openings = [] := by
  obtain ⟨info, fields, rfl⟩ := exists_fields_of_isStruct h
  rfl

/-- The branches of a path whose root has one node below it. -/
lemma branches_singleton (label : String) (node : Path) :
    (Path.node label [node]).branches = node.branches.map (node.label :: ·) := by
  rw [branches_of_ne_nil (List.cons_ne_nil _ _), Path.branchesOf_eq_flatMap,
    List.flatMap_singleton]

/-- Only a struct needs no nodes. -/
lemma isStruct_of_structNodes?_eq_nil (h : t.structNodes? = some []) : t.isStruct = true := by
  cases t with
  | leaf info content | hypothesis info types =>
    rw [structNodes?] at h <;> cases h
  | members info form fields =>
    cases form with
    | struct => rfl
    | union =>
      rw [structNodes?] at h
      split at h
      · cases h
      · rename_i hne
        exact absurd (Option.some.inj h) hne
  | wrapped info wrapper inner =>
    rw [structNodes?] at h
    split at h
    · cases h
    · obtain ⟨subs, -, heq⟩ := Option.map_eq_some_iff.mp h
      cases heq

/-- The nodes into one branch of a union. -/
def nodesInto (name : String) (t : Ty) : List Path :=
  match t.structNodes? with
  | none => []
  | some subs => if t.isStruct then [.node name []] else subs.map fun s => .node name [s]

/-- The branches of the nodes into one branch of a union. -/
lemma branchesOf_nodesInto (name : String) (t : Ty) :
    Path.branchesOf (nodesInto name t) = t.structPlaces.map (name :: ·) := by
  unfold nodesInto structPlaces
  cases hnodes : t.structNodes? with
  | none => rfl
  | some nodes =>
    cases hstruct : t.isStruct with
    | true =>
      have hnil : nodes = [] := by
        obtain ⟨info, fields, rfl⟩ := exists_fields_of_isStruct hstruct
        rw [structNodes?] at hnodes
        exact (Option.some.inj hnodes).symm
      subst hnil
      rfl
    | false =>
      have hne : nodes ≠ [] := by
        rintro rfl
        rw [isStruct_of_structNodes?_eq_nil hnodes] at hstruct
        cases hstruct
      -- Each node is put below one with the name, so that each of its branches begins with it.
      simp only [branches_of_ne_nil hne, Path.branchesOf_eq_flatMap, List.flatMap_map,
        List.map_flatMap, branches_singleton, Path.label, Bool.false_eq_true, if_false]

/-- The branches of the nodes into the branches of a union. -/
lemma branchesOf_branchNodes (fields : List (String × Ty)) :
    Path.branchesOf (branchNodes fields) =
      fields.flatMap fun field => field.2.structPlaces.map (field.1 :: ·) := by
  induction fields with
  | nil =>
    rw [branchNodes]
    rfl
  | cons field fields ih =>
    obtain ⟨name, t⟩ := field
    have hnodes : branchNodes ((name, t) :: fields) = nodesInto name t ++ branchNodes fields := by
      rw [branchNodes]
      rfl
    rw [hnodes, Path.branchesOf_eq_flatMap, List.flatMap_append, ← Path.branchesOf_eq_flatMap,
      ← Path.branchesOf_eq_flatMap, branchesOf_nodesInto, ih, List.flatMap_cons]

/-- A struct is its own outermost struct. -/
lemma structPlaces_of_isStruct (h : t.isStruct = true) : t.structPlaces = [[]] := by
  obtain ⟨info, fields, rfl⟩ := exists_fields_of_isStruct h
  rw [structPlaces, structNodes?]
  rfl

/-- No nodes lead to a struct where there is nothing to look into. -/
lemma structNodes?_of_openings_eq_nil (h : t.isStruct = false) (hnone : t.openings = []) :
    t.structNodes? = none := by
  cases t with
  | leaf info content | hypothesis info types => rw [structNodes?] <;> exact nofun
  | members info form fields =>
    cases form with
    | struct => cases h
    | union =>
      obtain rfl : fields = [] := hnone
      rw [structNodes?, branchNodes]
  | wrapped info wrapper inner =>
    cases wrapper with
    | optional | list maxSize | array shape => cases hnone
    | constrained constraint => rw [structNodes?]; rfl

/-- **The branches go through the parts that are looked into.**

**Proof sketch.** By what can be looked into (`openings_cases`): nothing, in which case no
nodes lead to a struct; the branches of a union, each with its own nodes
(`branchesOf_branchNodes`); or what one wrapper holds, below one node with the label of the
step. -/
theorem structPlaces_eq (h : t.isStruct = false) : t.structPlaces =
    t.openings.flatMap fun opening => opening.2.structPlaces.map (opening.1 :: ·) := by
  rcases t.openings_cases with hnone | ⟨info, fields, rfl⟩ |
    ⟨info, wrapper, label, inner, rfl, hlabel, hone⟩
  · rw [hnone, structPlaces, structNodes?_of_openings_eq_nil h hnone]
    rfl
  · rw [structPlaces, structNodes?]
    refine Eq.trans ?_ (branchesOf_branchNodes fields)
    cases branchNodes fields with
    | nil => rfl
    | cons node nodes => exact branches_of_ne_nil (List.cons_ne_nil _ _)
  · rw [hone, List.flatMap_singleton, structPlaces, structPlaces, structNodes?, hlabel]
    cases structNodes? inner with
    | none => rfl
    | some subs =>
      exact (branches_singleton "" (.node label subs)).trans
        (congrArg (List.map (label :: ·)) (branches_node label "" subs))

/-! ### Places of structs -/

/-- **The branches lead to the outermost structs** and to nothing else.

**Proof sketch.** By induction on the steps. Without steps there is only the type itself,
which has to be a struct; and the first step goes into a part that is looked into, which a
struct has none of. -/
theorem mem_structPlaces :
    steps ∈ t.structPlaces ↔ ∃ table, Reaches t steps table ∧ table.isStruct = true := by
  induction steps generalizing t with
  | nil =>
    simp only [reaches_nil_iff, exists_eq_left]
    cases hstruct : t.isStruct with
    | true => simp [structPlaces_of_isStruct hstruct]
    | false => simp [structPlaces_eq hstruct]
  | cons label steps ih =>
    cases hstruct : t.isStruct with
    | true =>
      simp [structPlaces_of_isStruct hstruct, reaches_cons_iff, openings_of_isStruct hstruct]
    | false =>
      rw [structPlaces_eq hstruct, List.mem_flatMap]
      constructor
      · rintro ⟨⟨label', next⟩, hopening, hsteps⟩
        obtain ⟨steps', hbelow, heq⟩ := List.mem_map.mp hsteps
        cases heq
        obtain ⟨table, hreaches, htable⟩ := ih.mp hbelow
        exact ⟨table, .step hopening hreaches, htable⟩
      · rintro ⟨table, hreaches, htable⟩
        obtain ⟨next, hopening, hbelow⟩ := reaches_cons_iff.mp hreaches
        exact ⟨_, hopening, List.mem_map_of_mem (ih.mpr ⟨table, hbelow, htable⟩)⟩

/-- **The branches come in the order of the places**, depth first.

**Proof sketch.** By induction on the parts that are looked into: places in the same part are
ordered as they are there, and places in different parts as the parts. -/
theorem pairwise_structPlaces (t : Ty) : t.structPlaces.Pairwise (Before t) := by
  induction t using openings_induction with
  | step t ih =>
    cases hstruct : t.isStruct with
    | true =>
      rw [structPlaces_of_isStruct hstruct]
      exact List.pairwise_singleton _ _
    | false =>
      rw [structPlaces_eq hstruct, List.pairwise_flatMap]
      constructor
      · intro opening hopening
        rw [List.pairwise_map]
        exact (ih opening hopening).imp fun hbefore => .together hopening hbefore
      · -- Of two parts that are looked into, the places in the earlier one come first.
        refine List.pairwise_iff_forall_sublist.mpr fun {first second} horder => ?_
        intro steps hsteps steps' hsteps'
        obtain ⟨_, -, rfl⟩ := List.mem_map.mp hsteps
        obtain ⟨_, -, rfl⟩ := List.mem_map.mp hsteps'
        exact .apart horder

/-- No branch comes twice, where names are distinct. -/
theorem nodup_structPlaces (hnames : t.DistinctNames) : t.structPlaces.Nodup :=
  t.pairwise_structPlaces.imp fun h => h.ne hnames

end Lineage.Ty
