import Mathlib.Data.List.Basic
import Lineage.Proofs.Outcome
import Lineage.Ty.Address

set_option autoImplicit false

/-!
# Parts under paths, and types cut down to them

## Main definitions

* `Lineage.Ty.along?`: the part that labels lead to, one after the other.
* `Lineage.Ty.subTypesOfMember`: the parts at the end of a node that selects a member.

## Main results

* `Lineage.Path.stepsBelow?_eq_some`: paths that do not branch are chains of nodes.
* `Lineage.Ty.get_ofLabels_eq_ok`, `Lineage.Ty.get_eq_ok`: the part under the path of some labels,
  and under any path.
* `Lineage.Ty.along?_append`: the part under some labels and then others.
* `Lineage.Ty.subTypesBelow_chain`, `Lineage.Ty.subTypes_eq_ok`: the parts at the ends of a path
  that does not branch.
* `Lineage.Ty.selectBelow_members_eq_ok`, `Lineage.Ty.selectMembers_cons_eq_ok`,
  `Lineage.Ty.exists_selectMembers_iff`: how structs and unions are cut down to a path.
-/

namespace Lineage

/-- The nodes below one of a path that does not branch make up a chain. -/
lemma Path.stepsBelow?_eq_some {nodes : List Path} {labels : List String} :
    stepsBelow? nodes = some labels ↔ nodes = chain labels := by
  induction labels generalizing nodes with
  | nil =>
    match nodes with
    | [] => simp [stepsBelow?, chain]
    | [.node l qs] => simp [stepsBelow?, chain]
    | _ :: _ :: _ => simp [stepsBelow?, chain]
  | cons label labels ih =>
    match nodes with
    | [] => simp [stepsBelow?, chain]
    | [.node l qs] => simp [stepsBelow?, chain, ih, and_comm]
    | _ :: _ :: _ => simp [stepsBelow?, chain]

/-- The nodes below the root of a path that does not branch make up a chain. -/
lemma Path.steps?_eq_some {p : Path} {labels : List String} :
    p.steps? = some labels ↔ p.subPaths = chain labels := by
  obtain ⟨label, nodes⟩ := p
  rw [steps?]
  exact stepsBelow?_eq_some

/-- The steps of the path of some labels. -/
lemma Path.steps?_ofLabels (labels : List String) : (ofLabels labels).steps? = some labels :=
  steps?_eq_some.mpr rfl

namespace Ty

/-- The part that labels lead to, one after the other. -/
def along? : List String → Ty → Option Ty
  | [], t => some t
  | label :: rest, t => (t.step? label).bind (along? rest)

/-- Some labels and then others lead to the part that the others lead to from where the first
lead. -/
lemma along?_append (p q : List String) (t : Ty) :
    along? (p ++ q) t = (along? p t).bind (along? q) := by
  induction p generalizing t with
  | nil => rfl
  | cons label p ih =>
    rw [List.cons_append, along?, along?, Option.bind_assoc]
    exact congrArg _ (funext ih)

/-- The part below a chain of nodes. -/
lemma getBelow_chain_eq_ok {full : Path} {labels : List String} {t part : Ty} :
    getBelow full (Path.chain labels) t = .ok part ↔ along? labels t = some part := by
  induction labels generalizing t with
  | nil =>
    rw [Path.chain, getBelow, along?, Except.ok.injEq, Option.some.injEq]
  | cons label labels ih =>
    rw [Path.chain, getBelow, along?]
    cases t.step? label with
    | none => simp
    | some next => exact ih

/-- **The part under the path of some labels** is what they lead to. -/
theorem get_ofLabels_eq_ok {labels : List String} {t part : Ty} :
    t.get (Path.ofLabels labels) = .ok part ↔ along? labels t = some part :=
  getBelow_chain_eq_ok

/-- Below the current node, a path that leads somewhere does not branch. -/
lemma exists_chain_of_getBelow {full : Path} {nodes : List Path} {t part : Ty}
    (h : getBelow full nodes t = .ok part) : ∃ labels, nodes = Path.chain labels := by
  fun_induction getBelow full nodes t with
  | case1 t => exact ⟨[], rfl⟩
  | case2 label subs t next hstep ih =>
    obtain ⟨labels, rfl⟩ := ih h
    exact ⟨label :: labels, rfl⟩
  | case3 label subs t hstep => cases h
  | case4 first second rest t => cases h

/-- **The part under a path** is what its labels lead to; there is none if it branches. -/
theorem get_eq_ok {p : Path} {t part : Ty} :
    t.get p = .ok part ↔ ∃ labels, p.steps? = some labels ∧ along? labels t = some part := by
  simp only [Path.steps?_eq_some]
  constructor
  · intro h
    obtain ⟨labels, hlabels⟩ := exists_chain_of_getBelow h
    rw [get, hlabels] at h
    exact ⟨labels, hlabels, getBelow_chain_eq_ok.mp h⟩
  · rintro ⟨labels, hlabels, h⟩
    rw [get, hlabels]
    exact getBelow_chain_eq_ok.mpr h

/-- A path leads somewhere if it does not branch and its labels do. -/
lemma hasPath_iff {p : Path} {t : Ty} :
    t.hasPath p = true ↔ ∃ labels, p.steps? = some labels ∧ (along? labels t).isSome = true := by
  have hok : t.hasPath p = true ↔ ∃ part, t.get p = .ok part := by
    unfold hasPath
    cases t.get p <;> simp
  simp only [hok, get_eq_ok, Option.isSome_iff_exists]
  exact ⟨fun ⟨part, labels, hlabels, h⟩ => ⟨labels, hlabels, part, h⟩,
    fun ⟨labels, hlabels, part, h⟩ => ⟨part, labels, hlabels, h⟩⟩

/-- The path of some labels leads somewhere if they do. -/
lemma hasPath_ofLabels (labels : List String) (t : Ty) :
    t.hasPath (Path.ofLabels labels) = (along? labels t).isSome := by
  rw [hasPath]
  cases halong : along? labels t with
  | some part => rw [get_ofLabels_eq_ok.mpr halong, Option.isSome_some]
  | none =>
    cases hget : t.get (Path.ofLabels labels) with
    | error fault => rfl
    | ok part => cases halong.symm.trans (get_ofLabels_eq_ok.mp hget)

/-! ### Parts at the ends of a path -/

/-- The parts at the end of a node that selects a member. -/
def subTypesOfMember (full : Path) (fields : List (String × Ty)) (node : Path) :
    Outcome (List Ty) :=
  Outcome.ofOption (.pathNotFound full node.label) (lookup? node.label fields) >>=
    subTypesBelow full node.subPaths

/-- The parts at the ends of nodes that select members are those at the end of each of them. -/
lemma subTypesOfMembers_eq (full : Path) (fields : List (String × Ty)) (nodes : List Path) :
    subTypesOfMembers full fields nodes =
      (nodes.mapM (subTypesOfMember full fields)).map List.flatten := by
  induction nodes with
  | nil =>
    rw [subTypesOfMembers]
    rfl
  | cons node nodes ih =>
    obtain ⟨label, below⟩ := node
    rw [subTypesOfMembers, List.mapM_cons, ih, subTypesOfMember, Path.label, Path.subPaths]
    cases lookup? label fields with
    | none => rfl
    | some part =>
      rw [Outcome.ofOption, Outcome.ok_bind]
      dsimp only
      cases subTypesBelow full below part with
      | error fault => rfl
      | ok first => cases nodes.mapM (subTypesOfMember full fields) <;> rfl

/-- A node that selects a member leads to the parts that are below in the member. -/
lemma subTypesOfMember_eq_ok {full : Path} {fields : List (String × Ty)} {node : Path}
    {parts : List Ty} :
    subTypesOfMember full fields node = .ok parts ↔ ∃ part, lookup? node.label fields = some part ∧
      subTypesBelow full node.subPaths part = .ok parts := by
  rw [subTypesOfMember, Outcome.bind_eq_ok]
  exact exists_congr fun part => and_congr_left fun _ => Outcome.ofOption_eq_ok

/-- The parts below nodes of a struct or union. -/
lemma subTypesBelow_members (full : Path) (info : Info) (form : Form)
    (fields : List (String × Ty)) (node : Path) (nodes : List Path) :
    subTypesBelow full (node :: nodes) (.members info form fields) =
      ((node :: nodes).mapM (subTypesOfMember full fields)).map List.flatten := by
  obtain ⟨label, below⟩ := node
  rw [subTypesBelow, subTypesOfMembers_eq]

/-- The parts below one node of a wrapped type. -/
lemma subTypesBelow_wrapped (full : Path) (info : Info) (wrapper : Wrapper) (inner : Ty)
    (node : Path) : subTypesBelow full [node] (.wrapped info wrapper inner) =
      subTypesBelow full node.subPaths inner := by
  obtain ⟨label, below⟩ := node
  rw [subTypesBelow]
  rfl

/-- **A path that does not branch** has one part at its end: the one under it, or the same fault. -/
theorem subTypesBelow_chain (full : Path) (labels : List String) (t : Ty) :
    subTypesBelow full (Path.chain labels) t =
      (getBelow full (Path.chain labels) t).map fun part => [part] := by
  induction labels generalizing t with
  | nil =>
    rw [Path.chain, subTypesBelow, getBelow]
    rfl
  | cons label labels ih =>
    rw [Path.chain, getBelow]
    cases t with
    | members info form fields =>
      rw [subTypesBelow_members, step?, List.mapM_cons, List.mapM_nil, subTypesOfMember, Path.label,
        Path.subPaths]
      cases lookup? label fields with
      | none => rfl
      | some part =>
        dsimp only
        rw [Outcome.ofOption, Outcome.ok_bind, ih]
        cases getBelow full (Path.chain labels) part <;> rfl
    | wrapped info wrapper inner =>
      rw [subTypesBelow_wrapped]
      exact ih inner
    | leaf info content | hypothesis info types =>
      rw [subTypesBelow]
      · rfl
      all_goals simp

/-- The part at the end of a chain of nodes is the only one. -/
lemma subTypesBelow_chain_eq_ok {full : Path} {labels : List String} {t : Ty} {parts : List Ty} :
    subTypesBelow full (Path.chain labels) t = .ok parts ↔
      ∃ part, along? labels t = some part ∧ parts = [part] := by
  rw [subTypesBelow_chain, Outcome.map_eq_ok]
  exact exists_congr fun part => and_congr getBelow_chain_eq_ok eq_comm

/-- **The part at the end of a path that does not branch** is the only one. -/
theorem subTypes_eq_ok {p : Path} {labels : List String} (hlabels : p.steps? = some labels)
    {t : Ty} {parts : List Ty} :
    t.subTypes p = .ok parts ↔ ∃ part, along? labels t = some part ∧ parts = [part] := by
  rw [subTypes, Path.steps?_eq_some.mp hlabels]
  exact subTypesBelow_chain_eq_ok

/-! ### Types cut down to a path -/

section Selection

variable {full node : Path} {nodes : List Path} {left : Ty}
  {fields remaining : List (String × Ty)}

/-- The first node of a label is one of the nodes, and has the label. -/
lemma mem_and_label_of_nodeAt? {label : String} (h : nodeAt? label nodes = some node) :
    node ∈ nodes ∧ node.label = label := by
  refine ⟨List.mem_of_find?_eq_some h, ?_⟩
  have hlabel := List.find?_some h
  rwa [beq_iff_eq] at hlabel

/-- No node is unknown if each has the label of a member. -/
lemma unknownNode?_eq_none_iff : unknownNode? fields nodes = none ↔
    ∀ node ∈ nodes, ∃ part, lookup? node.label fields = some part := by
  rw [unknownNode?, List.find?_eq_none]
  refine forall₂_congr fun node _ => ?_
  rw [← Option.isSome_iff_exists, Bool.not_eq_true, Option.isNone_eq_false_iff]

/-- A struct or union is cut down where each node has the label of a member, by cutting the members
down. -/
lemma selectBelow_members_eq_ok {info : Info} {form : Form} :
    selectBelow full (.members info form fields) (node :: nodes) = .ok left ↔
      (∀ other ∈ node :: nodes, ∃ part, lookup? other.label fields = some part) ∧
        ∃ remaining, selectMembers full (node :: nodes) fields = .ok remaining ∧
          left = .members info form remaining := by
  rw [← unknownNode?_eq_none_iff, selectBelow]
  split
  · rename_i hunknown
    simp [hunknown]
  · rename_i hknown
    rw [Outcome.map_eq_ok, and_iff_right hknown]
    simp only [eq_comm]

/-- One member after the other is left or gone. -/
lemma selectMembers_cons_eq_ok {name : String} {whole : Ty} :
    selectMembers full nodes ((name, whole) :: fields) = .ok remaining ↔
      (nodeAt? name nodes = none ∧ selectMembers full nodes fields = .ok remaining) ∨
      ∃ node part others, nodeAt? name nodes = some node ∧
        selectBelow full whole node.subPaths = .ok part ∧
        selectMembers full nodes fields = .ok others ∧ remaining = (name, part) :: others := by
  rw [selectMembers]
  cases nodeAt? name nodes with
  | none => simp
  | some node =>
    simp only [Outcome.bind_eq_ok, Except.ok.injEq, reduceCtorEq, false_and, false_or,
      Option.some.injEq, exists_and_left, exists_eq_left']
    simp only [eq_comm]

/-- Members are cut down if each can be, to the first node with its name. -/
lemma exists_selectMembers_iff :
    (∃ remaining, selectMembers full nodes fields = .ok remaining) ↔
      ∀ field ∈ fields, ∀ node, nodeAt? field.1 nodes = some node →
        ∃ part, selectBelow full field.2 node.subPaths = .ok part := by
  induction fields with
  | nil => exact iff_of_true ⟨[], by rw [selectMembers]⟩ (List.forall_mem_nil _)
  | cons field fields ih =>
    obtain ⟨name, whole⟩ := field
    rw [List.forall_mem_cons, ← ih]
    constructor
    · rintro ⟨remaining, h⟩
      rcases selectMembers_cons_eq_ok.mp h with
        ⟨hnone, hothers⟩ | ⟨node, part, others, hnode, hpart, hothers, -⟩
      · exact ⟨fun node hnode => (nomatch hnone.symm.trans hnode), remaining, hothers⟩
      · refine ⟨fun node' hnode' => ?_, others, hothers⟩
        cases hnode.symm.trans hnode'
        exact ⟨part, hpart⟩
    · rintro ⟨hfirst, others, hothers⟩
      cases hnode : nodeAt? name nodes with
      | none => exact ⟨others, selectMembers_cons_eq_ok.mpr (Or.inl ⟨hnode, hothers⟩)⟩
      | some node =>
        obtain ⟨part, hpart⟩ := hfirst node hnode
        exact ⟨_, selectMembers_cons_eq_ok.mpr
          (Or.inr ⟨node, part, others, hnode, hpart, hothers, rfl⟩)⟩

end Selection

end Ty

end Lineage
