set_option autoImplicit false

/-!
# Paths

A path is a tree of labels that addresses parts of a nested value. The label of the outermost node
names the place the path starts from and plays no part in resolution; each node below it is one
step. A node with several nodes below it branches.

## Main definitions

* `Lineage.Path`: the tree.
* `Lineage.Path.ofLabels`: the path that takes given steps one after the other.
* `Lineage.Path.branches`: the steps of every way from the root to an end.
* `Lineage.Path.prefixed`, `Lineage.Path.stripFirst?`: one more step in front, and its inverse.
* `Lineage.Path.render`: the dotted text.
* `Lineage.Path.compare`: the order by label, then by the nodes below.
-/

namespace Lineage

/-- A tree of labels. -/
inductive Path where
  /-- A label and the nodes below it. -/
  | node (label : String) (subPaths : List Path)
  deriving Repr

namespace Path

mutual

/-- Equality of paths is decided label by label. -/
def decEq : (p q : Path) → Decidable (p = q)
  | .node a ps, .node b qs =>
    if h : a = b then
      match decEqList ps qs with
      | isTrue h' => isTrue (by rw [h, h'])
      | isFalse h' => isFalse fun e => h' (by injection e)
    else isFalse fun e => h (by injection e)

/-- Equality of lists of paths. -/
def decEqList : (ps qs : List Path) → Decidable (ps = qs)
  | [], [] => isTrue rfl
  | [], _ :: _ => isFalse (by simp)
  | _ :: _, [] => isFalse (by simp)
  | p :: ps, q :: qs =>
    match decEq p q, decEqList ps qs with
    | isTrue h, isTrue h' => isTrue (by rw [h, h'])
    | isFalse h, _ => isFalse fun e => h (by injection e)
    | _, isFalse h' => isFalse fun e => h' (by injection e)

end

instance : DecidableEq Path := decEq

/-- The label of the outermost node. -/
def label : Path → String
  | .node l _ => l

/-- The nodes below the outermost one. -/
def subPaths : Path → List Path
  | .node _ ps => ps

/-- The path without steps: it addresses the value it starts from. -/
def root : Path := .node "" []

instance : Inhabited Path := ⟨root⟩

/-- No step follows. -/
def isLeaf (p : Path) : Bool := p.subPaths.isEmpty

mutual

/-- Whether some node has several nodes below it. -/
def isBranching : Path → Bool
  | .node _ ps => decide (1 < ps.length) || anyBranching ps

/-- Whether some path of a list branches. -/
def anyBranching : List Path → Bool
  | [] => false
  | p :: ps => isBranching p || anyBranching ps

end

/-- A chain of nodes; no label gives no node. -/
def chain : List String → List Path
  | [] => []
  | l :: ls => [.node l (chain ls)]

/-- The path below an unnamed root that takes the given steps one after the other. -/
def ofLabels (labels : List String) : Path := .node "" (chain labels)

mutual

/-- The steps of a path that does not branch. -/
def steps? : Path → Option (List String)
  | .node _ ps => stepsBelow? ps

/-- The steps from a node on, given the nodes below it. -/
def stepsBelow? : List Path → Option (List String)
  | [] => some []
  | [.node l qs] => (stepsBelow? qs).map (l :: ·)
  | _ :: _ :: _ => none

end

mutual

/-- The steps of every way from the root to an end, in order; the root's label is not a step. -/
def branches : Path → List (List String)
  | .node _ [] => [[]]
  | .node _ (p :: ps) => branchesOf (p :: ps)

/-- The ways through each of the given nodes. -/
def branchesOf : List Path → List (List String)
  | [] => []
  | .node l qs :: ps => (branches (.node l qs)).map (l :: ·) ++ branchesOf ps

end

/-- The path with one more step in front, below an unnamed root. -/
def prefixed (label : String) (p : Path) : Path :=
  .node "" [.node label p.subPaths]

/-- The path without its first step, where that is the only first step and has the given label. -/
def stripFirst? (label : String) : Path → Option Path
  | .node _ [.node l qs] => if l = label then some (.node "" qs) else none
  | _ => none

mutual

/-- A node in dotted form: a dot before a single node below, braces around several. -/
def renderNode : Path → String
  | .node l [] => l
  | .node l [p] => l ++ "." ++ renderNode p
  | .node l (p :: q :: ps) => l ++ ".\x7b" ++ renderNodes (p :: q :: ps) ++ "\x7d"

/-- Nodes with commas between them. -/
def renderNodes : List Path → String
  | [] => ""
  | [p] => renderNode p
  | p :: q :: ps => renderNode p ++ "," ++ renderNodes (q :: ps)

end

/-- The dotted text. An unnamed root is not written; alone it is a dot. -/
def render : Path → String
  | .node l ps =>
    if l = "" then
      match ps with
      | [] => "."
      | [p] => renderNode p
      | ps => "\x7b" ++ renderNodes ps ++ "\x7d"
    else renderNode (.node l ps)

instance : ToString Path := ⟨render⟩

mutual

/-- The order of paths: by label, then by the nodes below. -/
def compare : Path → Path → Ordering
  | .node a ps, .node b qs => (Ord.compare a b).then (compareLists ps qs)

/-- The lexicographic order of lists of paths. -/
def compareLists : List Path → List Path → Ordering
  | [], [] => .eq
  | [], _ :: _ => .lt
  | _ :: _, [] => .gt
  | p :: ps, q :: qs => (compare p q).then (compareLists ps qs)

end

instance : Ord Path := ⟨compare⟩

end Path

end Lineage
