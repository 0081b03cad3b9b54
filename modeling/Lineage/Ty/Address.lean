import Lineage.Fault
import Lineage.Ty.Basic

set_option autoImplicit false

/-!
# Resolving paths in types

## Main definitions

* `Lineage.Ty.get`: the part under a path that does not branch.
* `Lineage.Ty.subTypes`: the parts at the ends of a path that may branch.
* `Lineage.Ty.select`: the type cut down to a path, with everything above and below it.
-/

namespace Lineage.Ty

/-- Follow the nodes below the current one, of which there must be at most one. -/
def getBelow (full : Path) : List Path → Ty → Outcome Ty
  | [], t => .ok t
  | [.node label subs], t =>
    match t.step? label with
    | some part => getBelow full subs part
    | none => .error (.pathNotFound full label)
  | _ :: _ :: _, _ => .error (.ambiguousPath full)

/-- The part under a path that does not branch. -/
def get (t : Ty) (path : Path) : Outcome Ty :=
  getBelow path path.subPaths t

/-- Whether a path leads somewhere. -/
def hasPath (t : Ty) (path : Path) : Bool :=
  match t.get path with
  | .ok _ => true
  | .error _ => false

mutual

/-- The parts at the ends of the nodes below the current one; below a wrapper there must be only
one. -/
def subTypesBelow (full : Path) : List Path → Ty → Outcome (List Ty)
  | [], t => .ok [t]
  | .node label subs :: rest, t =>
    match t with
    | .members _ _ fields => subTypesOfMembers full fields (.node label subs :: rest)
    | .wrapped _ _ inner =>
      match rest with
      | [] => subTypesBelow full subs inner
      | _ :: _ => .error (.ambiguousPath full)
    | _ => .error (.pathNotFound full label)

/-- The parts at the ends of every node, each of which selects a member. -/
def subTypesOfMembers (full : Path) (fields : List (String × Ty)) :
    List Path → Outcome (List Ty)
  | [] => .ok []
  | .node label subs :: rest =>
    match lookup? label fields with
    | none => .error (.pathNotFound full label)
    | some part => do
      let first ← subTypesBelow full subs part
      let others ← subTypesOfMembers full fields rest
      .ok (first ++ others)

end

/-- The parts at the ends of a path that may branch. -/
def subTypes (t : Ty) (path : Path) : Outcome (List Ty) :=
  subTypesBelow path path.subPaths t

/-- The first node with a label. -/
def nodeAt? (label : String) (nodes : List Path) : Option Path :=
  nodes.find? fun p => p.label == label

/-- The first node whose label is no member's name. -/
def unknownNode? (fields : List (String × Ty)) (nodes : List Path) : Option Path :=
  nodes.find? fun p => (lookup? p.label fields).isNone

mutual

/-- Cut a type down to the nodes below the current one. Where no node follows, it stays whole. -/
def selectBelow (full : Path) : Ty → List Path → Outcome Ty
  | t, [] => .ok t
  | .members info form fields, node :: nodes =>
    match unknownNode? fields (node :: nodes) with
    | some unknown => .error (.pathNotFound full unknown.label)
    | none => (selectMembers full (node :: nodes) fields).map (.members info form)
  | .wrapped info wrapper inner, [node] =>
    (selectBelow full inner node.subPaths).map (.wrapped info wrapper)
  | .wrapped _ _ _, _ :: _ :: _ => .error (.ambiguousPath full)
  | .leaf _ _, node :: _ => .error (.pathNotFound full node.label)
  | .hypothesis _ _, node :: _ => .error (.pathNotFound full node.label)

/-- Keep the members that a node names, cut down to the first such node. -/
def selectMembers (full : Path) (nodes : List Path) :
    List (String × Ty) → Outcome (List (String × Ty))
  | [] => .ok []
  | (name, t) :: rest =>
    match nodeAt? name nodes with
    | none => selectMembers full nodes rest
    | some node => do
      let part ← selectBelow full t node.subPaths
      let others ← selectMembers full nodes rest
      .ok ((name, part) :: others)

end

/-- The type cut down to what a path addresses, together with all that lies above and below. -/
def select (t : Ty) (path : Path) : Outcome Ty :=
  selectBelow path t path.subPaths

end Lineage.Ty
