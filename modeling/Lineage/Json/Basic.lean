import Lineage.Number.Binary64

set_option autoImplicit false

/-!
# Structured values

The free-form values of scalars, of arguments of external operations and of query rows: nulls,
truth values, whole numbers, doubles, texts, lists and objects. An object keeps its members in the
order in which they were added.

## Main definitions

* `Lineage.Json`: the values.
* `Lineage.Json.member?`: the first member of an object under a key.
* `Lineage.Json.ofMembers`: an object in which a repeated key keeps its first place and last value.
* `Lineage.Json.collapse`: each key once, at every depth.
* `Lineage.Json.optional`, `Lineage.Json.texts`: shorthands for writing values.
-/

namespace Lineage

/-- A structured value. -/
inductive Json where
  /-- The absent value. -/
  | null
  /-- A truth value. -/
  | bool (value : Bool)
  /-- A whole number. -/
  | int (value : Int)
  /-- A double; one that is not finite is written as null. -/
  | float (value : Float)
  /-- A text. -/
  | string (value : String)
  /-- A list. -/
  | array (items : List Json)
  /-- An object, its members in order. -/
  | object (members : List (String × Json))

namespace Json

instance : Inhabited Json := ⟨.null⟩

/-- The value under `key` in a list of members. -/
def lookup? (key : String) (members : List (String × Json)) : Option Json :=
  (members.find? fun entry => entry.1 == key).map Prod.snd

/-- The member of an object under `key`. -/
def member? (key : String) : Json → Option Json
  | .object members => lookup? key members
  | _ => none

/-- Set `key`: in its old place if it is there, else at the end. -/
def setMember (key : String) (value : Json) : List (String × Json) → List (String × Json)
  | [] => [(key, value)]
  | (k, v) :: rest => if k = key then (key, value) :: rest else (k, v) :: setMember key value rest

/-- The object of members given in order, of which a later one replaces an earlier one. -/
def ofMembers (members : List (String × Json)) : Json :=
  .object (members.foldl (fun acc entry => setMember entry.1 entry.2 acc) [])

mutual

/-- The value in which every object has each key once. -/
def collapse : Json → Json
  | .array items => .array (collapseItems items)
  | .object members => ofMembers (collapseMembers members)
  | value => value

/-- `collapse` on list items. -/
def collapseItems : List Json → List Json
  | [] => []
  | item :: rest => collapse item :: collapseItems rest

/-- `collapse` on the values of members. -/
def collapseMembers : List (String × Json) → List (String × Json)
  | [] => []
  | (key, value) :: rest => (key, collapse value) :: collapseMembers rest

end

/-- A double; null if it is not finite. -/
def ofFloat (x : Float) : Json :=
  if Binary64.isFinite x then .float x else .null

/-- A whole number. -/
def ofNat (n : Nat) : Json := .int n

/-- A list of texts. -/
def texts (ss : List String) : Json := .array (ss.map .string)

/-- A value or null. -/
def optional {α : Type} (f : α → Json) : Option α → Json
  | some a => f a
  | none => .null

/-- A member that is left out when absent. -/
def optionalMember {α : Type} (key : String) (f : α → Json) : Option α → List (String × Json)
  | some a => [(key, f a)]
  | none => []

/-- The member `key` with an object of texts, left out when there is none. -/
def dictMember (key : String) (entries : List (String × String)) : List (String × Json) :=
  if entries.isEmpty then [] else [(key, .object (entries.map fun e => (e.1, .string e.2)))]

end Json

end Lineage
