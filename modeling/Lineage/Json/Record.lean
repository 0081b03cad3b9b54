import Lineage.Json.Basic
import Lineage.Dict

set_option autoImplicit false

/-!
# Reading records from values

A record is an object with named members; members that a record does not know are ignored. A record
may also be a list, in which its members stand in order; the last ones may be missing. A choice
between alternatives is a text, or an object with one member whose value is the alternative's
content.

## Main definitions

* `Lineage.Json.asInt64?` and the like: a value of one sort.
* `Lineage.Json.asRecord?`: the members of a record.
* `Lineage.Json.required?`, `Lineage.Json.defaulted?`, `Lineage.Json.nullable?`: members.
* `Lineage.Json.alternative?`: the name of a choice and its content.
-/

namespace Lineage.Json

/-- A text. -/
def asString? : Json → Option String
  | .string s => some s
  | _ => none

/-- A truth value. -/
def asBool? : Json → Option Bool
  | .bool b => some b
  | _ => none

/-- A whole number in an interval. -/
def asIntIn? (lo hi : Int) : Json → Option Int
  | .int n => if lo ≤ n ∧ n ≤ hi then some n else none
  | _ => none

/-- A whole number of 64 bits with sign. -/
def asInt64? : Json → Option Int := asIntIn? Number.least64 Number.greatest64

/-- A whole number of 64 bits without sign. -/
def asNat64? (value : Json) : Option Nat := (asIntIn? 0 (Number.word64 - 1) value).map Int.toNat

/-- A double; a whole number counts as the nearest one. -/
def asFloat? : Json → Option Float
  | .float x => some x
  | .int n => some (Float.ofInt n)
  | _ => none

/-- A list. -/
def asArray? : Json → Option (List Json)
  | .array items => some items
  | _ => none

/-- The members of an object. -/
def asObject? : Json → Option (List (String × Json))
  | .object members => some members
  | _ => none

/-- A list of values of one sort. -/
def asListOf? {α : Type} (read : Json → Option α) (value : Json) : Option (List α) :=
  value.asArray?.bind fun items => items.mapM read

/-- A list of two values. -/
def asPair? {α β : Type} (first : Json → Option α) (second : Json → Option β) :
    Json → Option (α × β)
  | .array [a, b] => do some (← first a, ← second b)
  | _ => none

/-- An object whose members have values of one sort, as a dictionary. -/
def asDict? {α : Type} (read : Json → Option α) (value : Json) : Option (Dict α) := do
  let members ← value.asObject?
  let entries ← members.mapM fun entry => (read entry.2).map fun a => (entry.1, a)
  some (Dict.ofList entries)

/-- The items of a list under names in order; not more items than there are names. -/
def nameItems? (names : List String) (items : List Json) : Option (List (String × Json)) :=
  if items.length ≤ names.length then some (names.zip items) else none

/-- The members of a record whose members have the given names in order. -/
def asRecord? (names : List String) : Json → Option (List (String × Json))
  | .object members => some members
  | .array items => nameItems? names items
  | _ => none

/-- A member that has to be there. -/
def required? {α : Type} (key : String) (read : Json → Option α)
    (members : List (String × Json)) : Option α :=
  (lookup? key members).bind read

/-- A member that has a default. -/
def defaulted? {α : Type} (key : String) (default : α) (read : Json → Option α)
    (members : List (String × Json)) : Option α :=
  match lookup? key members with
  | some value => read value
  | none => some default

/-- A member that may be missing or null. -/
def nullable? {α : Type} (key : String) (read : Json → Option α)
    (members : List (String × Json)) : Option (Option α) :=
  match lookup? key members with
  | none => some none
  | some .null => some none
  | some value => (read value).map some

/-- Whether a key occurs more than once. -/
def repeats (key : String) (members : List (String × Json)) : Bool :=
  decide (1 < (members.filter fun entry => entry.1 == key).length)

/-- The name of a choice and its content, where it has one. -/
def alternative? : Json → Option (String × Option Json)
  | .string name => some (name, none)
  | .object [(name, content)] => some (name, some content)
  | _ => none

/-- The content of an alternative without content. -/
def noContent : Option Json → Bool
  | none => true
  | some .null => true
  | some _ => false

/-- A choice between names without content. -/
def asChoice? {α : Type} (choices : List (String × α)) (value : Json) : Option α := do
  let (name, content) ← value.alternative?
  if noContent content then (choices.find? fun c => c.1 == name).map Prod.snd else none

/-- A dictionary of texts that is empty when missing. -/
def textDict? (key : String) (members : List (String × Json)) : Option (Dict String) :=
  defaulted? key [] (asDict? asString?) members

end Lineage.Json
