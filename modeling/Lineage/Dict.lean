set_option autoImplicit false

/-!
# Dictionaries sorted by key

A `Dict α` is an association list whose keys are strings in increasing order, each at most once.
It is the map of properties, named arguments and named parents: its order is the order in which
these are written.

## Main definitions

* `Lineage.Dict.insert`: set a key, replacing an older value and keeping the order.
* `Lineage.Dict.find?`: the value under a key.
* `Lineage.Dict.ofList`: a dictionary from pairs in any order, a later pair wins.
* `Lineage.Dict.Sorted`: the order invariant.
-/

namespace Lineage

/-- An association list; `Dict.insert` keeps its keys sorted and distinct. -/
abbrev Dict (α : Type) := List (String × α)

namespace Dict

variable {α β : Type}

/-- Set `key` to `value`; the key keeps its place in the order of keys. -/
def insert (key : String) (value : α) : Dict α → Dict α
  | [] => [(key, value)]
  | (k, v) :: rest =>
    if key < k then (key, value) :: (k, v) :: rest
    else if key = k then (key, value) :: rest
    else (k, v) :: insert key value rest

/-- The value under `key`. -/
def find? (key : String) (d : Dict α) : Option α :=
  (List.find? (fun entry => entry.1 == key) d).map Prod.snd

/-- Whether `key` has a value. -/
def contains (key : String) (d : Dict α) : Bool :=
  List.any d (fun entry => entry.1 == key)

/-- The dictionary of a list of pairs; of two pairs with one key the later wins. -/
def ofList (pairs : List (String × α)) : Dict α :=
  pairs.foldl (fun d entry => insert entry.1 entry.2 d) []

/-- Apply `f` to every value. -/
def mapValues (f : α → β) (d : Dict α) : Dict β :=
  List.map (fun entry => (entry.1, f entry.2)) d

/-- The values, in the order of their keys. -/
def values (d : Dict α) : List α :=
  List.map Prod.snd d

/-- The keys increase strictly. -/
def Sorted (d : Dict α) : Prop :=
  List.Pairwise (fun a b => a.1 < b.1) d

end Dict

end Lineage
