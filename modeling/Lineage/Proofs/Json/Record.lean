import Mathlib.Tactic.Basic
import Lineage.Json.Record
import Lineage.Proofs.Dict

set_option autoImplicit false

/-!
# Records are read back

A record is written with its members in a fixed order, of which empty ones are left out. What is
left out is what a reader takes for a missing member.

## Main definitions

* `Lineage.Number.IsInt64`, `Lineage.Number.IsNat64`: the whole numbers of a word.

## Main results

* `Lineage.Json.asListOf?_map`, `Lineage.Json.asDict?_map`: lists and dictionaries are read back if
  their items are.
* `Lineage.Json.textDict?_dictMember`: so is a dictionary of texts that is left out when there is
  none.
* `Lineage.Json.textDict?_headed`, `Lineage.Json.defaulted?_headed`: the properties and the
  description of a record that begins with a name.
-/

namespace Lineage

namespace Number

/-- A whole number of 64 bits with sign. -/
def IsInt64 (n : Int) : Prop := least64 ≤ n ∧ n ≤ greatest64

/-- A whole number of 64 bits without sign. -/
def IsNat64 (n : ℕ) : Prop := n < word64

end Number

namespace Json

variable {α β : Type} {key : String} {ms : List (String × Json)}

/-! ### Values of one sort -/

/-- A whole number is read back. -/
lemma asInt64?_int {n : Int} (h : Number.IsInt64 n) : asInt64? (.int n) = some n := if_pos h

/-- A whole number without sign is read back. -/
lemma asNat64?_ofNat {n : ℕ} (h : Number.IsNat64 n) : asNat64? (ofNat n) = some n := by
  have hbounds : (0 : Int) ≤ n ∧ (n : Int) ≤ Number.word64 - 1 := by
    unfold Number.IsNat64 at h
    omega
  rw [asNat64?, ofNat, asIntIn?, if_pos hbounds]
  rfl

/-- A finite double is read back. -/
lemma asFloat?_ofFloat {x : Float} (h : Binary64.isFinite x = true) :
    asFloat? (ofFloat x) = some x := by
  rw [ofFloat, if_pos h]
  rfl

/-- What is written of items is read back item by item. -/
lemma mapM_map_eq_some {write : α → β} {read : β → Option α} {items : List α}
    (h : ∀ a ∈ items, read (write a) = some a) : (items.map write).mapM read = some items := by
  induction items with
  | nil => rfl
  | cons a items ih =>
    obtain ⟨ha, hitems⟩ := List.forall_mem_cons.mp h
    rw [List.map_cons, List.mapM_cons, ha, ih hitems]
    rfl

/-- A list is read back if its items are. -/
lemma asListOf?_map {write : α → Json} {read : Json → Option α} {items : List α}
    (h : ∀ a ∈ items, read (write a) = some a) :
    asListOf? read (.array (items.map write)) = some items :=
  mapM_map_eq_some h

/-- A dictionary is read back if its values are. -/
lemma asDict?_map {write : α → Json} {read : Json → Option α} {d : Dict α} (hsorted : d.Sorted)
    (h : ∀ entry ∈ d, read (write entry.2) = some entry.2) :
    asDict? read (.object (d.map fun entry => (entry.1, write entry.2))) = some d := by
  have hentries : (d.map fun entry => (entry.1, write entry.2)).mapM
      (fun entry => (read entry.2).map fun a => (entry.1, a)) = some d :=
    mapM_map_eq_some fun entry hentry => by rw [h entry hentry]; rfl
  rw [asDict?]
  simp only [asObject?, Option.bind_eq_bind, Option.bind_some, hentries]
  rw [Dict.ofList_of_sorted hsorted]

/-! ### Members -/

/-- A dictionary of texts is read back from the member that holds it, which is left out when the
dictionary is empty. -/
lemma textDict?_dictMember {d : Dict String} (hsorted : d.Sorted) :
    textDict? key (dictMember key d) = some d := by
  rw [textDict?, defaulted?, dictMember]
  cases d with
  | nil => rfl
  | cons entry d =>
    simpa [lookup?] using asDict?_map hsorted fun entry _ => (rfl : asString? (.string entry.2) = _)

/-- Members of other keys in front of a member do not matter. -/
lemma lookup?_append {first : List (String × Json)} (h : ∀ entry ∈ first, entry.1 ≠ key) :
    lookup? key (first ++ ms) = lookup? key ms := by
  have hnone : first.find? (fun entry => entry.1 == key) = none :=
    List.find?_eq_none.mpr fun entry hentry => by simpa using h entry hentry
  rw [lookup?, List.find?_append, hnone, Option.none_or]
  rfl

/-- Members of other keys in front of the member of a dictionary do not matter. -/
lemma textDict?_append {first : List (String × Json)} (h : ∀ entry ∈ first, entry.1 ≠ key) :
    textDict? key (first ++ ms) = textDict? key ms := by
  rw [textDict?, defaulted?, lookup?_append h]
  rfl

/-! ### Records with a name and properties -/

section Headed

variable {name doc : String} {others : List (String × Json)} {properties : Dict String}

/-- The properties at the end of a record are read back. -/
lemma textDict?_headed (hsorted : properties.Sorted)
    (hothers : ∀ entry ∈ others, entry.1 ≠ "properties") :
    textDict? "properties" ([("name", .string name)]
      ++ (if doc = "" then [] else [("doc", .string doc)]) ++ others
      ++ dictMember "properties" properties) = some properties := by
  have hfirst : ∀ entry ∈ [("name", Json.string name)]
      ++ (if doc = "" then [] else [("doc", .string doc)]) ++ others, entry.1 ≠ "properties" := by
    by_cases hdoc : doc = "" <;> simpa [hdoc] using hothers
  rw [textDict?_append hfirst, textDict?_dictMember hsorted]

/-- The description behind the name is read back. -/
lemma defaulted?_headed (hothers : ∀ entry ∈ others, entry.1 ≠ "doc") :
    defaulted? "doc" "" asString? ([("name", .string name)]
      ++ (if doc = "" then [] else [("doc", .string doc)]) ++ others
      ++ dictMember "properties" properties) = some doc := by
  by_cases hdoc : doc = ""
  · have hfirst : ∀ entry ∈ [("name", Json.string name)] ++ others, entry.1 ≠ "doc" := by
      simpa using hothers
    rw [if_pos hdoc, List.append_nil, defaulted?, lookup?_append hfirst, hdoc]
    cases properties <;> rfl
  · rw [if_neg hdoc]
    simp [defaulted?, lookup?, asString?]

end Headed

end Json

end Lineage
