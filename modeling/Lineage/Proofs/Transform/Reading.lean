import Lineage.Proofs.Transform.Json
import Lineage.Proofs.Ty.Reading

set_option autoImplicit false

/-!
# Transforms are read back

## Main definitions

* `Lineage.Transform.Proper`: what the parts of a transform can hold.

## Main results

* `Lineage.Step.ofMembers?_members`: the members of an operation are read back.
* `Lineage.Transform.ofJson?_toJson`: a proper transform is read back from its value.
-/

namespace Lineage

open Json

/-! ### Sizes and positions -/

/-- What a sample size can hold: a finite double or a whole number of 64 bits without sign. -/
def SampleSize.Proper : SampleSize → Prop
  | .fraction part => Binary64.isFinite part = true
  | .size rows => Number.IsNat64 rows

/-- A sample size is read back. -/
lemma SampleSize.ofJson?_toJson {size : SampleSize} (h : size.Proper) :
    ofJson? size.toJson = some size := by
  cases size with
  | fraction part => simp [toJson, ofJson?, asFloat?_ofFloat h]
  | size rows => simp [toJson, ofJson?, asNat64?_ofNat h]

/-- What a position can hold: a whole number of 64 bits without sign, or a name. -/
def Position.Proper : Position → Prop
  | .index i => Number.IsNat64 i
  | .name _ => True

/-- A position is read back. -/
lemma Position.ofJson?_toJson {position : Position} (h : position.Proper) :
    ofJson? position.toJson = some position := by
  cases position with
  | index i => simp [toJson, ofJson?, asNat64?_ofNat h]
  | name n => simp [toJson, ofJson?, asString?]

/-- A kind of nodes is read back. -/
lemma NodeKind.ofJson?_toJson (kind : NodeKind) : ofJson? kind.toJson = some kind := by
  cases kind <;> rfl

/-! ### Steps -/

/-- What an operation can hold: proper types and sizes, and whole numbers that fit their words. -/
def Step.Proper : Step → Prop
  | .filter target => target.Proper
  | .project target => target.Proper
  | .sample size => size.Proper
  | .differentiatedSample size => size.Proper
  | .slice start stop => Number.IsInt64 start ∧ Number.IsInt64 stop
  | .extract size seed => Number.IsNat64 size ∧ Number.IsNat64 seed
  | _ => True

/-- **The members of an operation are read back**, if it has any. -/
lemma Step.ofMembers?_members {s : Step} (h : s.Proper) (hmembers : s ≠ .shuffle) :
    ofMembers? s.kindName s.members = some s := by
  cases s with
  | filter target =>
    simp [kindName, members, ofMembers?, required?, lookup?, Ty.ofJson?_toJson h]
  | project target =>
    simp [kindName, members, ofMembers?, required?, lookup?, Ty.ofJson?_toJson h]
  | getItem path => simp [kindName, members, ofMembers?, required?, lookup?, Path.ofJson?_toJson]
  | sample size =>
    simp [kindName, members, ofMembers?, required?, lookup?, SampleSize.ofJson?_toJson h]
  | slice start stop =>
    simp [kindName, members, ofMembers?, required?, lookup?, asInt64?_int h.1, asInt64?_int h.2]
  | extract size seed =>
    simp [kindName, members, ofMembers?, required?, lookup?, asNat64?_ofNat h.1,
      asNat64?_ofNat h.2]
  | selectSql query => simp [kindName, members, ofMembers?, required?, lookup?, asString?]
  | shuffle => exact absurd rfl hmembers
  | differentiatedSample size =>
    simp [kindName, members, ofMembers?, required?, lookup?, SampleSize.ofJson?_toJson h]
  | external call =>
    simp [kindName, members, ofMembers?, required?, defaulted?, lookup?, asString?,
      NodeKind.ofJson?_toJson]

namespace Transform

/-! ### Transforms -/

/-- What a transform can hold: proper operations and positions, and properties and named arguments
in the order of their keys. -/
inductive Proper : Transform → Prop
  /-- One operation. -/
  | step {h : Heading} {content : Step} (properties : h.properties.Sorted)
      (range : content.Proper) : Proper (.step h content)
  /-- A variable. -/
  | place {h : Heading} {position : Position} (properties : h.properties.Sorted)
      (range : position.Proper) : Proper (.variable h position)
  /-- A composition. -/
  | composed {h : Heading} {head : Transform} {arguments : List Transform}
      {named : List (String × Transform)} (properties : h.properties.Sorted)
      (sorted : Dict.Sorted named) (first : Proper head) (positional : ∀ t ∈ arguments, Proper t)
      (keyed : ∀ entry ∈ named, Proper entry.2) : Proper (.composed h head arguments named)

/-- The heading of a transform is read back, and its operation is found. -/
lemma ofJson?_headingJson {h : Heading} (hproperties : h.properties.Sorted) (spec : Json) :
    ofJson? (headingJson spec h) = ofSpec? h spec := by
  obtain ⟨name, doc, properties⟩ := h
  have hothers : ∀ entry ∈ [("spec", spec)], entry.1 ≠ "doc" ∧ entry.1 ≠ "properties" := by simp
  have hheading : headingOf? ([("name", .string name)]
      ++ (if doc = "" then [] else [("doc", .string doc)]) ++ [("spec", spec)]
      ++ dictMember "properties" properties) = some ⟨name, doc, properties⟩ := by
    rw [headingOf?, textDict?_headed hproperties fun entry hentry => (hothers entry hentry).2,
      defaulted?_headed fun entry hentry => (hothers entry hentry).1]
    simp [required?, lookup?, asString?]
  rw [headingJson, ofJson?, hheading, Option.bind_some]
  by_cases hdoc : doc = "" <;> simp [hdoc, specIn?]

/-- Transforms are read back from their list if each of them is. -/
lemma listOf?_listJson {ts : List Transform} (h : ∀ t ∈ ts, ofJson? t.toJson = some t) :
    listOf? (listJson ts) = some ts := by
  induction ts with
  | nil => rw [listJson, listOf?]
  | cons t ts ih =>
    obtain ⟨hfirst, hrest⟩ := List.forall_mem_cons.mp h
    rw [listJson, listOf?, hfirst, ih hrest]
    rfl

/-- Named transforms are read back if each of them is. -/
lemma namedOf?_namedJson {ts : List (String × Transform)}
    (h : ∀ entry ∈ ts, ofJson? entry.2.toJson = some entry.2) :
    namedOf? (namedJson ts) = some ts := by
  induction ts with
  | nil => rw [namedJson, namedOf?]
  | cons entry ts ih =>
    obtain ⟨hfirst, hrest⟩ := List.forall_mem_cons.mp h
    rw [namedJson, namedOf?, hfirst, ih hrest]
    rfl

/-- **A proper transform is read back** from its value. -/
theorem ofJson?_toJson {t : Transform} (h : t.Proper) : ofJson? t.toJson = some t := by
  induction h with
  | @step heading content properties range =>
    rw [toJson, ofJson?_headingJson properties]
    by_cases hshuffle : content = .shuffle
    · subst hshuffle
      simp [Step.toJson, Step.kindName, ofSpec?]
    · have hjson : content.toJson = .object [(content.kindName, .object content.members)] := by
        cases content <;> first | rfl | exact absurd rfl hshuffle
      have hkind := stepKind_ne content
      rw [hjson, ofSpec?, if_neg hkind.1, if_neg hkind.2,
        Step.ofMembers?_members range hshuffle]
      rfl
  | @place heading position properties range =>
    rw [toJson, ofJson?_headingJson properties]
    simp [ofSpec?, required?, lookup?, Position.ofJson?_toJson range]
  | @composed heading head arguments named properties sorted first positional keyed ihhead
      iharguments ihnamed =>
    rw [toJson, ofJson?_headingJson properties]
    simp [ofSpec?, headIn?, argumentsIn?, namedIn?, ihhead, listOf?_listJson iharguments,
      namedOf?_namedJson ihnamed, Dict.ofList_of_sorted sorted]

end Transform

end Lineage
