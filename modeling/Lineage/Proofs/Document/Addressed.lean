import Lineage.Proofs.Document.Projection
import Lineage.Proofs.Ty.Cut

set_option autoImplicit false

/-!
# What a filter narrows and what other steps address

All steps of a document address a part of the rows by a dotted name. Filters cross optional types
without a label, and all other steps take one label for each. So the name of a filter has to be
spelled out, with a label for every optional type that its labels lead into, before it addresses the
part that the filter narrows. Where there is no such type, this is the name itself.

## Main definitions

* `Lineage.Ty.spelled`: labels with one for every optional type that they lead into.

## Main results

* `Lineage.Ty.along_narrow`: the part that is narrowed, before and after.
* `Lineage.Ty.length_spelled`: labels that are spelled out are the same ones or more.
* `Lineage.Document.addressed_narrow`: when filters, items and projections address one part.
-/

namespace Lineage

namespace Ty

open Document (Bound narrow narrowMember)

variable {b : Bound} {full : String}

mutual

/-- The labels with one for every optional type that they lead into. -/
def spelled : Ty → List String → List String
  | _, [] => []
  | .wrapped _ .optional inner, head :: rest => optionalValue :: spelled inner (head :: rest)
  | .members _ _ fields, head :: rest => head :: spelledMember head rest fields
  | _, head :: rest => head :: rest

/-- The labels behind that of a member, with one for every optional type that they lead into. -/
def spelledMember (head : String) (rest : List String) : List (String × Ty) → List String
  | [] => rest
  | (name, t) :: fields =>
    if name = head then spelled t rest else spelledMember head rest fields

end

@[simp] lemma spelled_nil (t : Ty) : spelled t [] = [] := by
  unfold spelled
  cases t <;> rfl

mutual

/-- **The part that is narrowed** is where the labels lead that are spelled out. It is narrowed as
if it stood alone.

**Proof sketch.** By induction on the type, together with its members. A filter goes on inside
an optional type with the same labels, and there the labels that are spelled out have one
more. -/
theorem along_narrow : ∀ (t : Ty) (labels : List String) {t' : Ty},
    narrow b full t labels = .ok t' → ∃ u u', along? (spelled t labels) t = some u ∧
      narrow b full u [] = .ok u' ∧ along? (spelled t labels) t' = some u'
  | t, [], t', h => by
    rw [spelled_nil]
    exact ⟨t, t', rfl, h, rfl⟩
  | .leaf _ _, _ :: _, _, h => by cases h
  | .hypothesis _ _, _ :: _, _, h => by cases h
  | .members _ _ fields, head :: rest, _, h => by
    obtain ⟨⟨part, hpart⟩, fields', hfields, rfl⟩ := narrow_members_cons_eq_ok.mp h
    obtain ⟨part', u, u', hpart', hu, hnarrow, hu'⟩ :=
      along_narrowMember head rest fields hfields hpart
    refine ⟨u, u', ?_, hnarrow, ?_⟩
    · rw [spelled, along?, step?, hpart]
      exact hu
    · rw [spelled, along?, step?, hpart']
      exact hu'
  | .wrapped _ wrapper inner, head :: rest, _, h => by
    cases wrapper with
    | optional =>
      simp only [narrow] at h
      obtain ⟨inner', hinner, rfl⟩ := Outcome.map_eq_ok.mp h
      exact along_narrow inner (head :: rest) hinner
    | list maxSize | array shape | constrained constraint => cases h

/-- The part of a member that is narrowed is where the labels lead that are spelled out. -/
theorem along_narrowMember (head : String) (rest : List String) :
    ∀ (fields : List (String × Ty)) {fields' : List (String × Ty)} {part : Ty},
      narrowMember b full head rest fields = .ok fields' → lookup? head fields = some part →
      ∃ part' u u', lookup? head fields' = some part' ∧
        along? (spelledMember head rest fields) part = some u ∧ narrow b full u [] = .ok u' ∧
        along? (spelledMember head rest fields) part' = some u'
  | [], _, _, _, hpart => by cases hpart
  | (name, t) :: fields, _, _, h, hpart => by
    obtain ⟨first, others, hfirst, hothers, rfl⟩ := narrowMember_cons_eq_ok.mp h
    by_cases hname : name = head
    · subst hname
      rw [lookup?_cons_self] at hpart
      cases hpart
      rw [if_pos rfl] at hfirst
      rw [lookup?_cons_self, spelledMember, if_pos rfl]
      obtain ⟨u, u', hu, hnarrow, hu'⟩ := along_narrow t rest hfirst
      exact ⟨first, u, u', rfl, hu, hnarrow, hu'⟩
    · rw [lookup?_cons_of_ne hname] at hpart ⊢
      rw [spelledMember, if_neg hname]
      exact along_narrowMember head rest fields hothers hpart

end

mutual

/-- **Labels that are spelled out** are the same ones, or more. -/
theorem length_spelled : ∀ (t : Ty) (labels : List String),
    spelled t labels = labels ∨ labels.length < (spelled t labels).length
  | t, [] => .inl (spelled_nil t)
  | .leaf _ _, _ :: _ => .inl rfl
  | .hypothesis _ _, _ :: _ => .inl rfl
  | .members _ _ fields, head :: rest => by
    rw [spelled]
    rcases length_spelledMember head rest fields with h | h
    · exact .inl (by rw [h])
    · exact .inr (Nat.succ_lt_succ h)
  | .wrapped _ wrapper inner, head :: rest => by
    cases wrapper with
    | optional =>
      rw [spelled]
      rcases length_spelled inner (head :: rest) with h | h
      · exact .inr (by rw [h]; exact Nat.lt_succ_self _)
      · exact .inr (Nat.lt_succ_of_lt h)
    | list maxSize | array shape | constrained constraint => exact .inl rfl

/-- Labels that are spelled out behind a member are the same ones, or more. -/
theorem length_spelledMember (head : String) (rest : List String) :
    ∀ fields : List (String × Ty), spelledMember head rest fields = rest ∨
      rest.length < (spelledMember head rest fields).length
  | [] => .inl rfl
  | (name, t) :: fields => by
    rw [spelledMember]
    split
    · exact length_spelled t rest
    · exact length_spelledMember head rest fields

end

end Ty

namespace Document

variable {b : Bound} {dotted : String} {labels : List String} {t t' : Ty}

/-- **What a dotted name addresses.** The part that a filter narrows is the one under the labels
that are spelled out, and is narrowed as if it stood alone. If no optional type is led into, the
name itself addresses it, in the type and in the narrowed type; it is the item under the name, and
is what a projection to the name leaves there. Otherwise the part lies further down than the name
leads.

**Proof sketch.** The filter narrows the part under the labels that are spelled out
(`Ty.along_narrow`). If these are the labels themselves, they are the only way of the path,
and of the projection, which takes the type at their end whole
(`Ty.exists_along_of_selectBelow`). -/
theorem addressed_narrow (hlabels : labelsOf dotted = .ok labels)
    (h : narrow b dotted t labels = .ok t') :
    ∃ u u', t.get (Path.ofLabels (t.spelled labels)) = .ok u ∧ narrow b dotted u [] = .ok u' ∧
      t'.get (Path.ofLabels (t.spelled labels)) = .ok u' ∧
      (t.spelled labels = labels ∨ labels.length < (t.spelled labels).length) ∧
      (t.spelled labels = labels → ∃ path projection, Path.parse dotted = .ok path ∧
        t.get path = .ok u ∧ t'.get path = .ok u' ∧ t.subTypes path = .ok [u] ∧
        projectionPath [dotted] = .ok projection ∧
        ∀ target, t.select projection = .ok target → target.get path = .ok u) := by
  obtain ⟨u, u', hu, hnarrow, hu'⟩ := Ty.along_narrow t labels h
  refine ⟨u, u', Ty.get_ofLabels_eq_ok.mpr hu, hnarrow, Ty.get_ofLabels_eq_ok.mpr hu',
    Ty.length_spelled t labels, fun hspelled => ?_⟩
  rw [hspelled] at hu hu'
  refine ⟨Path.ofLabels labels, .node "" (merged [labels]), labelsOf_eq_ok.mp hlabels,
    Ty.get_ofLabels_eq_ok.mpr hu, Ty.get_ofLabels_eq_ok.mpr hu',
    (Ty.subTypes_eq_ok (Path.steps?_ofLabels labels)).mpr ⟨u, hu, rfl⟩, ?_,
    fun target htarget => ?_⟩
  · rw [projectionPath, List.mapM_cons, hlabels]
    rfl
  · have hends : [] ∈ beyond labels [labels] := mem_beyond.mpr (by simp)
    have hpath : Ty.nodesAlong? labels (merged [labels]) = some (merged (beyond labels [labels])) :=
      Ty.nodesAlong?_merged (List.ne_nil_of_mem hends)
    obtain ⟨whole, part, hwhole, hpart, hselect⟩ := Ty.exists_along_of_selectBelow htarget hpath
    cases hwhole.symm.trans hu
    have hnothing : merged (beyond labels [labels]) = [] := by
      refine merged_eq_nil.mpr fun way hway => ?_
      simpa using mem_beyond.mp hway
    rw [hnothing, Ty.selectBelow] at hselect
    cases hselect
    exact Ty.get_ofLabels_eq_ok.mpr hpart

/-- A number that may be absent, in a branch of a union. -/
theorem addressed_narrow_payment :
    let number : Ty := .integer Number.least64 Number.greatest64
    let payments (amount : Ty) : Ty :=
      .struct [("paid", .union [("cash", .optional amount), ("card", .text)]), ("at", .text)]
    let b : Bound := ⟨some 5, none, none⟩
    let left : Ty := .integer 5 Number.greatest64
    labelsOf "paid.cash" = .ok ["paid", "cash"] ∧
      narrow b "paid.cash" (payments number) ["paid", "cash"] = .ok (payments left) ∧
      ∃ u u', (payments number).get
          (Path.ofLabels ((payments number).spelled ["paid", "cash"])) = .ok u ∧
        narrow b "paid.cash" u [] = .ok u' ∧
        (payments left).get (Path.ofLabels ((payments number).spelled ["paid", "cash"])) = .ok u' ∧
        ((payments number).spelled ["paid", "cash"] = ["paid", "cash"] ∨
          ["paid", "cash"].length < ((payments number).spelled ["paid", "cash"]).length) ∧
        ((payments number).spelled ["paid", "cash"] = ["paid", "cash"] →
          ∃ path projection, Path.parse "paid.cash" = .ok path ∧
            (payments number).get path = .ok u ∧ (payments left).get path = .ok u' ∧
            (payments number).subTypes path = .ok [u] ∧
            projectionPath ["paid.cash"] = .ok projection ∧
            ∀ target, (payments number).select projection = .ok target →
              target.get path = .ok u) := by
  intro number payments b left
  have hlabels : labelsOf "paid.cash" = .ok ["paid", "cash"] :=
    labelsOf_eq_ok.mpr (by decide +kernel)
  have hleast : Bound.wholeLeast 5 = 5 := by decide +kernel
  have hnarrow : narrow b "paid.cash" (payments number) ["paid", "cash"] =
      .ok (payments left) := by
    have hmax : max (Bound.wholeLeast 5) Number.least64 = 5 := by
      rw [hleast]
      decide
    change Except.ok (payments (.integer (max (Bound.wholeLeast 5) Number.least64) _)) = _
    rw [hmax]
    rfl
  exact ⟨hlabels, hnarrow, addressed_narrow hlabels hnarrow⟩

/-- **A filter and an item of one name need not address one part**: behind an optional struct, the
filter narrows the inner of two numbers, and the name addresses the outer one. -/
theorem not_addressed_behind_optional :
    let number : Ty := .integer Number.least64 Number.greatest64
    let t : Ty :=
      .struct [("a", .optional (.struct [("b", .struct [("c", number)]), ("c", number)]))]
    let b : Bound := ⟨some 5, none, none⟩
    let path : Path := Path.ofLabels ["a", "b", "c"]
    labelsOf "a.b.c" = .ok ["a", "b", "c"] ∧ Path.parse "a.b.c" = .ok path ∧
      ∃ t' u u', narrow b "a.b.c" t ["a", "b", "c"] = .ok t' ∧ t.get path = .ok u ∧
        narrow b "a.b.c" u [] = .ok u' ∧ t'.get path ≠ .ok u' := by
  intro number t b path
  have hparse : Path.parse "a.b.c" = .ok path := by decide +kernel
  have hmoved : Number.least64 ≠ max (Bound.wholeLeast 5) Number.least64 := by decide +kernel
  refine ⟨labelsOf_eq_ok.mpr hparse, hparse, _, number, _, rfl,
    Ty.get_ofLabels_eq_ok.mpr rfl, rfl, fun h => hmoved ?_⟩
  have hpart : some number = some (.integer (max (Bound.wholeLeast 5) Number.least64) _) :=
    Ty.get_ofLabels_eq_ok.mp h
  simp only [number, Ty.integer, Ty.ofLeaf, Option.some.injEq, Ty.leaf.injEq,
    Leaf.integer.injEq] at hpart
  exact hpart.2.1

end Document

end Lineage
