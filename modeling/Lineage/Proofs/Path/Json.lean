import Lineage.Path.Json
import Lineage.Proofs.Json.Reader

set_option autoImplicit false

/-!
# Paths are read back

## Main results

* `Lineage.Path.ofJson?_toJson`: a path is read back from its value.
* `Lineage.Path.nesting_toJson_le`: the value of a path nests no deeper than the one it was read
  from.
-/

namespace Lineage.Path

open Json

/-! ### Values of paths -/

/-- The value of a path nests two levels deeper than those of the nodes below it. -/
lemma nesting_toJson_cons (label : String) (p : Path) (ps : List Path) :
    nesting (toJson (.node label (p :: ps))) = nestingOfItems (toJsonList (p :: ps)) + 2 := by
  simp [toJson, nesting, nestingOfMembers]

mutual

/-- The value of a path has no numbers and no further members. -/
theorem isVerbal_toJson : ∀ p : Path, isVerbal memberNames.contains p.toJson = true
  | .node _ [] => rfl
  | .node _ (p :: ps) => by
    have hps := areVerbal_toJsonList (p :: ps)
    simpa [toJson, isVerbal, areVerbalMembers, memberNames] using hps

/-- The values of paths have no numbers and no further members. -/
theorem areVerbal_toJsonList : ∀ ps : List Path,
    areVerbal memberNames.contains (toJsonList ps) = true
  | [] => rfl
  | p :: ps => by
    rw [toJsonList, areVerbal, isVerbal_toJson p, areVerbal_toJsonList ps]
    rfl

end

mutual

/-- **A path is read back** from its value. -/
theorem ofJson?_toJson : ∀ p : Path, ofJson? p.toJson = some p
  | .node label [] => by
    rw [toJson, ofJson?]
    simp [repeats, required?, lookup?, asString?, subPathsIn?]
  | .node label (p :: ps) => by
    rw [toJson, ofJson?]
    simp [repeats, required?, lookup?, asString?, subPathsIn?, ofJsonList?_toJsonList (p :: ps)]

/-- Paths are read back from their values. -/
theorem ofJsonList?_toJsonList : ∀ ps : List Path, ofJsonList? (toJsonList ps) = some ps
  | [] => by rw [toJsonList, ofJsonList?]
  | p :: ps => by
    rw [toJsonList, ofJsonList?, ofJson?_toJson p, ofJsonList?_toJsonList ps]
    rfl

end

/-! ### Paths that have been read -/

mutual

/-- **The value of a path nests no deeper** than the one it was read from. -/
theorem nesting_toJson_le : ∀ {v : Json} {p : Path}, ofJson? v = some p →
    nesting p.toJson ≤ nesting v
  | .object members, p, h => by
    rw [ofJson?] at h
    split_ifs at h
    · cases h
    · obtain ⟨label, -, h⟩ := Option.bind_eq_some_iff.mp h
      obtain ⟨ps, hps, h⟩ := Option.bind_eq_some_iff.mp h
      cases h
      rw [nesting]
      cases ps with
      | nil => exact Nat.le_add_left 1 _
      | cons p ps =>
        have hlt := nestingOfItems_lt_of_subPathsIn? hps
        rw [nesting_toJson_cons]
        omega
  | .array [.string label], p, h => by
    rw [ofJson?] at h
    cases h
    exact Nat.le_refl _
  | .array [.string label, .array items], p, h => by
    rw [ofJson?] at h
    obtain ⟨ps, hps, rfl⟩ := Option.map_eq_some_iff.mp h
    have hle := nestingOfItems_toJsonList_le hps
    have hnesting : nesting (.array [.string label, .array items]) = nestingOfItems items + 2 := by
      simp [nesting, nestingOfItems]
    cases ps with
    | nil => exact Nat.le_add_left 1 _
    | cons p ps =>
      rw [nesting_toJson_cons, hnesting]
      omega
  | .null, _, h | .bool _, _, h | .int _, _, h | .float _, _, h | .string _, _, h => by
    rw [ofJson?] at h <;> cases h

/-- The nodes under `sub_paths` nest less deep than the members they were read from. -/
theorem nestingOfItems_lt_of_subPathsIn? : ∀ {members : List (String × Json)} {p : Path}
    {ps : List Path}, subPathsIn? members = some (p :: ps) →
    nestingOfItems (toJsonList (p :: ps)) < nestingOfMembers members
  | [], p, ps, h => by
    rw [subPathsIn?] at h
    cases h
  | (key, value) :: rest, p, ps, h => by
    unfold subPathsIn? at h
    rw [nestingOfMembers]
    split_ifs at h
    · split at h
      · rename_i items
        have hle := nestingOfItems_toJsonList_le h
        rw [nesting]
        omega
      · cases h
    · have hlt := nestingOfItems_lt_of_subPathsIn? h
      omega

/-- The values of paths nest no deeper than those they were read from. -/
theorem nestingOfItems_toJsonList_le : ∀ {items : List Json} {ps : List Path},
    ofJsonList? items = some ps → nestingOfItems (toJsonList ps) ≤ nestingOfItems items
  | [], ps, h => by
    rw [ofJsonList?] at h
    cases h
    exact Nat.le_refl _
  | item :: rest, ps, h => by
    rw [ofJsonList?] at h
    obtain ⟨p, hp, h⟩ := Option.bind_eq_some_iff.mp h
    obtain ⟨ps, hps, h⟩ := Option.bind_eq_some_iff.mp h
    cases h
    exact max_le_max (nesting_toJson_le hp) (nestingOfItems_toJsonList_le hps)

end

/-- Some of the values of paths nest no deeper than all of them. -/
lemma nestingOfItems_toJsonList_filter_le (keep : Path → Bool) (ps : List Path) :
    nestingOfItems (toJsonList (ps.filter keep)) ≤ nestingOfItems (toJsonList ps) := by
  induction ps with
  | nil => exact Nat.le_refl _
  | cons p ps ih =>
    rw [toJsonList, nestingOfItems]
    by_cases h : keep p = true
    · rw [List.filter_cons_of_pos h, toJsonList, nestingOfItems]
      exact max_le_max_left _ ih
    · rw [List.filter_cons_of_neg h]
      exact ih.trans (Nat.le_max_right _ _)

end Lineage.Path
