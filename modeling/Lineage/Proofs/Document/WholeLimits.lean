import Lineage.Document.Reader
import Lineage.Proofs.Document.Declared

set_option autoImplicit false

/-!
# Whole limits as they are written

Limits of fields and of filters are doubles, also where a document writes whole numbers. A whole
number of 64 bits is read as the nearest double and moved back to a whole number of 64 bits. It
comes back as it was if its set bits span at most 53 places, or if it is the greatest one; another
number comes back as a neighbour.

## Main definitions

* `Lineage.Binary64.FitsMantissa`: whole numbers that are doubles.
* `Lineage.Yaml.WritesWhole`: nodes that write a whole number.
* `Lineage.Document.keptLimit`: what is left of a whole limit.

## Main results

* `Lineage.Document.keptLimit_eq_iff`: which limits stay as they are.
* `Lineage.Document.FieldType.run_ofNode_of_perm`: a field with limits, read.
* `Lineage.Document.Bound.ofNode_of_limits`: limits of a filter, read.
* `Lineage.Document.written_limits_kept_iff`: the types that whole limits give.
-/

namespace Lineage

open Number (least64 greatest64)

/-! ### Whole numbers and their nearest doubles -/

namespace Binary64

variable {n m : ℕ} {a : ℤ} {x : Float}

/-- From the first to the last set bit of a whole number there are at most 53 places. -/
def FitsMantissa (a : ℤ) : Prop := 2 ^ (a.natAbs.log2 - 52) ∣ a.natAbs

instance : Decidable (FitsMantissa a) := inferInstanceAs (Decidable (_ ∣ _))

/-- A natural number is its own nearest double if it is a multiple of the last place. -/
lemma nearestNat_eq_self_iff : nearestNat n = n ↔ 2 ^ (n.log2 - 52) ∣ n := by
  constructor
  · intro h
    rw [← h]
    conv_lhs => rw [h]
    exact Dvd.intro_left _ rfl
  · rintro ⟨c, hc⟩
    have hround := divRoundEven_mul_self c (Nat.two_pow_pos (n.log2 - 52))
    rw [Nat.mul_comm, ← hc] at hround
    rw [nearestNat, hround, Nat.mul_comm, ← hc]

/-- **A whole number is its own nearest double** exactly if it fits. -/
theorem nearestInt_eq_self_iff : nearestInt a = a ↔ FitsMantissa a := by
  cases a with
  | ofNat n => exact Int.ofNat_inj.trans nearestNat_eq_self_iff
  | negSucc n =>
    have hsucc := nearestNat_eq_self_iff (n := n + 1)
    rw [FitsMantissa, Int.natAbs_negSucc, ← hsucc, nearestInt, Int.negSucc_eq]
    omega

end Binary64

/-! ### Nodes that write whole numbers -/

namespace Yaml

open Binary64 (Stands nearestInt isFinite)

variable {cs digits : List Char} {k : ℕ} {n : ℤ} {node : Node} {text : String}

/-- A node that writes a whole number: a plain scalar with digits, perhaps with a sign in front,
that do not start with a needless zero. -/
def WritesWhole (node : Node) (n : ℤ) : Prop :=
  ∃ text, node = .scalar none .plain text ∧ Number.intOfChars? text.toList = some n ∧
    isPaddedDigits text.toList = false

/-- A whole number is digits, perhaps with a sign in front. -/
lemma exists_digits (h : Number.intOfChars? cs = some n) :
    ∃ (digits : List Char) (k : ℕ), Number.natOfDigits? digits = some k ∧
      (cs = '-' :: digits ∧ n = -(k : ℤ) ∨ cs = '+' :: digits ∧ n = k ∨ cs = digits ∧ n = k) := by
  unfold Number.intOfChars? at h
  split at h
  · obtain ⟨_, hcast, rfl⟩ := Option.map_eq_some_iff.mp h
    obtain ⟨k, hk, heq⟩ := Option.bind_eq_some_iff.mp hcast
    obtain rfl := Option.some.inj heq
    exact ⟨_, k, hk, .inl ⟨rfl, rfl⟩⟩
  · obtain ⟨k, hk, rfl⟩ := Option.map_eq_some_iff.mp h
    exact ⟨_, k, hk, .inr (.inl ⟨rfl, rfl⟩)⟩
  · obtain ⟨k, hk, rfl⟩ := Option.map_eq_some_iff.mp h
    exact ⟨_, k, hk, .inr (.inr ⟨rfl, rfl⟩)⟩

/-- Digits start with a digit. -/
lemma exists_first_digit (h : Number.natOfDigits? digits = some k) :
    ∃ c rest, digits = c :: rest ∧ Number.isDigit c = true ∧
      ∀ d ∈ rest, Number.isDigit d = true := by
  obtain ⟨hne, hall, -⟩ := Binary64.natOfDigits?_eq_some_iff.mp h
  obtain ⟨c, rest, rfl⟩ := List.exists_cons_of_ne_nil hne
  exact ⟨c, rest, rfl, hall c List.mem_cons_self, fun d hd => hall d (List.mem_cons_of_mem c hd)⟩

/-- Digits have no sign. -/
lemma hasSign_of_digits (h : Number.natOfDigits? digits = some k) :
    hasSign digits = false ∧ withoutPlus digits = digits := by
  obtain ⟨c, rest, rfl, hc, -⟩ := exists_first_digit h
  have hplus : c ≠ '+' := by
    rintro rfl
    exact absurd hc (by decide)
  have hminus : c ≠ '-' := by
    rintro rfl
    exact absurd hc (by decide)
  refine ⟨?_, ?_⟩
  · unfold hasSign
    split <;> simp_all
  · unfold withoutPlus
    split <;> simp_all

/-- Digits are a whole number. -/
lemma intOfChars?_of_digits (h : Number.natOfDigits? digits = some k) :
    Number.intOfChars? digits = some k := by
  have hsign := (hasSign_of_digits h).1
  unfold Number.intOfChars?
  split
  · cases hsign
  · cases hsign
  · rw [h]
    rfl

/-- Digits have no mark of a base. -/
lemma natOfMarked?_of_digits (h : Number.natOfDigits? digits = some k) :
    natOfMarked? digits = none := by
  obtain ⟨c, rest, rfl, -, hrest⟩ := exists_first_digit h
  unfold natOfMarked?
  split
  · simp_all [Number.isDigit]
  · simp_all [Number.isDigit]
  · simp_all [Number.isDigit]
  · rfl

/-- A word that is no number is none of the words for numbers. -/
lemma contains_eq_false {words : List String}
    (hwords : ∀ word ∈ words, Number.intOfChars? word.toList = none)
    (h : Number.intOfChars? text.toList = some n) : words.contains text = false := by
  rw [List.contains_eq_mem, decide_eq_false_iff_not]
  intro hmem
  rw [hwords text hmem] at h
  cases h

/-- A whole number is no word for null or for a truth value, and no word for a number. -/
lemma not_words (h : Number.intOfChars? text.toList = some n) :
    text ≠ "" ∧ isNullText text = false ∧ boolOfText? text = none ∧ specialOfText? text = none := by
  refine ⟨?_, contains_eq_false (by decide) h, ?_, ?_⟩
  · rintro rfl
    cases h
  · rw [boolOfText?, contains_eq_false (by decide) h, contains_eq_false (by decide) h]
    rfl
  · rw [specialOfText?, contains_eq_false (by decide) h, contains_eq_false (by decide) h,
      contains_eq_false (by decide) h]
    rfl

/-- A whole number without needless zeros, as a sign and a size. -/
lemma wholeOfText?_eq (h : Number.intOfChars? text.toList = some n)
    (hpadded : isPaddedDigits text.toList = false) :
    ∃ negative size, wholeOfText? text = some (negative, size) ∧
      (if negative then -(size : ℤ) else size) = n := by
  obtain ⟨digits, k, hdigits, hsigns⟩ := exists_digits h
  obtain ⟨hsign, hplus⟩ := hasSign_of_digits hdigits
  have hmarked := natOfMarked?_of_digits hdigits
  have hsigned : isPaddedDigits ('-' :: digits) = isPaddedDigits digits ∧
      isPaddedDigits ('+' :: digits) = isPaddedDigits digits := by
    unfold isPaddedDigits
    rw [hsign]
    exact ⟨rfl, rfl⟩
  have hbody : isPaddedDigits digits = false := by
    rcases hsigns with ⟨hcs, -⟩ | ⟨hcs, -⟩ | ⟨hcs, -⟩ <;> rw [hcs] at hpadded
    · exact hsigned.1.symm.trans hpadded
    · exact hsigned.2.symm.trans hpadded
    · exact hpadded
  rcases hsigns with ⟨hcs, rfl⟩ | ⟨hcs, rfl⟩ | ⟨hcs, rfl⟩
  · refine ⟨true, k, ?_, rfl⟩
    simp [wholeOfText?, natOfChars?, negativeOfChars?, hcs, withoutPlus, hasSign, hmarked, hbody,
      hdigits]
  · refine ⟨false, k, ?_, rfl⟩
    simp [wholeOfText?, natOfChars?, hcs, withoutPlus, hsign, hmarked, hsigned.2, hbody, hdigits]
  · refine ⟨false, k, ?_, rfl⟩
    simp [wholeOfText?, natOfChars?, hcs, hplus, hsign, hmarked, hbody, hdigits]

/-- A whole number of 64 bits is read as the nearest double. -/
lemma floatOfText?_eq (h : Number.intOfChars? text.toList = some n)
    (hn : least64 ≤ n ∧ n ≤ greatest64) :
    ∃ x, floatOfText? text = some x ∧ Stands x (nearestInt n) := by
  have hfits : n.natAbs < 2 ^ 64 := by
    unfold least64 greatest64 at hn
    omega
  obtain ⟨digits, k, hdigits, hsigns⟩ := exists_digits h
  obtain ⟨hsign, hplus⟩ := hasSign_of_digits hdigits
  have hnumber : Number.intOfChars? (withoutPlus text.toList) = some n ∧
      (text.toList.head? == some '+' && hasSign (withoutPlus text.toList)) = false := by
    rcases hsigns with ⟨hcs, rfl⟩ | ⟨hcs, rfl⟩ | ⟨hcs, rfl⟩
    · rw [hcs] at h ⊢
      exact ⟨h, rfl⟩
    · refine ⟨?_, by rw [hcs, withoutPlus, hsign, Bool.and_false]⟩
      rw [hcs, withoutPlus]
      exact intOfChars?_of_digits hdigits
    · rw [hcs, hplus]
      rw [hcs] at h
      exact ⟨h, by rw [hsign, Bool.and_false]⟩
  have htext : Number.intOfChars? (String.ofList (withoutPlus text.toList)).toList = some n := by
    rw [String.toList_ofList]
    exact hnumber.1
  obtain ⟨x, hx, hstands⟩ := Binary64.exists_floatOfText? htext hfits
  obtain ⟨d, hd, -⟩ := hstands.exists_value
  refine ⟨x, ?_, hstands⟩
  rw [floatOfText?, (not_words h).2.2.2]
  simp [hnumber.2, hx, Binary64.isFinite_eq_true.mpr ⟨d, hd⟩]

/-- The value of a whole number of 64 bits. -/
lemma ofPlain?_eq (h : Number.intOfChars? text.toList = some n)
    (hpadded : isPaddedDigits text.toList = false) (hn : least64 ≤ n ∧ n ≤ greatest64) :
    ∃ negative size, Value.ofPlain? text = some (.int negative size) ∧
      (if negative then -(size : ℤ) else size) = n := by
  obtain ⟨negative, size, hwhole, hvalue⟩ := wholeOfText?_eq h hpadded
  obtain ⟨hempty, hnull, hbool, -⟩ := not_words h
  have hfits : size < (if negative then Number.pow2 63 + 1 else Number.word64) := by
    have hsizes : Number.pow2 63 = 2 ^ 63 ∧ Number.word64 = 2 ^ 64 := by decide
    rw [hsizes.1, hsizes.2]
    unfold least64 greatest64 at hn
    cases negative <;> simp at hvalue ⊢ <;> omega
  refine ⟨negative, size, ?_, hvalue⟩
  rw [Value.ofPlain?, hbool, hwhole]
  simp [hempty, hnull, Value.ofWhole?, hfits]

/-- A scalar is read as what is parsed from its text. -/
lemma readFloat_plain (text : String) :
    Node.readFloat (.scalar none .plain text) = Resolve.ofOption (floatOfText? text) := rfl

/-- **A limit of a field** that is a whole number of 64 bits is read as the nearest double. -/
lemma readOption_readFloat (h : WritesWhole node n) (hn : least64 ≤ n ∧ n ≤ greatest64) :
    ∃ x, Stands x (nearestInt n) ∧ Node.readOption Node.readFloat node = pure (some x) := by
  obtain ⟨text, rfl, htext, -⟩ := h
  obtain ⟨x, hx, hstands⟩ := floatOfText?_eq htext hn
  obtain ⟨hempty, hnull, -, -⟩ := not_words htext
  refine ⟨x, hstands, ?_⟩
  have hread : Node.readFloat (.scalar none .plain text) = pure x := by
    rw [readFloat_plain, hx]
    rfl
  change (if text = "" ∨ isNullText text = true then pure none
    else some <$> Node.readFloat (.scalar none .plain text) : Resolve (Option Float)) = _
  rw [if_neg (by simp [hempty, hnull]), hread, map_pure]

/-- **A limit of a filter** that is a whole number of 64 bits is read as the nearest double. -/
lemma asOption?_asFloat? (h : WritesWhole node n) (hn : least64 ≤ n ∧ n ≤ greatest64)
    (depth : ℕ) : ∃ x value, Stands x (nearestInt n) ∧ Value.ofNode depth node = pure value ∧
      Value.asOption? Value.asFloat? value = some (some x) := by
  obtain ⟨text, rfl, htext, hpadded⟩ := h
  obtain ⟨negative, size, hplain, hvalue⟩ := ofPlain?_eq htext hpadded hn
  refine ⟨Float.ofInt n, .int negative size, ?_, ?_, ?_⟩
  · unfold least64 greatest64 at hn
    exact Binary64.stands_ofInt (by omega)
  · have hscalar : Value.ofScalar? none .plain text = some (.int negative size) := hplain
    cases depth with
    | zero =>
      change Resolve.ofOption (Value.ofScalar? none .plain text) = _
      rw [hscalar]
      rfl
    | succ depth =>
      change Resolve.ofOption (Value.ofScalar? none .plain text) = _
      rw [hscalar]
      rfl
  · rw [← hvalue]
    rfl

/-! ### Mappings with plain keys -/

/-- A reading whose result is changed afterwards. -/
lemma Resolve.run_map_eq_some_iff {α β : Type} {g : α → β} {read : Resolve α} {tree : Tree}
    {s s' : ℕ} {b : β} : (g <$> read).run tree s = some (b, s') ↔
      ∃ a, read.run tree s = some (a, s') ∧ g a = b := by
  change ((read.run tree s).bind fun result => some (g result.1, result.2)) = _ ↔ _
  rw [Option.bind_eq_some_iff]
  constructor
  · rintro ⟨⟨a, t⟩, ha, heq⟩
    obtain ⟨rfl, rfl⟩ := Prod.mk.inj (Option.some.inj heq)
    exact ⟨a, ha, rfl⟩
  · rintro ⟨a, ha, rfl⟩
    exact ⟨(a, s'), ha, rfl⟩

/-- The mapping of members under plain keys. -/
def Node.ofMembers (members : List (String × Node)) : Node :=
  .mapping none (members.map fun member => (.scalar none .plain member.1, member.2))

/-- The members with known names. -/
def knownMembers (names : List String) (members : List (String × Node)) : List (String × Node) :=
  members.filter fun member => names.contains member.1

/-- The members of a record are the known ones, if no two have one name. -/
lemma readRecord_ofMembers (names : List String) (members : List (String × Node)) :
    (Node.ofMembers members).readRecord names =
      if ((knownMembers names members).map Prod.fst).Nodup then pure (knownMembers names members)
      else failure := by
  have hentries : (Node.ofMembers members).readEntries = pure members := by
    change (members.map fun member => (Node.scalar none .plain member.1, member.2)).mapM
      (fun entry => (do return (← entry.1.readText, entry.2) : Resolve (String × Node))) = _
    rw [List.mapM_map]
    exact List.mapM_pure.trans (by simp)
  rw [Node.readRecord, hentries, pure_bind]
  rfl

end Yaml

namespace Document

open Yaml (Node Resolve Value WritesWhole)

section

variable {α : Type} {members others : List (String × α)} {name : String} {a lo hi : α}

/-- The member with a name, where no two members have one name. -/
lemma find?_eq_some_iff (hnodup : (members.map Prod.fst).Nodup) :
    find? name members = some a ↔ (name, a) ∈ members := by
  induction members with
  | nil => simp [find?]
  | cons member members ih =>
    obtain ⟨first, b⟩ := member
    rw [List.map_cons, List.nodup_cons] at hnodup
    have hfind : find? name ((first, b) :: members) =
        if first = name then some b else find? name members := by
      unfold find?
      rw [List.find?_cons]
      by_cases h : first = name
      · simp [h]
      · simp [h, beq_eq_false_iff_ne.mpr h]
    rw [hfind, List.mem_cons, Prod.mk.injEq]
    by_cases h : first = name
    · subst h
      have hother : (first, a) ∉ members := fun hmem =>
        hnodup.1 (List.mem_map.mpr ⟨_, hmem, rfl⟩)
      simp [hother, eq_comm]
    · rw [if_neg h, ih hnodup.2]
      simp [Ne.symm h]

/-- A name that no member has. -/
lemma find?_eq_none (h : ∀ member ∈ members, member.1 ≠ name) : find? name members = none := by
  simpa [find?] using h

/-- Limits among other members. -/
lemma find?_of_perm (hnodup : (others.map Prod.fst).Nodup)
    (hothers : ∀ member ∈ others, member.1 ≠ "min" ∧ member.1 ≠ "max")
    (hmembers : members.Perm (("min", lo) :: ("max", hi) :: others)) :
    (members.map Prod.fst).Nodup ∧ find? "min" members = some lo ∧
      find? "max" members = some hi ∧
      ∀ name, name ≠ "min" → name ≠ "max" → find? name members = find? name others := by
  have hall : (members.map Prod.fst).Nodup := by
    rw [(hmembers.map Prod.fst).nodup_iff]
    simp only [List.map_cons, List.nodup_cons, List.mem_cons, List.mem_map, not_or]
    refine ⟨⟨by decide, ?_⟩, ?_, hnodup⟩
    · rintro ⟨member, hmem, heq⟩
      exact (hothers member hmem).1 heq
    · rintro ⟨member, hmem, heq⟩
      exact (hothers member hmem).2 heq
  refine ⟨hall, ?_, ?_, ?_⟩
  · rw [find?_eq_some_iff hall, hmembers.mem_iff]
    exact List.mem_cons_self
  · rw [find?_eq_some_iff hall, hmembers.mem_iff]
    exact List.mem_cons_of_mem _ List.mem_cons_self
  · intro name hmin hmax
    ext a
    rw [find?_eq_some_iff hall, find?_eq_some_iff hnodup, hmembers.mem_iff]
    simp [hmin, hmax]

end

/-! ### Fields with limits -/

namespace FieldType

open Yaml (knownMembers)

variable {members : List (String × Yaml.Node)} {lo hi : Yaml.Node} {x y : Option Float}
  {tree : Yaml.Tree} {s s' : ℕ} {f : FieldType}

/-- The field with other limits. -/
def withLimits (f : FieldType) (x y : Option Float) : FieldType :=
  { f with least := x, greatest := y }

/-- The names of the members of a field. -/
def memberNames : List String :=
  ["name", "type", "nullable", "min", "max", "values", "unique", "references"]

/-- The field of known members, its limits aside. -/
def readUnlimited (ms : List (String × Yaml.Node)) : Resolve FieldType := do
  return ⟨← required "name" Node.readText ms, ← required "type" Node.readText ms,
    ← defaulted "nullable" false Node.readBool ms, none, none,
    ← defaulted "values" [] (Node.readList Node.readText) ms,
    ← defaulted "unique" false Node.readBool ms, ← optional "references" Node.readText ms⟩

/-- A field is read from its known members, if no two have one name. -/
lemma ofNode_ofMembers
    (hx : optional "min" Node.readFloat (knownMembers memberNames members) = pure x)
    (hy : optional "max" Node.readFloat (knownMembers memberNames members) = pure y)
    (hnodup : ((knownMembers memberNames members).map Prod.fst).Nodup) :
    FieldType.ofNode (.ofMembers members) =
      (fun f => f.withLimits x y) <$> readUnlimited (knownMembers memberNames members) := by
  have hrecord := Yaml.readRecord_ofMembers memberNames members
  rw [if_pos hnodup] at hrecord
  unfold memberNames at *
  rw [FieldType.ofNode, hrecord, pure_bind, hx, hy]
  simp only [readUnlimited, pure_bind, map_bind, map_pure, withLimits]

/-- No two known members of a field that is read have one name. -/
lemma nodup_of_ofNode (h : (FieldType.ofNode (.ofMembers members)).run tree s = some (f, s')) :
    ((knownMembers memberNames members).map Prod.fst).Nodup := by
  by_contra hnodup
  have hrecord := Yaml.readRecord_ofMembers memberNames members
  rw [if_neg hnodup] at hrecord
  unfold memberNames at hrecord
  rw [FieldType.ofNode, hrecord] at h
  cases h

/-- What a field is, its limits aside, is told by its other members. -/
lemma readUnlimited_congr {ms ms' : List (String × Yaml.Node)}
    (h : ∀ name, name ≠ "min" → name ≠ "max" → find? name ms = find? name ms') :
    readUnlimited ms = readUnlimited ms' := by
  unfold readUnlimited required optional defaulted
  simp only [h "name" (by decide) (by decide), h "type" (by decide) (by decide),
    h "nullable" (by decide) (by decide), h "values" (by decide) (by decide),
    h "unique" (by decide) (by decide), h "references" (by decide) (by decide)]

/-- **A field with limits.** Limits may stand anywhere among the other members. They are all that
they change.

**Proof sketch.** Only the known members matter. Among them the limits are found by their
names wherever they stand, and every other name finds what it finds without the limits
(`find?_of_perm`). -/
lemma run_ofNode_of_perm {entries : List (String × Yaml.Node)}
    (hmembers : ∀ member ∈ members, member.1 ≠ "min" ∧ member.1 ≠ "max")
    (hentries : entries.Perm (("min", lo) :: ("max", hi) :: members))
    (hlo : Node.readOption Node.readFloat lo = pure x)
    (hhi : Node.readOption Node.readFloat hi = pure y)
    (hfield : (FieldType.ofNode (.ofMembers members)).run tree s = some (f, s')) :
    f.least = none ∧ f.greatest = none ∧
      (FieldType.ofNode (.ofMembers entries)).run tree s = some (f.withLimits x y, s') := by
  have hnodup := nodup_of_ofNode hfield
  have hknown : (knownMembers memberNames entries).Perm
      (("min", lo) :: ("max", hi) :: knownMembers memberNames members) := hentries.filter _
  have hothers : ∀ member ∈ knownMembers memberNames members,
      member.1 ≠ "min" ∧ member.1 ≠ "max" := fun member h =>
    hmembers member (List.mem_of_mem_filter h)
  obtain ⟨hall, hmin, hmax, hfind⟩ := find?_of_perm hnodup hothers hknown
  have hleast : optional "min" Node.readFloat (knownMembers memberNames entries) = pure x := by
    rw [optional, defaulted, hmin]
    exact hlo
  have hgreatest : optional "max" Node.readFloat (knownMembers memberNames entries) = pure y := by
    rw [optional, defaulted, hmax]
    exact hhi
  have hnoleast : optional "min" Node.readFloat (knownMembers memberNames members) = pure none := by
    rw [optional, defaulted, find?_eq_none fun member h => (hothers member h).1]
  have hnogreatest :
      optional "max" Node.readFloat (knownMembers memberNames members) = pure none := by
    rw [optional, defaulted, find?_eq_none fun member h => (hothers member h).2]
  rw [ofNode_ofMembers hnoleast hnogreatest hnodup] at hfield
  rw [ofNode_ofMembers hleast hgreatest hall, readUnlimited_congr hfind]
  obtain ⟨g, hg, rfl⟩ := Yaml.Resolve.run_map_eq_some_iff.mp hfield
  exact ⟨rfl, rfl, Yaml.Resolve.run_map_eq_some_iff.mpr ⟨g, hg, rfl⟩⟩

end FieldType

/-! ### Limits of filters -/

namespace Bound

variable {limits : List (String × Yaml.Node)} {lo hi : Yaml.Node} {v w : Value}
  {x y : Option Float} {depth : ℕ}

/-- **Limits of a filter**, in either order. -/
lemma ofNode_of_limits
    (hlimits : limits = [("min", lo), ("max", hi)] ∨ limits = [("max", hi), ("min", lo)])
    (hlo : Value.ofNode depth lo = pure v) (hhi : Value.ofNode depth hi = pure w)
    (hx : Value.asOption? Value.asFloat? v = some x)
    (hy : Value.asOption? Value.asFloat? w = some y) :
    ∃ value, Value.ofNode (depth + 1) (.ofMembers limits) = pure value ∧
      Bound.ofValue? value = some ⟨x, y, Option.none⟩ := by
  have hkey : ∀ name, name = "min" ∨ name = "max" →
      Value.ofNode depth (.scalar Option.none .plain name) = pure (.text name) := by
    rintro name (rfl | rfl) <;> cases depth <;> rfl
  have hmapping : Value.ofNode (depth + 1) (.ofMembers limits) =
      .map <$> limits.mapM fun member => do
        return (← Value.ofNode depth (.scalar Option.none .plain member.1),
          ← Value.ofNode depth member.2) := by
    change Value.map <$>
      (limits.map fun member => (Node.scalar Option.none .plain member.1, member.2)).mapM
        (fun entry => do return (← Value.ofNode depth entry.1, ← Value.ofNode depth entry.2)) = _
    rw [List.mapM_map]
    rfl
  rcases hlimits with rfl | rfl
  · refine ⟨.map [(.text "min", v), (.text "max", w)], ?_, ?_⟩
    · rw [hmapping]
      simp [hkey, hlo, hhi]
    · simp [Bound.ofValue?, Value.asRecord?, optionalValue?, defaulted, find?, hx, hy]
  · refine ⟨.map [(.text "max", w), (.text "min", v)], ?_, ?_⟩
    · rw [hmapping]
      simp [hkey, hlo, hhi]
    · simp [Bound.ofValue?, Value.asRecord?, optionalValue?, defaulted, find?, hx, hy]

end Bound

/-! ### Whole limits -/

section

open Binary64

variable {n : ℤ} {x : Float}

/-- What is left of a whole limit of 64 bits: the nearest double, or the greatest number if that is
beyond it. -/
def keptLimit (n : ℤ) : ℤ := min greatest64 (nearestInt n)

/-- A limit that is left has 64 bits. -/
lemma keptLimit_bounds (hn : least64 ≤ n ∧ n ≤ greatest64) :
    least64 ≤ keptLimit n ∧ keptLimit n ≤ greatest64 := by
  refine ⟨le_min (by decide) ?_, min_le_left _ _⟩
  have hleast : nearestInt least64 = least64 := by decide +kernel
  rw [← hleast]
  exact nearestInt_mono hn.1

/-- **A whole limit stays as it is** exactly if it fits, or is the greatest one.

**Proof sketch.** What is left is the smaller one of the greatest number and the nearest
double, so it is the limit if one of them is (`nearestInt_eq_self_iff`); and the nearest
double of the greatest number lies beyond it. -/
theorem keptLimit_eq_iff (hn : least64 ≤ n ∧ n ≤ greatest64) :
    keptLimit n = n ↔ FitsMantissa n ∨ n = greatest64 := by
  rw [← nearestInt_eq_self_iff, keptLimit]
  have hgreatest : greatest64 ≤ nearestInt greatest64 := by decide +kernel
  constructor
  · intro h
    rcases min_choice greatest64 (nearestInt n) with hmin | hmin
    · exact .inr (h.symm.trans hmin)
    · exact .inl (hmin.symm.trans h)
  · rintro (h | rfl)
    · rw [h]
      exact min_eq_right hn.2
    · exact min_eq_left hgreatest

/-- The double of a whole limit is moved back to what is left of it, in each direction. -/
lemma whole_of_stands (hn : least64 ≤ n ∧ n ≤ greatest64) (hx : Stands x (nearestInt n)) :
    isFinite x = true ∧ truncate least64 greatest64 x = keptLimit n ∧
      Bound.wholeLeast x = keptLimit n ∧ Bound.wholeGreatest x = keptLimit n := by
  obtain ⟨d, hd, hvalue⟩ := hx.exists_value
  have hkept : max least64 (min greatest64 (nearestInt n)) = keptLimit n :=
    max_eq_right (keptLimit_bounds hn).1
  refine ⟨isFinite_eq_true.mpr ⟨d, hd⟩, ?_, ?_, ?_⟩
  · rw [truncate_eq hd, hvalue]
    simp [hkept]
  · rw [Bound.wholeLeast, ceil_eq hd, hvalue, Int.ceil_intCast, hkept]
  · rw [Bound.wholeGreatest, floor_eq hd, hvalue, Int.floor_intCast, hkept]

/-- A whole limit stays as it is. -/
def Stays (n : ℤ) : Prop := FitsMantissa n ∨ n = greatest64

variable {m : ℤ} {lo hi : Yaml.Node} {members entries limits : List (String × Yaml.Node)}
  {tree : Yaml.Tree} {s s' : ℕ} {f : FieldType}

/-- **A declared field.** Let a field of whole numbers without limits be read. With whole limits
anywhere among its members it is read too, and holds the numbers between what is left of them. -/
theorem FieldType.toTy_of_writesWhole
    (hm : least64 ≤ m ∧ m ≤ greatest64) (hn : least64 ≤ n ∧ n ≤ greatest64)
    (hlo : WritesWhole lo m) (hhi : WritesWhole hi n)
    (hmembers : ∀ member ∈ members, member.1 ≠ "min" ∧ member.1 ≠ "max")
    (hentries : entries.Perm (("min", lo) :: ("max", hi) :: members))
    (hfield : (FieldType.ofNode (.ofMembers members)).run tree s = some (f, s'))
    (hinteger : f.IsInteger) :
    f.toTy = .ok (f.marked (.integer least64 greatest64)) ∧
      ∃ limited, (FieldType.ofNode (.ofMembers entries)).run tree s = some (limited, s') ∧
        limited.toTy = .ok (f.marked (.integer (keptLimit m) (keptLimit n))) := by
  obtain ⟨x, hx, hreadx⟩ := Yaml.readOption_readFloat hlo hm
  obtain ⟨y, hy, hready⟩ := Yaml.readOption_readFloat hhi hn
  obtain ⟨hleast, hgreatest, hread⟩ :=
    FieldType.run_ofNode_of_perm hmembers hentries hreadx hready hfield
  refine ⟨?_, _, hread, ?_⟩
  · rw [FieldType.toTy_of_isInteger hinteger, FieldType.integers, hleast, hgreatest]
    rfl
  · rw [FieldType.toTy_of_isInteger (f := f.withLimits x y) hinteger]
    simp only [FieldType.integers, FieldType.withLimits, Option.map_some, Option.getD_some,
      (whole_of_stands hm hx).2.1, (whole_of_stands hn hy).2.1]
    rfl

/-- **A filter.** Whole limits are read, and narrow all whole numbers to those between what is left
of the limits. -/
theorem Bound.narrow_of_writesWhole
    (hm : least64 ≤ m ∧ m ≤ greatest64) (hn : least64 ≤ n ∧ n ≤ greatest64)
    (hlo : WritesWhole lo m) (hhi : WritesWhole hi n)
    (hlimits : limits = [("min", lo), ("max", hi)] ∨ limits = [("max", hi), ("min", lo)])
    (depth : ℕ) :
    ∃ value bound, Value.ofNode (depth + 1) (.ofMembers limits) = pure value ∧
      Bound.ofValue? value = some bound ∧ ∀ (f : FieldType) (full : String),
        narrow bound full (f.marked (.integer least64 greatest64)) [] =
          .ok (f.marked (.integer (keptLimit m) (keptLimit n))) := by
  obtain ⟨x, v, hx, hv, hasx⟩ := Yaml.asOption?_asFloat? hlo hm depth
  obtain ⟨y, w, hy, hw, hasy⟩ := Yaml.asOption?_asFloat? hhi hn depth
  obtain ⟨value, hvalue, hbound⟩ := Bound.ofNode_of_limits hlimits hv hw hasx hasy
  refine ⟨value, _, hvalue, hbound, fun f full => ?_⟩
  rw [FieldType.narrow_integers]
  simp only [Option.map_some, Option.getD_some, (whole_of_stands hm hx).2.2.1,
    (whole_of_stands hn hy).2.2.2, max_eq_left (keptLimit_bounds hm).1,
    min_eq_left (keptLimit_bounds hn).2]

/-- **The types that whole limits give.** The type of a field that is declared with whole limits of
64 bits and the type to which a filter narrows the field without limits are the same: the integers
between what is left of the limits. These are the limits that are written exactly if each of the two
stays as it is.

**Proof sketch.** Both ways read the nearest doubles of the limits and move them back to whole
numbers of 64 bits (`FieldType.toTy_of_writesWhole`, `Bound.narrow_of_writesWhole`), which
leaves the same of each limit, in whichever direction it is rounded (`whole_of_stands`). So
the types agree, and `keptLimit_eq_iff` tells when the limits are the ones that are written.
-/
theorem written_limits_kept_iff
    (hm : least64 ≤ m ∧ m ≤ greatest64) (hn : least64 ≤ n ∧ n ≤ greatest64)
    (hlo : WritesWhole lo m) (hhi : WritesWhole hi n)
    (hmembers : ∀ member ∈ members, member.1 ≠ "min" ∧ member.1 ≠ "max")
    (hentries : entries.Perm (("min", lo) :: ("max", hi) :: members))
    (hfield : (FieldType.ofNode (.ofMembers members)).run tree s = some (f, s'))
    (hinteger : f.IsInteger)
    (hlimits : limits = [("min", lo), ("max", hi)] ∨ limits = [("max", hi), ("min", lo)])
    (depth : ℕ) (full : String) :
    ∃ limited unlimited value bound kept,
      (FieldType.ofNode (.ofMembers entries)).run tree s = some (limited, s') ∧
      (Value.ofNode (depth + 1) (.ofMembers limits)).run tree s = some (value, s) ∧
      Bound.ofValue? value = some bound ∧
      f.toTy = .ok unlimited ∧ unlimited = f.marked (.integer least64 greatest64) ∧
      limited.toTy = .ok kept ∧ narrow bound full unlimited [] = .ok kept ∧
      (kept = f.marked (.integer m n) ↔ Stays m ∧ Stays n) := by
  obtain ⟨hunlimited, limited, hread, hdeclared⟩ :=
    FieldType.toTy_of_writesWhole hm hn hlo hhi hmembers hentries hfield hinteger
  obtain ⟨value, bound, hvalue, hbound, hnarrow⟩ :=
    Bound.narrow_of_writesWhole hm hn hlo hhi hlimits depth
  refine ⟨limited, _, value, bound, _, hread, by rw [hvalue]; rfl, hbound, hunlimited, rfl,
    hdeclared, hnarrow f full, ?_⟩
  rw [FieldType.marked_inj, Stays, Stays, ← keptLimit_eq_iff hm, ← keptLimit_eq_iff hn]
  simp [Ty.integer, Ty.ofLeaf]

/-- A field that may be absent, between the least whole number and an even one beyond `2 ^ 53`. -/
theorem written_limits_kept_of_even :
    let lo : Yaml.Node := .scalar none .plain "-9223372036854775808"
    let hi : Yaml.Node := .scalar none .plain "9007199254740994"
    let members : List (String × Yaml.Node) := [("name", .scalar none .plain "serial"),
      ("type", .scalar none .plain "Int64"), ("nullable", .scalar none .plain "true")]
    let entries : List (String × Yaml.Node) := ("max", hi) :: members ++ [("min", lo)]
    let limits : List (String × Yaml.Node) := [("max", hi), ("min", lo)]
    let f : FieldType := ⟨"serial", "Int64", true, none, none, [], false, none⟩
    let tree : Yaml.Tree := ⟨.ofMembers entries, []⟩
    ∃ limited unlimited value bound kept,
      (FieldType.ofNode (.ofMembers entries)).run tree 0 = some (limited, 0) ∧
      (Value.ofNode (1 + 1) (.ofMembers limits)).run tree 0 = some (value, 0) ∧
      Bound.ofValue? value = some bound ∧
      f.toTy = .ok unlimited ∧ unlimited = f.marked (.integer least64 greatest64) ∧
      limited.toTy = .ok kept ∧ narrow bound "serial" unlimited [] = .ok kept ∧
      (kept = f.marked (.integer least64 9007199254740994) ↔
        Stays least64 ∧ Stays 9007199254740994) := by
  intro lo hi members entries limits f tree
  have hlo : WritesWhole lo least64 := ⟨_, rfl, by decide +kernel, by decide +kernel⟩
  have hhi : WritesWhole hi 9007199254740994 := ⟨_, rfl, by decide +kernel, by decide +kernel⟩
  have hmembers : ∀ member ∈ members, member.1 ≠ "min" ∧ member.1 ≠ "max" := by decide +kernel
  have hentries : entries.Perm (("min", lo) :: ("max", hi) :: members) :=
    List.perm_append_singleton ("min", lo) (("max", hi) :: members)
  have hfield : (FieldType.ofNode (.ofMembers members)).run tree 0 = some (f, 0) := rfl
  exact written_limits_kept_iff (by decide) (by decide) hlo hhi hmembers hentries hfield
    (by decide) (.inr rfl) 1 "serial"

/-- The first whole number that is no double is lost, both as the least number of a field and as
that of a filter. -/
theorem odd_limit_not_kept :
    let lo : Yaml.Node := .scalar none .plain "9007199254740993"
    let hi : Yaml.Node := .scalar none .plain "9223372036854775807"
    let members : List (String × Yaml.Node) :=
      [("name", .scalar none .plain "serial"), ("type", .scalar none .plain "integer")]
    let entries : List (String × Yaml.Node) := ("min", lo) :: ("max", hi) :: members
    let limits : List (String × Yaml.Node) := [("min", lo), ("max", hi)]
    let f : FieldType := ⟨"serial", "integer", false, none, none, [], false, none⟩
    let tree : Yaml.Tree := ⟨.ofMembers entries, []⟩
    (∃ limited, (FieldType.ofNode (.ofMembers entries)).run tree 0 = some (limited, 0) ∧
      limited.toTy = .ok (.integer 9007199254740992 greatest64)) ∧
      (∃ value bound, Value.ofNode 1 (.ofMembers limits) = pure value ∧
        Bound.ofValue? value = some bound ∧
        f.toTy.bind (fun unlimited => narrow bound "serial" unlimited []) =
          .ok (.integer 9007199254740992 greatest64)) ∧
      Ty.integer 9007199254740992 greatest64 ≠ .integer 9007199254740993 greatest64 := by
  intro lo hi members entries limits f tree
  have hlo : WritesWhole lo 9007199254740993 := ⟨_, rfl, by decide +kernel, by decide +kernel⟩
  have hhi : WritesWhole hi greatest64 := ⟨_, rfl, by decide +kernel, by decide +kernel⟩
  have hkept : keptLimit 9007199254740993 = 9007199254740992 ∧
      keptLimit greatest64 = greatest64 := by decide +kernel
  have hfield : (FieldType.ofNode (.ofMembers members)).run tree 0 = some (f, 0) := rfl
  obtain ⟨hunlimited, limited, hread, hdeclared⟩ := FieldType.toTy_of_writesWhole (by decide)
    (by decide) hlo hhi (by decide +kernel) (.refl entries) hfield (by decide)
  obtain ⟨value, bound, hvalue, hbound, hnarrow⟩ :=
    Bound.narrow_of_writesWhole (by decide) (by decide) hlo hhi (.inl rfl) 0
  rw [hkept.1, hkept.2] at hdeclared
  refine ⟨⟨limited, hread, hdeclared⟩, ⟨value, bound, hvalue, hbound, ?_⟩, ?_⟩
  · rw [hunlimited]
    refine (hnarrow f "serial").trans ?_
    rw [hkept.1, hkept.2]
    rfl
  · simp [Ty.integer, Ty.ofLeaf]

end

end Document

end Lineage
