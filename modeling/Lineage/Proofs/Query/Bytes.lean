import Mathlib.Order.Interval.Set.Defs
import Mathlib.Order.Lattice
import Lineage.Proofs.Query.Search

set_option autoImplicit false

/-!
# Bytes of a text

The places in the text of a query count characters. Where the text is kept in UTF-8 they count
bytes, and a part between two bytes exists only if it does not end before it starts, ends within the
text and neither starts nor ends inside a character.

## Main definitions

* `Lineage.Query.slice`: the part of a text between two bytes.
* `Lineage.Query.findByte`: the byte where a text occurs in another.

## Main results

* `Lineage.Query.slice_eq_ok_iff`: when there is a part between two bytes.
* `Lineage.Query.slice_byteAt`: the part between the first bytes of two characters.
* `Lineage.Query.findByte_eq`: a text occurs at the first byte of a character.
-/

namespace Lineage.Query

variable {pattern cs before after part : List Char} {i j n start stop : ℕ}

/-! ### Bytes of a text -/

/-- The number of bytes of a text in UTF-8. -/
def byteLength (cs : List Char) : ℕ := (String.ofList cs).utf8ByteSize

@[simp]
lemma byteLength_nil : byteLength [] = 0 := rfl

@[simp]
lemma byteLength_append (before after : List Char) :
    byteLength (before ++ after) = byteLength before + byteLength after := by
  rw [byteLength, String.ofList_append, String.utf8ByteSize_append]
  rfl

@[simp]
lemma byteLength_cons (c : Char) (cs : List Char) :
    byteLength (c :: cs) = c.utf8Size + byteLength cs := by
  have hone : byteLength [c] = c.utf8Size := String.utf8ByteSize_singleton
  rw [← List.singleton_append, byteLength_append, hone]

/-- A text before and after a byte, if it is the first one of a character or follows the text. -/
def splitBytes : ℕ → List Char → Option (List Char × List Char)
  | 0, cs => some ([], cs)
  | _ + 1, [] => none
  | n + 1, c :: rest =>
    if c.utf8Size ≤ n + 1 then
      (splitBytes (n + 1 - c.utf8Size) rest).map fun (before, after) => (c :: before, after)
    else none

/-- The part of a text between two bytes. There is none if it would end before it starts or behind
the text, or if one of the bytes is inside a character. -/
def slice (start stop : ℕ) (cs : List Char) : Outcome (List Char) :=
  match splitBytes stop cs with
  | none => .error .abort
  | some (upto, _) =>
    match splitBytes start upto with
    | none => .error .abort
    | some (_, part) => .ok part

/-- A text is split after the bytes of a part in front. -/
lemma splitBytes_append (before after : List Char) :
    splitBytes (byteLength before) (before ++ after) = some (before, after) := by
  induction before with
  | nil =>
    rw [byteLength_nil, splitBytes]
    rfl
  | cons c before ih =>
    obtain ⟨n, hn⟩ := Nat.exists_eq_succ_of_ne_zero
      (Nat.add_pos_left c.utf8Size_pos (byteLength before)).ne'
    have hrest : n + 1 - c.utf8Size = byteLength before := by omega
    rw [byteLength_cons, hn, List.cons_append, splitBytes, if_pos (by omega), hrest, ih]
    rfl

/-- A split text has as many bytes in front as asked for. -/
lemma eq_append_of_splitBytes (h : splitBytes n cs = some (before, after)) :
    cs = before ++ after ∧ byteLength before = n := by
  fun_induction splitBytes n cs generalizing before with
  | case1 cs =>
    obtain ⟨rfl, rfl⟩ := Prod.mk.inj (Option.some.inj h)
    exact ⟨rfl, rfl⟩
  | case2 => cases h
  | case3 n c rest hfits ih =>
    obtain ⟨⟨front, back⟩, hsplit, heq⟩ := Option.map_eq_some_iff.mp h
    obtain ⟨rfl, rfl⟩ := Prod.mk.inj heq
    obtain ⟨rfl, hlength⟩ := ih hsplit
    exact ⟨rfl, by rw [byteLength_cons, hlength]; omega⟩
  | case4 => cases h

/-- **What is sliced** is a part of the text that starts and ends after as many bytes as asked
for. -/
theorem slice_eq_ok_iff : slice start stop cs = .ok part ↔
    ∃ before after, cs = before ++ part ++ after ∧ byteLength before = start ∧
      byteLength (before ++ part) = stop := by
  constructor
  · intro h
    unfold slice at h
    split at h
    · cases h
    · rename_i upto after hstop
      split at h
      · cases h
      · rename_i before part' hstart
        obtain rfl := Except.ok.inj h
        obtain ⟨rfl, hupto⟩ := eq_append_of_splitBytes hstop
        obtain ⟨rfl, hbefore⟩ := eq_append_of_splitBytes hstart
        exact ⟨before, after, rfl, hbefore, hupto⟩
  · rintro ⟨before, after, rfl, rfl, rfl⟩
    simp only [slice, splitBytes_append]

/-- Where nothing is sliced, there is no answer at all. -/
lemma slice_eq_abort (h : ∀ part, slice start stop cs ≠ .ok part) :
    slice start stop cs = .error .abort := by
  unfold slice at h ⊢
  split
  · rfl
  · rename_i hstop
    split
    · rfl
    · rename_i part hstart
      exact absurd (by rw [hstop]; dsimp only; rw [hstart]) (h part)

/-! ### Bytes of characters -/

/-- The byte at which a character of a text starts. -/
def byteAt (cs : List Char) (i : ℕ) : ℕ := byteLength (cs.take i)

@[simp]
lemma byteAt_length (cs : List Char) : byteAt cs cs.length = byteLength cs := by
  rw [byteAt, List.take_length]

lemma byteAt_append (before after : List Char) :
    byteAt (before ++ after) before.length = byteLength before := by
  rw [byteAt, List.take_left]

/-- Later characters of a text start at later bytes. -/
lemma strictMonoOn_byteAt (cs : List Char) : StrictMonoOn (byteAt cs) (Set.Iic cs.length) := by
  intro i hi j hj hlt
  have hsplit : cs.take j = cs.take i ++ (cs.drop i).take (j - i) := by
    rw [← List.take_add, Nat.add_sub_cancel' hlt.le]
  have hsome : 0 < byteLength ((cs.drop i).take (j - i)) := by
    have hj' : j ≤ cs.length := hj
    cases hpart : (cs.drop i).take (j - i) with
    | nil =>
      have hlength := congrArg List.length hpart
      rw [List.length_take, List.length_drop, List.length_nil] at hlength
      omega
    | cons c part =>
      rw [byteLength_cons]
      exact Nat.add_pos_left c.utf8Size_pos _
  rw [byteAt, byteAt, hsplit, byteLength_append]
  exact Nat.lt_add_of_pos_right hsome

/-- **Slicing at the bytes of characters** is cutting at the characters. -/
theorem slice_byteAt (hi : i ≤ cs.length) (hj : j ≤ cs.length) :
    slice (byteAt cs i) (byteAt cs j) cs = cut i j cs := by
  rw [cut]
  split
  · rename_i hle
    have hfront : cs.take i ++ (cs.drop i).take (j - i) = cs.take j := by
      rw [← List.take_add, Nat.add_sub_cancel' hle]
    refine slice_eq_ok_iff.mpr ⟨cs.take i, cs.drop j, ?_, rfl, ?_⟩
    · rw [hfront, List.take_append_drop]
    · rw [hfront]
      rfl
  · rename_i hlt
    refine slice_eq_abort fun part hpart => hlt ?_
    obtain ⟨before, after, -, hstart, hstop⟩ := slice_eq_ok_iff.mp hpart
    rw [byteLength_append] at hstop
    exact ((strictMonoOn_byteAt cs).le_iff_le hi hj).mp (by omega)

/-- The byte of the later of two characters. -/
lemma byteAt_max (hi : i ≤ cs.length) (hj : j ≤ cs.length) :
    byteAt cs (max i j) = max (byteAt cs i) (byteAt cs j) := by
  have hle : ∀ {i j}, i ≤ cs.length → j ≤ cs.length → i ≤ j → byteAt cs i ≤ byteAt cs j :=
    fun hi hj h => ((strictMonoOn_byteAt cs).le_iff_le hi hj).mpr h
  rcases le_total i j with h | h
  · rw [max_eq_right h, max_eq_right (hle hi hj h)]
  · rw [max_eq_left h, max_eq_left (hle hj hi h)]

/-- Of the bytes of two characters, the later one belongs to the later character. -/
lemma filter_byteAt {place : Option ℕ} (hi : i ≤ cs.length) (hplace : ∀ j ∈ place, j ≤ cs.length) :
    (place.map (byteAt cs)).filter (fun p => byteAt cs i < p) =
      (place.filter (i < ·)).map (byteAt cs) := by
  cases place with
  | none => rfl
  | some j =>
    have hlt : byteAt cs i < byteAt cs j ↔ i < j :=
      (strictMonoOn_byteAt cs).lt_iff_lt hi (hplace j rfl)
    by_cases h : i < j
    · rw [Option.map_some, Option.filter_some_pos (by simpa using hlt.mpr h),
        Option.filter_some_pos (by simpa using h), Option.map_some]
    · rw [Option.map_some, Option.filter_some_neg (by simpa using hlt.not.mpr h),
        Option.filter_some_neg (by simpa using h), Option.map_none]

/-- The byte behind a text is the end where no place is given. -/
lemma getD_byteAt (cs : List Char) (place : Option ℕ) :
    (place.map (byteAt cs)).getD (byteLength cs) = byteAt cs (place.getD cs.length) := by
  cases place with
  | none => exact (byteAt_length cs).symm
  | some i => rfl

/-- A letter and its capital have equally many bytes. -/
lemma utf8Size_toUpper (c : Char) : c.toUpper.utf8Size = c.utf8Size := by
  have hone : ∀ d : Char, d.val.toNat ≤ 127 → d.utf8Size = 1 := fun d hd => by
    rw [Char.utf8Size, if_pos (UInt32.le_iff_toNat_le.mpr hd)]
  have hbounds : 'a'.val.toNat = 97 ∧ 'z'.val.toNat = 122 ∧
      ('A'.val - 'a'.val).toNat = 4294967264 := ⟨rfl, rfl, rfl⟩
  unfold Char.toUpper
  split
  · rename_i hletter
    rw [UInt32.le_iff_toNat_le, UInt32.le_iff_toNat_le] at hletter
    rw [hone c (by omega)]
    refine hone _ ?_
    dsimp only
    rw [UInt32.toNat_add]
    omega
  · rfl

@[simp]
lemma byteLength_capitals (cs : List Char) : byteLength (capitals cs) = byteLength cs := by
  induction cs with
  | nil => rfl
  | cons c cs ih => rw [capitals_cons, byteLength_cons, byteLength_cons, utf8Size_toUpper, ih]

@[simp]
lemma byteAt_capitals (cs : List Char) : byteAt (capitals cs) = byteAt cs := by
  funext i
  rw [byteAt, byteAt, ← byteLength_capitals (cs.take i), capitals, capitals, List.map_take]

/-! ### Searching for bytes -/

/-- The byte of the first occurrence of a text in another. -/
def findByte (pattern : List Char) : List Char → Option ℕ
  | [] => if pattern.isEmpty then some 0 else none
  | c :: rest =>
    if pattern.isPrefixOf (c :: rest) then some 0
    else (findByte pattern rest).map (· + c.utf8Size)

/-- **The byte of an occurrence** is the one where its first character starts. -/
theorem findByte_eq (pattern cs : List Char) :
    findByte pattern cs = (findText pattern cs).map (byteAt cs) := by
  induction cs with
  | nil =>
    rw [findByte, findText]
    split <;> rfl
  | cons c cs ih =>
    rw [findByte, findText]
    split
    · rfl
    · rw [ih, Option.map_map, Option.map_map]
      congr 1
      funext i
      rw [Function.comp_apply, Function.comp_apply, byteAt, byteAt, List.take_succ_cons,
        byteLength_cons, Nat.add_comm]

/-- An occurrence ends within the text, as many bytes after its start as it has. -/
lemma byteAt_of_findText (h : findText pattern cs = some i) :
    i + pattern.length ≤ cs.length ∧
      byteAt cs (i + pattern.length) = byteAt cs i + byteLength pattern := by
  obtain ⟨before, after, rfl, rfl⟩ := exists_of_findText h
  refine ⟨by simp, ?_⟩
  rw [byteAt_append, ← List.append_assoc, ← List.length_append, byteAt_append, byteLength_append]

/-- The same for occurrences in the capitals of a text. -/
lemma byteAt_of_findText_capitals (h : findText pattern (capitals cs) = some i) :
    i + pattern.length ≤ cs.length ∧
      byteAt cs (i + pattern.length) = byteAt cs i + byteLength pattern := by
  simpa using byteAt_of_findText h

end Lineage.Query
