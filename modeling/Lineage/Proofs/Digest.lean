import Mathlib.Tactic.Basic
import Mathlib.Data.List.Basic
import Lineage.Digest

set_option autoImplicit false

/-!
# Identifiers and their digits

## Main definitions

* `Lineage.NodeId.Full`: identifiers of sixteen bytes.
* `Lineage.CollisionFree`: no two of given byte strings have digests that begin alike.

## Main results

* `Lineage.NodeId.hyphenated_injective`: the digits of an identifier determine it.
* `Lineage.NodeId.full_ofDigest`: identifiers of digests have sixteen bytes.
* `Lineage.NodeId.mergeSort_eq_of_mem_iff`: sorted, identifiers only depend on which there are.
* `Lineage.CollisionFree.eq`: digests tell texts apart where no collision is among them.
-/

namespace Lineage

namespace Text

/-- The digit of a number below sixteen determines it. -/
lemma hexDigit_injective : ∀ m < 16, ∀ n < 16, hexDigit m = hexDigit n → m = n := by
  decide

/-- The digits of a byte determine it. -/
lemma hexOfByte_injective {a b : UInt8} (h : hexOfByte a = hexOfByte b) : a = b := by
  have ha := a.toNat_lt
  have hb := b.toNat_lt
  simp only [hexOfByte, List.cons.injEq, and_true] at h
  have hhigh := hexDigit_injective _ (by omega) _ (by omega) h.1
  have hlow := hexDigit_injective _ (by omega) _ (by omega) h.2
  refine UInt8.toNat_inj.mp ?_
  omega

/-- The digits of bytes determine them. -/
lemma hexOfBytes_injective {as bs : List UInt8} (h : hexOfBytes as = hexOfBytes bs) : as = bs := by
  have hchars : as.flatMap hexOfByte = bs.flatMap hexOfByte := String.ofList_injective h
  clear h
  induction as generalizing bs with
  | nil =>
    cases bs with
    | nil => rfl
    | cons b bs => simp [hexOfByte] at hchars
  | cons a as ih =>
    cases bs with
    | nil => simp [hexOfByte] at hchars
    | cons b bs =>
      rw [List.flatMap_cons, List.flatMap_cons] at hchars
      obtain ⟨hfirst, hrest⟩ := List.append_inj hchars rfl
      rw [hexOfByte_injective hfirst, ih hrest]

end Text

namespace NodeId

/-- An identifier has sixteen bytes. -/
def Full (id : NodeId) : Prop := id.bytes.length = 16

/-- The digits of bytes are no hyphens. -/
lemma filter_hyphen_hexOfBytes (bytes : List UInt8) :
    (Text.hexOfBytes bytes).toList.filter (· != '-') = (Text.hexOfBytes bytes).toList := by
  have hdigit : ∀ n < 16, (Text.hexDigit n != '-') = true := by decide
  refine List.filter_eq_self.mpr fun c hc => ?_
  rw [Text.hexOfBytes, String.toList_ofList] at hc
  obtain ⟨b, -, hb⟩ := List.mem_flatMap.mp hc
  have hlt := b.toNat_lt
  simp only [Text.hexOfByte, List.mem_cons, List.not_mem_nil, or_false] at hb
  rcases hb with rfl | rfl
  · exact hdigit _ (by omega)
  · exact hdigit _ (by omega)

/-- Without its hyphens, the hyphenated form is the plain one. -/
lemma filter_hyphenated {id : NodeId} (h : id.Full) :
    id.hyphenated.toList.filter (· != '-') = id.hex.toList := by
  have hbytes : id.bytes = id.bytes.take 4 ++ ((id.bytes.drop 4).take 2 ++
      ((id.bytes.drop 6).take 2 ++ ((id.bytes.drop 8).take 2 ++ (id.bytes.drop 10).take 6))) := by
    have hstep : ∀ k n : ℕ,
        (id.bytes.drop k).take n ++ id.bytes.drop (k + n) = id.bytes.drop k := by
      intro k n
      rw [← List.drop_drop, List.take_append_drop]
    have hlength : id.bytes.length = 16 := h
    have hlast : (id.bytes.drop 10).take 6 = id.bytes.drop 10 := by
      refine List.take_of_length_le ?_
      rw [List.length_drop]
      omega
    rw [hlast, hstep 8 2, hstep 6 2, hstep 4 2, List.take_append_drop]
  have hjoin : ∀ as bs : List UInt8, (Text.hexOfBytes (as ++ bs)).toList =
      (Text.hexOfBytes as).toList ++ (Text.hexOfBytes bs).toList := by
    intro as bs
    simp only [Text.hexOfBytes, String.toList_ofList, List.flatMap_append]
  have hhyphen : ['-'].filter (· != '-') = [] := rfl
  rw [hex, hbytes, hjoin, hjoin, hjoin, hjoin]
  simp only [hyphenated, List.drop_zero, String.intercalate_cons_cons, String.intercalate_singleton,
    String.toList_append, List.filter_append, filter_hyphen_hexOfBytes, List.append_assoc]
  rw [show "-".toList = ['-'] from rfl, hhyphen]
  rfl

/-- **The digits of an identifier determine it**, hyphens or not.

**Proof sketch.** The digits are no hyphens, so that dropping the hyphens leaves the plain
form (`filter_hyphenated`). There every byte is two digits, and bytes are found again two by
two. -/
theorem hyphenated_injective {a b : NodeId} (ha : a.Full) (hb : b.Full)
    (h : a.hyphenated = b.hyphenated) : a = b := by
  have hhex : a.hex.toList = b.hex.toList := by
    rw [← filter_hyphenated ha, ← filter_hyphenated hb, h]
  obtain ⟨bytes⟩ := a
  obtain ⟨bytes'⟩ := b
  exact congrArg NodeId.mk (Text.hexOfBytes_injective (String.toList_inj.mp hhex))

/-- Identifiers of digests have sixteen bytes. -/
lemma full_ofDigest (text : String) : (ofDigest (Digest.ofText text)).Full := by
  have hlength : ∀ ws : List UInt32, (ws.flatMap Blake3.bytesOfWord).length = 4 * ws.length := by
    intro ws
    induction ws with
    | nil => rfl
    | cons w ws ih =>
      rw [List.flatMap_cons, List.length_append, ih]
      simp only [Blake3.bytesOfWord, List.length_cons, List.length_nil]
      omega
  simp only [Full, ofDigest, Digest.ofText, Blake3.digest, List.length_take, hlength,
    Vector.length_toList]
  rfl

/-! ### Order -/

/-- Of two rows of bytes one comes first, or both are the same. -/
lemma bytesLE_total (as bs : List UInt8) : bytesLE as bs = true ∨ bytesLE bs as = true := by
  induction as generalizing bs with
  | nil => exact Or.inl (by simp [bytesLE])
  | cons a as ih =>
    cases bs with
    | nil => exact Or.inr rfl
    | cons b bs =>
      simp only [bytesLE, Bool.or_eq_true, Bool.and_eq_true, decide_eq_true_eq]
      rcases Nat.lt_trichotomy a.toNat b.toNat with hlt | heq | hgt
      · exact Or.inl (Or.inl hlt)
      · exact (ih bs).imp (fun h => Or.inr ⟨heq, h⟩) fun h => Or.inr ⟨heq.symm, h⟩
      · exact Or.inr (Or.inl hgt)

/-- What comes before a row of bytes comes before those after it. -/
lemma bytesLE_trans {as bs cs : List UInt8} (hab : bytesLE as bs = true)
    (hbc : bytesLE bs cs = true) : bytesLE as cs = true := by
  induction as generalizing bs cs with
  | nil => simp [bytesLE]
  | cons a as ih =>
    rcases bs with _ | ⟨b, bs⟩
    · cases hab
    rcases cs with _ | ⟨c, cs⟩
    · cases hbc
    simp only [bytesLE, Bool.or_eq_true, Bool.and_eq_true, decide_eq_true_eq] at hab hbc ⊢
    rcases hab with hab | ⟨hab, has⟩
    · exact Or.inl (by omega)
    · rcases hbc with hbc | ⟨hbc, hbs⟩
      · exact Or.inl (by omega)
      · exact Or.inr ⟨hab.trans hbc, ih has hbs⟩

/-- Rows of bytes of which each comes before the other are the same. -/
lemma bytesLE_antisymm {as bs : List UInt8} (hab : bytesLE as bs = true)
    (hba : bytesLE bs as = true) : as = bs := by
  induction as generalizing bs with
  | nil =>
    cases bs with
    | nil => rfl
    | cons b bs => cases hba
  | cons a as ih =>
    cases bs with
    | nil => cases hab
    | cons b bs =>
      simp only [bytesLE, Bool.or_eq_true, Bool.and_eq_true, decide_eq_true_eq] at hab hba
      have hnat : a.toNat = b.toNat := by omega
      have has : bytesLE as bs = true := by simpa [hnat] using hab
      have hbs : bytesLE bs as = true := by simpa [hnat] using hba
      rw [UInt8.toNat_inj.mp hnat, ih has hbs]

/-- **Sorted, identifiers only depend on which there are.**

**Proof sketch.** Two lists without repetition that hold the same identifiers are orders of
one another, and so are their sorted forms. Since the order is total and antisymmetric, only
one order of them is sorted. -/
theorem mergeSort_eq_of_mem_iff {ids ids' : List NodeId} (hids : ids.Nodup) (hids' : ids'.Nodup)
    (h : ∀ id, id ∈ ids ↔ id ∈ ids') : ids.mergeSort le = ids'.mergeSort le := by
  have hperm : ids.Perm ids' := (List.perm_ext_iff_of_nodup hids hids').mpr h
  have hsorted : ∀ ids : List NodeId, (ids.mergeSort le).Pairwise fun a b => a.le b = true :=
    List.pairwise_mergeSort (fun _ _ _ => bytesLE_trans) fun a b =>
      Bool.or_eq_true_iff.mpr (bytesLE_total a.bytes b.bytes)
  refine List.Perm.eq_of_pairwise (fun a b _ _ hab hba => ?_) (hsorted ids) (hsorted ids') ?_
  · obtain ⟨as⟩ := a
    rw [mk.injEq]
    exact bytesLE_antisymm hab hba
  · exact (List.mergeSort_perm ids le).trans (hperm.trans (List.mergeSort_perm ids' le).symm)

end NodeId

/-- No two of the byte strings that satisfy `P` have digests that begin with the same sixteen
bytes. -/
def CollisionFree (P : List UInt8 → Prop) : Prop :=
  ∀ s t, P s → P t → (Blake3.digest s).take 16 = (Blake3.digest t).take 16 → s = t

/-- The bytes of a text. -/
def textBytes (text : String) : List UInt8 := text.toUTF8.toList

/-- The list of a byte array is that of its data. -/
lemma toList_byteArray (bytes : ByteArray) : bytes.toList = bytes.data.toList := by
  -- The loop collects the bytes backwards, in front of what it has from before.
  have hloop : ∀ (i : ℕ) (r : List UInt8),
      ByteArray.toList.loop bytes i r = r.reverse ++ bytes.data.toList.drop i := by
    intro i r
    fun_induction ByteArray.toList.loop bytes i r with
    | case1 i r hlt ih =>
      have hsize : i < bytes.data.toList.length := hlt
      rw [ih, List.drop_eq_getElem_cons hsize, List.reverse_cons, List.append_assoc]
      have hget : bytes.get! i = bytes.data.toList[i] := by
        obtain ⟨data⟩ := bytes
        exact (getElem!_pos data i hlt).trans (Array.getElem_toList hlt).symm
      rw [hget]
      rfl
    | case2 i r hge =>
      have hsize : bytes.data.toList.length ≤ i := Nat.le_of_not_lt hge
      rw [List.drop_eq_nil_of_le hsize, List.append_nil]
  exact hloop 0 []

/-- The bytes of a text determine it. -/
lemma textBytes_injective {s t : String} (h : textBytes s = textBytes t) : s = t := by
  unfold textBytes at h
  rw [toList_byteArray, toList_byteArray] at h
  refine String.toByteArray_inj.mp ?_
  have hdata := Array.toList_inj.mp h
  rw [String.toUTF8_eq_toByteArray, String.toUTF8_eq_toByteArray] at hdata
  exact congrArg ByteArray.mk hdata

/-- Where no collision is among the bytes of two texts, their digests tell them apart. -/
lemma CollisionFree.eq {P : List UInt8 → Prop} (hP : CollisionFree P) {s t : String}
    (hs : P (textBytes s)) (ht : P (textBytes t))
    (h : NodeId.ofDigest (Digest.ofText s) = NodeId.ofDigest (Digest.ofText t)) : s = t :=
  textBytes_injective (hP _ _ hs ht (NodeId.mk.inj h))

end Lineage
