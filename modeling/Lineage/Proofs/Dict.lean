import Mathlib.Data.String.Basic
import Lineage.Dict

set_option autoImplicit false

/-!
# Dictionaries

## Main results

* `Lineage.Dict.ofList_of_sorted`: a sorted dictionary is the dictionary of its pairs.
* `Lineage.Dict.values_ofList_subset`: the dictionary of pairs has no other values than these.
* `Lineage.Dict.find?_mapValues`: the value under a key of changed values.
* `Lineage.Dict.find?_insert_self`: the value under a key that has been set.
* `Lineage.Dict.insert_insert`: the later of two values under one key is left.
* `Lineage.Dict.filter_insert`: what is under other keys is left.
-/

namespace Lineage

namespace Dict

variable {α β γ : Type}

/-- The value under a key is changed as all values are. -/
lemma find?_mapValues (f : α → β) (key : String) (d : Dict α) :
    (d.mapValues f).find? key = (d.find? key).map f := by
  rw [mapValues, find?, find?, List.find?_map, Option.map_map, Option.map_map]
  rfl

/-- Values that are changed twice. -/
lemma mapValues_mapValues {f : α → β} {g : β → γ} {k : α → γ} {d : Dict α}
    (h : ∀ entry ∈ d, g (f entry.2) = k entry.2) :
    (d.mapValues f).mapValues g = d.mapValues k := by
  rw [mapValues, mapValues, mapValues, List.map_map]
  exact List.map_congr_left fun entry hentry => congrArg (Prod.mk entry.1) (h entry hentry)

/-- Setting a key adds at most the new value. -/
lemma values_insert_subset (key : String) (value : α) (d : Dict α) :
    (d.insert key value).values ⊆ value :: d.values := by
  induction d with
  | nil => exact fun _ h => h
  | cons entry d ih =>
    unfold insert
    split
    · exact fun _ h => h
    · split
      · exact List.cons_subset_cons _ (List.subset_cons_self _ _)
      · refine List.cons_subset.mpr ⟨by simp [values], fun a ha => ?_⟩
        exact List.cons_subset_cons _ (List.subset_cons_self _ _) (ih ha)

/-- Setting a key after all others puts it at the end. -/
lemma insert_of_forall_lt {key : String} {d : Dict α} (h : ∀ entry ∈ d, entry.1 < key)
    (value : α) : d.insert key value = d ++ [(key, value)] := by
  induction d with
  | nil => rfl
  | cons first d ih =>
    have hlt : first.1 < key := h first List.mem_cons_self
    unfold insert
    rw [if_neg (lt_asymm hlt), if_neg (ne_of_gt hlt),
      ih fun entry hentry => h entry (List.mem_cons_of_mem _ hentry)]
    rfl

/-- The value under a key that has been set. -/
lemma find?_insert_self (key : String) (value : α) (d : Dict α) :
    (d.insert key value).find? key = some value := by
  unfold find?
  induction d with
  | nil => simp [insert]
  | cons entry d ih =>
    unfold insert
    split
    · simp
    · rename_i hlt
      split
      · simp
      · rename_i hne
        rw [List.find?_cons_of_neg (by simpa using Ne.symm hne)]
        exact ih

/-- The later of two values under one key is left. -/
lemma insert_insert (key : String) (first second : α) (d : Dict α) :
    (d.insert key first).insert key second = d.insert key second := by
  induction d with
  | nil => simp [insert]
  | cons entry d ih =>
    by_cases hlt : key < entry.1
    · simp [insert, hlt]
    · by_cases heq : key = entry.1
      · simp [insert, heq]
      · simp only [insert, if_neg hlt, if_neg heq, ih]

/-- Setting a key leaves all that is under other keys. -/
lemma filter_insert (key : String) (value : α) (d : Dict α) :
    (d.insert key value).filter (fun entry => entry.1 != key) =
      d.filter fun entry => entry.1 != key := by
  induction d with
  | nil => simp [insert]
  | cons entry d ih =>
    by_cases hlt : key < entry.1
    · simp [insert, hlt]
    · by_cases heq : key = entry.1
      · simp [insert, heq]
      · simp only [insert, if_neg hlt, if_neg heq, List.filter_cons, ih]

/-- A key is there if it has a value. -/
lemma contains_eq_isSome_find? (key : String) (d : Dict α) :
    d.contains key = (d.find? key).isSome := by
  rw [contains, find?, Option.isSome_map, Bool.eq_iff_iff, List.find?_isSome, List.any_eq_true]

/-- Setting keys adds at most the new values. -/
lemma values_foldl_insert_subset (pairs : List (String × α)) (d : Dict α) :
    (pairs.foldl (fun d entry => insert entry.1 entry.2 d) d).values ⊆
      d.values ++ values pairs := by
  induction pairs generalizing d with
  | nil => exact List.subset_append_left _ _
  | cons entry pairs ih =>
    intro a ha
    rcases List.mem_append.mp (ih _ ha) with ha | ha
    · rcases List.mem_cons.mp (values_insert_subset _ _ _ ha) with rfl | ha
      · exact List.mem_append_right _ List.mem_cons_self
      · exact List.mem_append_left _ ha
    · exact List.mem_append_right _ (List.mem_cons_of_mem _ ha)

/-- **The dictionary of pairs has no other values than these.** -/
theorem values_ofList_subset (pairs : List (String × α)) :
    (ofList pairs).values ⊆ values pairs :=
  values_foldl_insert_subset pairs []

/-- Setting increasing keys after all others appends them. -/
lemma foldl_insert_of_sorted (pairs : List (String × α)) (d : Dict α)
    (h : Sorted (d ++ pairs)) :
    pairs.foldl (fun d entry => insert entry.1 entry.2 d) d = d ++ pairs := by
  induction pairs generalizing d with
  | nil => exact (List.append_nil d).symm
  | cons entry pairs ih =>
    rw [List.foldl_cons, insert_of_forall_lt fun e he =>
      (List.pairwise_append.mp h).2.2 e he entry List.mem_cons_self,
      List.append_cons d entry pairs]
    exact ih _ (List.append_cons d entry pairs ▸ h)

/-- **A sorted dictionary is the dictionary of its pairs.** -/
theorem ofList_of_sorted {d : Dict α} (h : d.Sorted) : ofList d = d :=
  foldl_insert_of_sorted d [] h

end Dict

end Lineage
