import Mathlib.Data.List.ReduceOption
import Lineage.Proofs.Ty.Address
import Lineage.Proofs.Ty.Item
import Lineage.Proofs.Ty.Pruning
import Lineage.Proofs.Ty.References

set_option autoImplicit false

/-!
# The places of foreign keys

A foreign key is reported under the labels of the steps that lead to it. The step into a constrained
type has no label and is left out, but it is a step of every path. So what is reported is the path
of the key where no constrained type is on the way, and if a constrained type holds a key at all
then some report does not lead to its key.

## Main definitions

* `Lineage.Ty.KeyAt`: the steps to a key, one for every type that is entered.
* `Lineage.Ty.RefersTo`: a type is a key with a given reference.

## Main results

* `Lineage.Ty.mem_foreignKeys_iff`: exactly the keys outside of candidates are reported.
* `Lineage.Ty.not_keyAt_of_constrained`: a constrained type has no key if all reports lead to keys.
* `Lineage.Ty.nodup_foreignKeys`: no two reports are about one place.
* `Lineage.Ty.foreignKeys_addressed_iff`: which types have reports that all lead to their keys.
-/

namespace Lineage.Ty

/-- A key with a reference stands at the end of some steps. The step to a member is its name, that
into a wrapper its label, if it has one. There is no step to a candidate. -/
inductive KeyAt (reference : Path) : List (Option String) → Ty → Prop
  /-- The key itself. -/
  | key {info : Info} {unique : Bool} {base : IdBase} :
      KeyAt reference [] (.leaf info (.id unique base (some reference)))
  /-- A key in a member. -/
  | member {name : String} {part : Ty} {steps : List (Option String)} {info : Info} {form : Form}
      {fields : List (String × Ty)} (h : (name, part) ∈ fields)
      (below : KeyAt reference steps part) :
      KeyAt reference (some name :: steps) (.members info form fields)
  /-- A key in the type inside a wrapper. -/
  | inside {steps : List (Option String)} {info : Info} {wrapper : Wrapper} {inner : Ty}
      (below : KeyAt reference steps inner) :
      KeyAt reference (wrapperLabel? wrapper :: steps) (.wrapped info wrapper inner)

/-- A type is a key that refers to a path. -/
def RefersTo (reference : Path) (t : Ty) : Prop :=
  ∃ info unique base, t = .leaf info (.id unique base (some reference))

variable {t part inner : Ty} {reference location : Path} {steps : List (Option String)}
  {labels : List String} {fields : List (String × Ty)}

/-! ### What is reported -/

/-- The key of a leaf is reported at the steps to the leaf. -/
lemma referencesAt_leaf (place : List String) (info : Info) (content : Leaf) :
    referencesAt place (.leaf info content) =
      (leafReferences content).map fun reference => (Path.ofLabels place, reference) := by
  cases content with
  | id unique base reference => cases reference <;> rfl
  | _ => rfl

/-- A key in a leaf is the leaf. -/
lemma keyAt_leaf_iff {info : Info} {content : Leaf} :
    KeyAt reference steps (.leaf info content) ↔
      steps = [] ∧ reference ∈ leafReferences content := by
  constructor
  · intro h
    cases h with
    | key => exact ⟨rfl, List.mem_cons_self⟩
  · rintro ⟨rfl, h⟩
    unfold leafReferences at h
    split at h
    · obtain rfl := List.mem_singleton.mp h
      exact .key
    · cases h

mutual

/-- The keys of a type are reported with the labels of their steps behind those to the type. -/
theorem mem_referencesAt (place : List String) {reference location : Path} : ∀ t : Ty,
    (location, reference) ∈ referencesAt place t ↔ ∃ steps, KeyAt reference steps t ∧
      location = Path.ofLabels (place ++ steps.reduceOption)
  | .leaf info content => by
    rw [referencesAt_leaf, List.mem_map]
    constructor
    · rintro ⟨reference', hmem, heq⟩
      obtain ⟨rfl, rfl⟩ := Prod.mk.inj heq
      exact ⟨[], keyAt_leaf_iff.mpr ⟨rfl, hmem⟩, by simp⟩
    · rintro ⟨steps, h, rfl⟩
      obtain ⟨rfl, hmem⟩ := keyAt_leaf_iff.mp h
      exact ⟨reference, hmem, by simp⟩
  | .members info form fields => by
    rw [referencesAt, mem_referencesOfMembers place fields]
    constructor
    · rintro ⟨name, part, steps, hmem, hkey, rfl⟩
      exact ⟨some name :: steps, .member hmem hkey, by simp⟩
    · rintro ⟨steps, h, rfl⟩
      cases h with
      | member hmem hkey => exact ⟨_, _, _, hmem, hkey, by simp⟩
  | .wrapped info wrapper inner => by
    rw [referencesAt]
    constructor
    · intro h
      split at h
      · rename_i label hlabel
        obtain ⟨steps, hkey, rfl⟩ := (mem_referencesAt (place ++ [label]) inner).mp h
        exact ⟨some label :: steps, hlabel ▸ .inside hkey, by simp⟩
      · rename_i hlabel
        obtain ⟨steps, hkey, rfl⟩ := (mem_referencesAt place inner).mp h
        exact ⟨none :: steps, hlabel ▸ .inside hkey, by simp⟩
    · rintro ⟨steps, h, rfl⟩
      cases h with
      | inside hkey =>
        split
        · rename_i label hlabel
          exact (mem_referencesAt (place ++ [label]) inner).mpr ⟨_, hkey, by simp [hlabel]⟩
        · rename_i hlabel
          exact (mem_referencesAt place inner).mpr ⟨_, hkey, by simp [hlabel]⟩
  | .hypothesis info types => by
    constructor
    · intro h
      rw [referencesAt] at h
      cases h
    · rintro ⟨steps, h, -⟩
      cases h

/-- The keys of members are reported with the names of the members. -/
theorem mem_referencesOfMembers (place : List String) {reference location : Path} :
    ∀ fields : List (String × Ty), (location, reference) ∈ referencesOfMembers place fields ↔
      ∃ name part steps, (name, part) ∈ fields ∧ KeyAt reference steps part ∧
        location = Path.ofLabels (place ++ name :: steps.reduceOption)
  | [] => by simp [referencesOfMembers]
  | (name, t) :: rest => by
    rw [referencesOfMembers, List.mem_append, mem_referencesAt (place ++ [name]) t,
      mem_referencesOfMembers place rest]
    constructor
    · rintro (⟨steps, hkey, rfl⟩ | ⟨other, part, steps, hmem, hkey, rfl⟩)
      · exact ⟨name, t, steps, List.mem_cons_self, hkey, by simp⟩
      · exact ⟨other, part, steps, List.mem_cons_of_mem _ hmem, hkey, rfl⟩
    · rintro ⟨other, part, steps, hmem, hkey, rfl⟩
      rcases List.mem_cons.mp hmem with heq | hmem
      · obtain ⟨rfl, rfl⟩ := Prod.mk.inj heq
        exact .inl ⟨steps, hkey, by simp⟩
      · exact .inr ⟨other, part, steps, hmem, hkey, rfl⟩

end

/-- **The reported foreign keys** are the keys of a type outside of candidates, each with the labels
of the steps to it. -/
theorem mem_foreignKeys_iff : (location, reference) ∈ t.foreignKeys ↔
    ∃ steps, KeyAt reference steps t ∧ location = Path.ofLabels steps.reduceOption :=
  mem_referencesAt [] t

/-! ### Where the labels lead -/

/-- Where every step has a label, the labels lead to the key. -/
lemma KeyAt.along? (h : KeyAt reference steps t) (hnames : t.DistinctNames)
    (hsteps : none ∉ steps) :
    ∃ part, along? steps.reduceOption t = some part ∧ RefersTo reference part := by
  induction h with
  | key => exact ⟨_, rfl, _, _, _, rfl⟩
  | @member name part steps info form fields hmem below ih =>
    obtain ⟨hnodup, hbelow⟩ := hnames.of_members
    obtain ⟨key, halong, hkey⟩ := ih (hbelow _ hmem) (List.not_mem_of_not_mem_cons hsteps)
    refine ⟨key, ?_, hkey⟩
    rw [List.reduceOption_cons_of_some, Ty.along?, step?, lookup?_of_mem hnodup hmem]
    exact halong
  | @inside steps info wrapper inner below ih =>
    obtain ⟨hfirst, hrest⟩ := not_or.mp (List.mem_cons.not.mp hsteps)
    obtain ⟨key, halong, hkey⟩ := ih hnames.of_wrapped hrest
    obtain ⟨label, hlabel⟩ := Option.ne_none_iff_exists'.mp (Ne.symm hfirst)
    refine ⟨key, ?_, hkey⟩
    rw [hlabel, List.reduceOption_cons_of_some]
    exact halong

/-- A key that labels lead to stands at the end of as many steps. -/
lemma exists_keyAt_of_along? (h : along? labels t = some part) (hkey : RefersTo reference part) :
    ∃ steps, KeyAt reference steps t ∧ steps.length = labels.length := by
  induction labels generalizing t with
  | nil =>
    obtain rfl := Option.some.inj h
    obtain ⟨info, unique, base, rfl⟩ := hkey
    exact ⟨[], .key, rfl⟩
  | cons label labels ih =>
    obtain ⟨next, hnext, hrest⟩ := Option.bind_eq_some_iff.mp h
    obtain ⟨steps, hsteps, hlength⟩ := ih hrest
    cases t with
    | members info form fields =>
      exact ⟨some label :: steps, .member (mem_of_lookup? hnext) hsteps, congrArg (· + 1) hlength⟩
    | wrapped info wrapper inner =>
      obtain rfl := Option.some.inj hnext
      exact ⟨wrapperLabel? wrapper :: steps, .inside hsteps, congrArg (· + 1) hlength⟩
    | leaf info content | hypothesis info types => cases hnext

/-- **A wrapper whose label is left out** has no key inside if the labels of all keys inside lead to
keys from outside: each of them would lead to a key fewer steps away.

**Proof sketch.** By strong induction on the number of steps to a key inside. Its labels are
at most as many, and the first of them leads from the wrapper to what is inside. What they
lead to from there is a key that is nearer. -/
lemma not_keyAt_of_constrained {info : Info} {wrapper : Wrapper}
    (hall : ∀ reference steps, KeyAt reference steps inner → ∃ part,
      along? steps.reduceOption (.wrapped info wrapper inner) = some part ∧
        RefersTo reference part) (reference : Path) (steps : List (Option String)) :
    ¬KeyAt reference steps inner := by
  induction hn : steps.length using Nat.strongRecOn generalizing reference steps with
  | _ n ih =>
    intro hkey
    obtain ⟨part, halong, hpart⟩ := hall reference steps hkey
    have hshort : steps.reduceOption.length ≤ n := hn ▸ List.length_filterMap_le id steps
    cases hlabels : steps.reduceOption with
    | nil =>
      rw [hlabels] at halong
      obtain rfl := Option.some.inj halong
      obtain ⟨_, _, _, heq⟩ := hpart
      cases heq
    | cons label labels =>
      rw [hlabels] at halong hshort
      have hinside : along? labels inner = some part := halong
      obtain ⟨nearer, hnearer, hlength⟩ := exists_keyAt_of_along? hinside hpart
      exact ih nearer.length (by rw [hlength]; exact hshort) reference nearer rfl hnearer

/-- Every step has a label if the labels of all keys lead to them. -/
lemma KeyAt.none_not_mem (h : KeyAt reference steps t) (hnames : t.DistinctNames)
    (hall : ∀ reference steps, KeyAt reference steps t → ∃ part,
      Ty.along? steps.reduceOption t = some part ∧ RefersTo reference part) : none ∉ steps := by
  induction h with
  | key => exact List.not_mem_nil
  | @member name part steps info form fields hmem below ih =>
    obtain ⟨hnodup, hbelow⟩ := hnames.of_members
    have hpart : none ∉ steps := ih (hbelow _ hmem) fun r steps' hkey => by
      obtain ⟨key, halong, hrefers⟩ := hall r _ (.member hmem hkey)
      rw [List.reduceOption_cons_of_some, Ty.along?, step?, lookup?_of_mem hnodup hmem] at halong
      exact ⟨key, halong, hrefers⟩
    simpa using hpart
  | @inside steps info wrapper inner below ih =>
    cases hlabel : wrapperLabel? wrapper with
    | some label =>
      have hinner : none ∉ steps := ih hnames.of_wrapped fun r steps' hkey => by
        obtain ⟨key, halong, hrefers⟩ := hall r _ (.inside hkey)
        rw [hlabel, List.reduceOption_cons_of_some] at halong
        exact ⟨key, halong, hrefers⟩
      simpa using hinner
    | none =>
      have hinside : ∀ r steps', KeyAt r steps' inner → ∃ part, Ty.along? steps'.reduceOption
          (.wrapped info wrapper inner) = some part ∧ RefersTo r part := fun r steps' hkey => by
        have hkey' := hall r _ (.inside hkey)
        rwa [hlabel, List.reduceOption_cons_of_none] at hkey'
      exact absurd below (not_keyAt_of_constrained hinside _ _)

/-! ### No two reports about one place -/

mutual

/-- No two keys of a type are reported at one place. -/
theorem nodup_referencesAt (place : List String) : ∀ t : Ty, t.DistinctNames →
    ((referencesAt place t).map Prod.fst).Nodup
  | .leaf info content, _ => by
    rw [referencesAt_leaf]
    unfold leafReferences
    split
    · exact List.nodup_singleton _
    · exact List.nodup_nil
  | .members info form fields, h => by
    obtain ⟨hnodup, hbelow⟩ := h.of_members
    rw [referencesAt]
    exact nodup_referencesOfMembers place fields hnodup hbelow
  | .wrapped info wrapper inner, h => by
    rw [referencesAt]
    split
    · exact nodup_referencesAt _ inner h.of_wrapped
    · exact nodup_referencesAt place inner h.of_wrapped
  | .hypothesis info types, _ => by
    rw [referencesAt]
    exact List.nodup_nil

/-- No two keys of members with different names are reported at one place. -/
theorem nodup_referencesOfMembers (place : List String) : ∀ fields : List (String × Ty),
    (fields.map Prod.fst).Nodup → (∀ member ∈ fields, DistinctNames member.2) →
      ((referencesOfMembers place fields).map Prod.fst).Nodup
  | [], _, _ => by
    rw [referencesOfMembers]
    exact List.nodup_nil
  | (name, t) :: rest, hnodup, hbelow => by
    obtain ⟨hname, hnodup⟩ := List.nodup_cons.mp hnodup
    obtain ⟨hfirst, hrest⟩ := List.forall_mem_cons.mp hbelow
    rw [referencesOfMembers, List.map_append]
    refine List.nodup_append'.mpr ⟨nodup_referencesAt _ t hfirst,
      nodup_referencesOfMembers place rest hnodup hrest, ?_⟩
    -- The names of the members stand at the same place in the labels.
    rintro location hmem hmem'
    obtain ⟨⟨_, reference⟩, hkey, rfl⟩ := List.mem_map.mp hmem
    obtain ⟨⟨_, reference'⟩, hkey', heq⟩ := List.mem_map.mp hmem'
    obtain ⟨steps, -, rfl⟩ := (mem_referencesAt (place ++ [name]) t).mp hkey
    obtain ⟨other, part, steps', hother, -, rfl⟩ := (mem_referencesOfMembers place rest).mp hkey'
    have hlabels := Path.ofLabels_injective heq
    rw [List.append_assoc] at hlabels
    obtain ⟨rfl, -⟩ := List.cons.inj (List.append_cancel_left hlabels)
    exact hname (List.mem_map.mpr ⟨_, hother, rfl⟩)

end

/-- **No two reports are about one place.**

**Proof sketch.** By induction on the type. The labels to keys in different members have
different names at the same place. -/
theorem nodup_foreignKeys (h : t.DistinctNames) : (t.foreignKeys.map Prod.fst).Nodup :=
  nodup_referencesAt [] t h

/-! ### Reports that lead to their keys -/

/-- **All reports lead to their keys** in a type with distinct names exactly if there is no key in a
constrained type; and no two reports are about one place, whatever types are constrained.

**Proof sketch.** What is reported are the keys with the labels of their steps
(`mem_foreignKeys_iff`). Where all steps have labels, these lead to the key (`KeyAt.along?`).
Conversely, a key inside a constrained type would have to be where its labels lead, which is
nearer than the key is (`not_keyAt_of_constrained`). -/
theorem foreignKeys_addressed_iff (h : t.DistinctNames) :
    ((∀ key ∈ t.foreignKeys, ∃ part, t.get key.1 = .ok part ∧ RefersTo key.2 part) ↔
      ∀ reference steps, KeyAt reference steps t → none ∉ steps) ∧
    (t.foreignKeys.map Prod.fst).Nodup := by
  refine ⟨⟨fun hall reference steps hkey => ?_, fun hall key hmem => ?_⟩, nodup_foreignKeys h⟩
  · refine hkey.none_not_mem h fun r steps' hkey' => ?_
    obtain ⟨part, hget, hpart⟩ := hall _ (mem_foreignKeys_iff.mpr ⟨steps', hkey', rfl⟩)
    exact ⟨part, get_ofLabels_eq_ok.mp hget, hpart⟩
  · obtain ⟨location, reference⟩ := key
    obtain ⟨steps, hkey, rfl⟩ := mem_foreignKeys_iff.mp hmem
    obtain ⟨part, halong, hpart⟩ := hkey.along? h (hall reference steps hkey)
    exact ⟨part, get_ofLabels_eq_ok.mpr halong, hpart⟩

/-- A key, stored as a whole number. -/
def keyOf (reference : Option Path) : Ty := ofLeaf (.id false .int64 reference)

/-- Orders that may name a customer, next to the customers. -/
def shop : Ty :=
  struct [("customers", struct [("key", keyOf none)]),
    ("orders", list (struct [("customer",
      optional (keyOf (some (Path.ofLabels ["customers", "key"]))))]) 9)]

/-- The key of a customer is reported behind the list and the optional type, where it is. -/
theorem foreignKeys_addressed_iff_shop :
    shop.DistinctNames ∧
    shop.foreignKeys = [(Path.ofLabels ["orders", listValues, "customer", optionalValue],
      Path.ofLabels ["customers", "key"])] ∧
    ∀ key ∈ shop.foreignKeys, ∃ part, shop.get key.1 = .ok part ∧ RefersTo key.2 part := by
  have hkey : ∀ r, (keyOf r).DistinctNames := fun _ => .leaf
  have hone : ∀ {name : String} {part : Ty}, part.DistinctNames →
      (struct [(name, part)]).DistinctNames := fun h =>
    .members (List.nodup_singleton _) (by simpa using h)
  have hnames : shop.DistinctNames := by
    refine .members (by decide) ?_
    simp only [List.forall_mem_cons]
    exact ⟨hone (hkey _), .wrapped (hone (.wrapped (hkey _))), fun _ h => by cases h⟩
  refine ⟨hnames, rfl, (foreignKeys_addressed_iff hnames).1.mpr fun r steps h => ?_⟩
  -- Only a list and an optional type are on the way to the key.
  cases h with
  | member hmem below =>
    simp only [List.mem_cons, Prod.mk.injEq, List.not_mem_nil, or_false] at hmem
    rcases hmem with ⟨rfl, rfl⟩ | ⟨rfl, rfl⟩
    · cases below with
      | member hmem below =>
        obtain ⟨rfl, rfl⟩ := Prod.mk.inj (List.mem_singleton.mp hmem)
        cases below
    · cases below with
      | inside below => cases below with
        | member hmem below =>
          obtain ⟨rfl, rfl⟩ := Prod.mk.inj (List.mem_singleton.mp hmem)
          cases below with
          | inside below => cases below with
            | key => decide

/-- A key that refers to another one and has to satisfy a condition. -/
def checkedKey : Ty :=
  struct [("key", keyOf none),
    ("ref", wrap (.constrained "positive") (keyOf (some (Path.ofLabels ["key"]))))]

/-- The constrained key is reported under its column, where the path leads to the constrained type
and not to the key. -/
theorem not_addressed_checkedKey :
    checkedKey.DistinctNames ∧
    checkedKey.foreignKeys = [(Path.ofLabels ["ref"], Path.ofLabels ["key"])] ∧
    checkedKey.get (Path.ofLabels ["ref"]) =
      .ok (wrap (.constrained "positive") (keyOf (some (Path.ofLabels ["key"])))) ∧
    ¬∀ key ∈ checkedKey.foreignKeys, ∃ part, checkedKey.get key.1 = .ok part ∧
      RefersTo key.2 part := by
  have hconstrained : checkedKey.get (Path.ofLabels ["ref"]) =
      .ok (wrap (.constrained "positive") (keyOf (some (Path.ofLabels ["key"])))) :=
    get_ofLabels_eq_ok.mpr rfl
  refine ⟨.members (by decide) ?_, rfl, hconstrained, fun hall => ?_⟩
  · simp only [List.forall_mem_cons]
    exact ⟨.leaf, .wrapped .leaf, fun _ h => by cases h⟩
  · obtain ⟨part, hget, info, unique, base, rfl⟩ := hall _ List.mem_cons_self
    cases Except.ok.inj (hconstrained.symm.trans hget)

end Lineage.Ty
