import Lineage.Document.Types
import Lineage.Proofs.Ty.Address
import Lineage.Ty.Columns
import Lineage.Ty.References

set_option autoImplicit false

/-!
# Types cut out of others

Filters and projections are told by a type that is cut out of the type of the rows: leaves have
other bounds, some members are gone, and parts are cut in turn.

## Main definitions

* `Lineage.Ty.Kept`: members of which some are left, each in a given relation to what it was.
* `Lineage.Ty.Cut`: a type is cut out of another one.
* `Lineage.Ty.Pruned`: members of a type are gone, and nothing else is different.
* `Lineage.Ty.Plain`: no arrays, and members with distinct names.

## Main results

* `Lineage.Ty.cut_narrowAll`, `Lineage.Ty.cut_select`: limits and paths cut types.
* `Lineage.Ty.pruned_of_selectBelow`: paths only prune them.
* `Lineage.Ty.cut_retainReferences`: so does dropping references.
* `Lineage.Ty.Cut.plain`: what is cut out of a plain type is plain.
-/

namespace Lineage.Ty

/-- Members of which some are left, in their order, each related to what it was. -/
inductive Kept (R : Ty → Ty → Prop) : List (String × Ty) → List (String × Ty) → Prop
  /-- There are no members. -/
  | nil : Kept R [] []
  /-- The first member is gone. -/
  | drop {name : String} {whole : Ty} {left fields : List (String × Ty)}
      (rest : Kept R left fields) : Kept R left ((name, whole) :: fields)
  /-- The first member is left. -/
  | keep {name : String} {part whole : Ty} {left fields : List (String × Ty)}
      (first : R part whole) (rest : Kept R left fields) :
      Kept R ((name, part) :: left) ((name, whole) :: fields)

/-- Candidates with their scores, each related to what it was. -/
inductive Scored (R : Ty → Ty → Prop) : List (Ty × Float) → List (Ty × Float) → Prop
  /-- There are no candidates. -/
  | nil : Scored R [] []
  /-- A candidate in front of others. -/
  | cons {part whole : Ty} {score : Float} {left types : List (Ty × Float)}
      (first : R part whole) (rest : Scored R left types) :
      Scored R ((part, score) :: left) ((whole, score) :: types)

/-- A type is cut out of another one: leaves are stored as they were, members may be gone, and all
parts are cut out of what they were. -/
inductive Cut : Ty → Ty → Prop
  /-- A leaf that is stored as it was. -/
  | leaf {info : Info} {content content' : Leaf} (h : leafColumn content = leafColumn content') :
      Cut (.leaf info content) (.leaf info content')
  /-- Some of the members. -/
  | members {info : Info} {form : Form} {left fields : List (String × Ty)}
      (h : Kept Cut left fields) : Cut (.members info form left) (.members info form fields)
  /-- A wrapper around a cut type. -/
  | wrapped {info : Info} {wrapper : Wrapper} {part whole : Ty} (h : Cut part whole) :
      Cut (.wrapped info wrapper part) (.wrapped info wrapper whole)
  /-- Cut candidates with their scores. -/
  | hypothesis {info : Info} {left types : List (Ty × Float)} (h : Scored Cut left types) :
      Cut (.hypothesis info left) (.hypothesis info types)

mutual

/-- A type is cut out of itself. -/
theorem Cut.refl : ∀ t : Ty, Cut t t
  | .leaf _ _ => .leaf rfl
  | .members _ _ fields => .members (Kept.refl fields)
  | .wrapped _ _ inner => .wrapped (Cut.refl inner)
  | .hypothesis _ types => .hypothesis (Scored.refl types)

/-- All members are left. -/
theorem Kept.refl : ∀ fields : List (String × Ty), Kept Cut fields fields
  | [] => .nil
  | (_, t) :: rest => .keep (Cut.refl t) (Kept.refl rest)

/-- All candidates are left. -/
theorem Scored.refl : ∀ types : List (Ty × Float), Scored Cut types types
  | [] => .nil
  | (t, _) :: rest => .cons (Cut.refl t) (Scored.refl rest)

end

mutual

/-- What is cut out of a cut type is cut out of the type. -/
theorem Cut.trans : ∀ {a b : Ty} (c : Ty), Cut a b → Cut b c → Cut a c
  | _, _, .leaf _ _, hab, hbc => by
    cases hbc with
    | leaf h' =>
      cases hab with
      | leaf h => exact .leaf (h.trans h')
  | _, _, .members _ _ fields, hab, hbc => by
    cases hbc with
    | members h' =>
      cases hab with
      | members h => exact .members (Kept.trans fields h h')
  | _, _, .wrapped _ _ inner, hab, hbc => by
    cases hbc with
    | wrapped h' =>
      cases hab with
      | wrapped h => exact .wrapped (Cut.trans inner h h')
  | _, _, .hypothesis _ types, hab, hbc => by
    cases hbc with
    | hypothesis h' =>
      cases hab with
      | hypothesis h => exact .hypothesis (Scored.trans types h h')

/-- Members that are left of what is left. -/
theorem Kept.trans : ∀ {a b : List (String × Ty)} (c : List (String × Ty)),
    Kept Cut a b → Kept Cut b c → Kept Cut a c
  | _, _, [], hab, hbc => by
    cases hbc
    exact hab
  | _, _, (_, t) :: rest, hab, hbc => by
    cases hbc with
    | drop h' => exact .drop (Kept.trans rest hab h')
    | keep first' h' =>
      cases hab with
      | drop h => exact .drop (Kept.trans rest h h')
      | keep first h => exact .keep (Cut.trans t first first') (Kept.trans rest h h')

/-- Candidates cut out of cut candidates. -/
theorem Scored.trans : ∀ {a b : List (Ty × Float)} (c : List (Ty × Float)),
    Scored Cut a b → Scored Cut b c → Scored Cut a c
  | _, _, [], hab, hbc => by
    cases hbc
    exact hab
  | _, _, (t, _) :: rest, hab, hbc => by
    cases hbc with
    | cons first' h' =>
      cases hab with
      | cons first h => exact .cons (Cut.trans t first first') (Scored.trans rest h h')

end

/-! ### Members -/

/-- The names of the members that are left. -/
lemma Kept.names {R : Ty → Ty → Prop} {left fields : List (String × Ty)} (h : Kept R left fields) :
    (left.map Prod.fst).Sublist (fields.map Prod.fst) := by
  induction h with
  | nil => exact .slnil
  | drop _ ih => exact .cons _ ih
  | keep _ _ ih => exact .cons_cons _ ih

/-- Members of which some are left as they were. -/
lemma Kept.filter (keep : String × Ty → Bool) (fields : List (String × Ty)) :
    Kept Cut (fields.filter keep) fields := by
  induction fields with
  | nil => exact .nil
  | cons field rest ih =>
    rw [List.filter_cons]
    split
    · exact .keep (Cut.refl field.2) ih
    · exact .drop ih

/-! ### Limits -/

open Document (Bound narrow narrowMember narrowAll)

/-- A leaf within limits is stored as it was. -/
lemma leafColumn_of_narrowLeaf {b : Bound} {full : String} {content content' : Leaf}
    (h : b.narrowLeaf full content = .ok content') : leafColumn content' = leafColumn content := by
  cases content with
  | integer lo hi base =>
    cases h
    cases base <;> rfl
  | float lo hi base =>
    cases h
    cases base <;> rfl
  | enum nameValues ordered =>
    cases h
    rfl
  | _ => cases h

/-- A leaf that is narrowed has a column of values. -/
lemma leafColumn_ne_null_of_narrowLeaf {b : Bound} {full : String} {content content' : Leaf}
    (h : b.narrowLeaf full content = .ok content') : (leafColumn content).1 ≠ .null := by
  cases content with
  | integer lo hi base | float lo hi base => cases base <;> nofun
  | enum nameValues ordered => nofun
  | _ => cases h

/-- Members are narrowed one after the other: those with the name, and no others. -/
lemma narrowMember_cons_eq_ok {b : Bound} {full head : String} {rest : List String} {name : String}
    {t : Ty} {fields fields' : List (String × Ty)} :
    narrowMember b full head rest ((name, t) :: fields) = .ok fields' ↔
      ∃ first others, (if name = head then narrow b full t rest else .ok t) = .ok first ∧
        narrowMember b full head rest fields = .ok others ∧ (name, first) :: others = fields' := by
  simp only [narrowMember]
  split
  · simp only [Outcome.bind_eq_ok, exists_and_left, Except.ok.injEq]
  · simp only [Outcome.bind_eq_ok, Outcome.ok_bind, exists_and_left, Except.ok.injEq,
      exists_eq_left']

/-- A label leads to a member that is there, and members with its name are narrowed. -/
lemma narrow_members_cons_eq_ok {b : Bound} {full head : String} {rest : List String} {info : Info}
    {form : Form} {fields : List (String × Ty)} {t' : Ty} :
    narrow b full (.members info form fields) (head :: rest) = .ok t' ↔
      (∃ part, lookup? head fields = some part) ∧
        ∃ fields', narrowMember b full head rest fields = .ok fields' ∧
          .members info form fields' = t' := by
  simp only [narrow]
  cases hfound : lookup? head fields with
  | none => simp
  | some part => simp [Outcome.map_eq_ok]

mutual

/-- **Limits at an address cut a type.** -/
theorem cut_narrow (b : Bound) (full : String) : ∀ (t : Ty) (labels : List String) {t' : Ty},
    narrow b full t labels = .ok t' → Cut t' t
  | .leaf _ _, labels, _, h => by
    cases labels with
    | nil =>
      obtain ⟨content', hcontent, rfl⟩ := Outcome.map_eq_ok.mp h
      exact .leaf (leafColumn_of_narrowLeaf hcontent)
    | cons head rest => cases h
  | .members _ form fields, labels, _, h => by
    cases labels with
    | nil =>
      cases form with
      | struct => cases h
      | union =>
        simp only [narrow] at h
        split at h
        · cases h
          exact .members (Kept.filter _ fields)
        · cases h
    | cons head rest =>
      obtain ⟨-, fields', hfields, rfl⟩ := narrow_members_cons_eq_ok.mp h
      exact .members (kept_narrowMember b full head rest fields hfields)
  | .wrapped _ wrapper inner, labels, _, h => by
    cases wrapper with
    | optional =>
      simp only [narrow] at h
      obtain ⟨inner', hinner, rfl⟩ := Outcome.map_eq_ok.mp h
      exact .wrapped (cut_narrow b full inner labels hinner)
    | list maxSize | array shape | constrained constraint => cases labels <;> cases h
  | .hypothesis _ _, labels, _, h => by cases labels <;> cases h

/-- Limits at an address cut members. -/
theorem kept_narrowMember (b : Bound) (full head : String) (rest : List String) :
    ∀ (fields : List (String × Ty)) {fields' : List (String × Ty)},
      narrowMember b full head rest fields = .ok fields' → Kept Cut fields' fields
  | [], _, h => by
    cases h
    exact .nil
  | (name, t) :: fields, _, h => by
    obtain ⟨first, others, hfirst, hothers, rfl⟩ := narrowMember_cons_eq_ok.mp h
    refine .keep ?_ (kept_narrowMember b full head rest fields hothers)
    split at hfirst
    · exact cut_narrow b full t rest hfirst
    · cases hfirst
      exact Cut.refl t

end

/-- **Limits cut a type.** -/
theorem cut_narrowAll {t : Ty} {bounds : Dict Bound} {t' : Ty} (h : narrowAll t bounds = .ok t') :
    Cut t' t := by
  unfold narrowAll at h
  induction bounds generalizing t with
  | nil =>
    cases h
    exact Cut.refl _
  | cons entry rest ih =>
    rw [List.foldlM_cons] at h
    obtain ⟨next, hnext, hrest⟩ := Outcome.bind_eq_ok.mp h
    obtain ⟨labels, -, hnarrow⟩ := Outcome.bind_eq_ok.mp hnext
    exact Cut.trans t (ih hrest) (cut_narrow entry.2 entry.1 t labels hnarrow)

/-! ### Paths -/

/-- Members of a type are gone, and nothing else is different: those that are left stand in their
order, under their names and with their properties, and are pruned in turn. -/
inductive Pruned : Ty → Ty → Prop
  /-- All is left. -/
  | whole {t : Ty} : Pruned t t
  /-- Some of the members. -/
  | members {info : Info} {form : Form} {left fields : List (String × Ty)}
      (kept : Kept Pruned left fields) :
      Pruned (.members info form left) (.members info form fields)
  /-- A wrapper around a pruned type. -/
  | wrapped {info : Info} {wrapper : Wrapper} {part whole : Ty} (inside : Pruned part whole) :
      Pruned (.wrapped info wrapper part) (.wrapped info wrapper whole)

mutual

/-- **A pruned type** is cut out of the whole one. -/
theorem Pruned.cut : ∀ (t : Ty) {left : Ty}, Pruned left t → Cut left t
  | .leaf info content, _, h => by
    cases h with
    | whole => exact Cut.refl _
  | .members _ _ fields, _, h => by
    cases h with
    | whole => exact Cut.refl _
    | members kept => exact .members (Kept.cut fields kept)
  | .wrapped _ _ inner, _, h => by
    cases h with
    | whole => exact Cut.refl _
    | wrapped inside => exact .wrapped (Pruned.cut inner inside)
  | .hypothesis info types, _, h => by
    cases h with
    | whole => exact Cut.refl _

/-- Members that are left and pruned are cut out of the members. -/
theorem Kept.cut : ∀ (fields : List (String × Ty)) {left : List (String × Ty)},
    Kept Pruned left fields → Kept Cut left fields
  | [], _, h => by
    cases h with
    | nil => exact .nil
  | (_, t) :: rest, _, h => by
    cases h with
    | drop others => exact .drop (Kept.cut rest others)
    | keep first others => exact .keep (Pruned.cut t first) (Kept.cut rest others)

end

mutual

/-- **Nodes below the current one prune a type.** -/
theorem pruned_of_selectBelow (full : Path) : ∀ (t : Ty) {nodes : List Path} {left : Ty},
    selectBelow full t nodes = .ok left → Pruned left t
  | t, [], _, h => by
    rw [selectBelow] at h
    cases h
    exact .whole
  | .members _ _ fields, node :: nodes, _, h => by
    obtain ⟨-, remaining, hmembers, rfl⟩ := selectBelow_members_eq_ok.mp h
    exact .members (kept_of_selectMembers full fields hmembers)
  | .wrapped _ _ inner, [node], _, h => by
    rw [selectBelow] at h
    obtain ⟨part, hpart, rfl⟩ := Outcome.map_eq_ok.mp h
    exact .wrapped (pruned_of_selectBelow full inner hpart)
  | .wrapped _ _ _, _ :: _ :: _, _, h => by cases h
  | .leaf _ _, node :: nodes, _, h => by cases h
  | .hypothesis _ _, node :: nodes, _, h => by cases h

/-- Nodes below the current one leave some of the members. -/
theorem kept_of_selectMembers (full : Path) {nodes : List Path} :
    ∀ (fields : List (String × Ty)) {left : List (String × Ty)},
      selectMembers full nodes fields = .ok left → Kept Pruned left fields
  | [], _, h => by
    cases h
    exact .nil
  | (name, t) :: rest, _, h => by
    rcases selectMembers_cons_eq_ok.mp h with
      ⟨-, hothers⟩ | ⟨node, part, others, -, hpart, hothers, rfl⟩
    · exact .drop (kept_of_selectMembers full rest hothers)
    · exact .keep (pruned_of_selectBelow full t hpart)
        (kept_of_selectMembers full rest hothers)

end

/-- **A path cuts a type.** -/
theorem cut_select {t t' : Ty} {path : Path} (h : t.select path = .ok t') : Cut t' t :=
  (pruned_of_selectBelow path t h).cut

/-! ### References -/

/-- A key without its reference is stored as it was. -/
lemma leafColumn_retainLeafReference (keep : Path → Bool) (content : Leaf) :
    leafColumn (retainLeafReference keep content) = leafColumn content := by
  unfold retainLeafReference
  split
  · rename_i base _
    split
    · rfl
    · cases base <;> rfl
  · rfl

mutual

/-- **Dropping references cuts a type.** -/
theorem cut_retainReferences (keep : Path → Bool) : ∀ t : Ty, Cut (retainReferences keep t) t
  | .leaf _ content => .leaf (leafColumn_retainLeafReference keep content)
  | .members _ _ fields => .members (kept_retainInMembers keep fields)
  | .wrapped _ _ inner => .wrapped (cut_retainReferences keep inner)
  | .hypothesis _ types => .hypothesis (scored_retainInScored keep types)

/-- Dropping references leaves all members. -/
theorem kept_retainInMembers (keep : Path → Bool) :
    ∀ fields : List (String × Ty), Kept Cut (retainInMembers keep fields) fields
  | [] => .nil
  | (_, t) :: rest => .keep (cut_retainReferences keep t) (kept_retainInMembers keep rest)

/-- Dropping references leaves all candidates. -/
theorem scored_retainInScored (keep : Path → Bool) :
    ∀ types : List (Ty × Float), Scored Cut (retainInScored keep types) types
  | [] => .nil
  | (t, _) :: rest => .cons (cut_retainReferences keep t) (scored_retainInScored keep rest)

end

mutual

/-- **Types without some of their references are stored alike.** -/
theorem columnType_retainReferences (keep : Path → Bool) :
    ∀ t : Ty, columnType (retainReferences keep t) = columnType t
  | .leaf _ content => by
    simp only [retainReferences, columnType, leafColumn_retainLeafReference]
  | .members _ form fields => by
    simp only [retainReferences, columnType, fieldsOf_retainInMembers keep fields]
  | .wrapped _ wrapper inner => by
    simp only [retainReferences, columnType, columnType_retainReferences keep inner]
  | .hypothesis _ types => by
    simp only [retainReferences, columnType, columnTypes_retainInScored keep types]

/-- Members without some of their references are stored alike. -/
theorem fieldsOf_retainInMembers (keep : Path → Bool) :
    ∀ fields : List (String × Ty), fieldsOf (retainInMembers keep fields) = fieldsOf fields
  | [] => rfl
  | (_, t) :: rest => by
    simp only [retainInMembers, fieldsOf, columnType_retainReferences keep t,
      fieldsOf_retainInMembers keep rest]

/-- Candidates without some of their references are stored alike. -/
theorem columnTypes_retainInScored (keep : Path → Bool) :
    ∀ types : List (Ty × Float), columnTypes (retainInScored keep types) = columnTypes types
  | [] => rfl
  | (t, _) :: rest => by
    simp only [retainInScored, columnTypes, columnType_retainReferences keep t,
      columnTypes_retainInScored keep rest]

end

/-- Rows of a type without some of its references have the same columns. -/
theorem batchFields_retainReferences (keep : Path → Bool) :
    ∀ (t : Ty) {fields : List Field}, batchFields t = .ok fields →
      batchFields (retainReferences keep t) = .ok fields
  | .members _ form fields, _, h => by
    simpa only [retainReferences, batchFields, fieldsOf_retainInMembers keep fields] using h
  | .wrapped _ wrapper inner, _, h => by
    cases wrapper with
    | constrained constraint =>
      simp only [retainReferences, batchFields] at h ⊢
      exact batchFields_retainReferences keep inner h
    | optional | list maxSize | array shape => cases h
  | .leaf _ _, _, h => by cases h
  | .hypothesis _ _, _, h => by cases h

/-! ### Plain types -/

mutual

/-- A type has no arrays, and the members of its structs and unions have distinct names, none of
which is that of the column that names the branch. -/
def Plain : Ty → Prop
  | .leaf _ _ => True
  | .members _ _ fields => (fields.map Prod.fst).Nodup ∧ fieldSelected ∉ fields.map Prod.fst ∧
    PlainMembers fields
  | .wrapped _ wrapper inner => (∀ shape, wrapper ≠ .array shape) ∧ Plain inner
  | .hypothesis _ types => PlainScored types

/-- All members are of plain types. -/
def PlainMembers : List (String × Ty) → Prop
  | [] => True
  | (_, t) :: rest => Plain t ∧ PlainMembers rest

/-- All candidates are plain. -/
def PlainScored : List (Ty × Float) → Prop
  | [] => True
  | (t, _) :: rest => Plain t ∧ PlainScored rest

end

mutual

/-- **What is cut out of a plain type is plain.** -/
theorem Cut.plain : ∀ {t : Ty} (whole : Ty), Cut t whole → Plain whole → Plain t
  | _, .leaf _ _, h, _ => by
    cases h
    trivial
  | _, .members _ _ fields, h, hplain => by
    cases h with
    | members h =>
      obtain ⟨hnodup, hselected, hfields⟩ := hplain
      exact ⟨h.names.nodup hnodup, fun hmem => hselected (h.names.subset hmem),
        Kept.plain fields h hfields⟩
  | _, .wrapped _ _ inner, h, hplain => by
    cases h with
    | wrapped h => exact ⟨hplain.1, Cut.plain inner h hplain.2⟩
  | _, .hypothesis _ types, h, hplain => by
    cases h with
    | hypothesis h => exact Scored.plain types h hplain

/-- What is left of members of plain types is plain. -/
theorem Kept.plain : ∀ {left : List (String × Ty)} (fields : List (String × Ty)),
    Kept Cut left fields → PlainMembers fields → PlainMembers left
  | _, [], h, _ => by
    cases h
    trivial
  | _, (_, t) :: rest, h, hplain => by
    cases h with
    | drop h => exact Kept.plain rest h hplain.2
    | keep first h => exact ⟨Cut.plain t first hplain.1, Kept.plain rest h hplain.2⟩

/-- Candidates cut out of plain ones are plain. -/
theorem Scored.plain : ∀ {left : List (Ty × Float)} (types : List (Ty × Float)),
    Scored Cut left types → PlainScored types → PlainScored left
  | _, [], h, _ => by
    cases h
    trivial
  | _, (t, _) :: rest, h, hplain => by
    cases h with
    | cons first h => exact ⟨Cut.plain t first hplain.1, Scored.plain rest h hplain.2⟩

end

end Lineage.Ty
