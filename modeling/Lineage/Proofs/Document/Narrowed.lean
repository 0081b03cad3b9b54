import Lineage.Proofs.Document.Limits
import Lineage.Proofs.Ty.Cut
import Lineage.Proofs.Ty.Dates
import Lineage.Proofs.Ty.Passing

set_option autoImplicit false

/-!
# What filters of a document mean

A filter sets limits for the values at one address. It narrows the type there, and keeps the rows
that the narrowed type marks: those that the type marks, and whose value at the address is null,
within the limits, or not there at all. Numbers are within the limits as real numbers, although the
limits are doubles and those of whole numbers are moved inward.

## Main definitions

* `Lineage.Ty.Narrowed`: what narrowing makes of a type.
* `Lineage.Ty.ValueAt`: the value at an address.
* `Lineage.Ty.Allowed`, `Lineage.Ty.AllowedAt`: the value at an address, if there is one, is allowed
  by limits.

## Main results

* `Lineage.Ty.narrowed_of_narrow`: what narrowing makes of a type.
* `Lineage.Ty.Narrowed.passes_iff`: what a narrowed type lets pass.
* `Lineage.Ty.selectRows_narrow`: the rows that a filter keeps.

## Design

A filter finds its address in a type, so the first step is about types only: `Narrowed` has a case
for each way in which a type can be narrowed, and everything else is an induction on it. Membership
is that of `Passes`, which says of every value whether its row is marked, also of one with nulls out
of place; so nothing is asked of the nulls of a column.
-/

namespace Lineage.Ty

open Binary64 (isNaN decode)
open Document (Bound narrow narrowMember)
open Document.Bound (InRange)

variable {b : Bound} {full head : String} {labels rest : List String} {t t' part part' : Ty}
  {fields fields' : List (String × Ty)} {info : Info} {form : Form} {type : ColumnType}
  {cell : Cell}

/-! ### Members that are replaced -/

/-- The members with another type for those of one name. -/
def replaceMember (name : String) (part : Ty) (fields : List (String × Ty)) : List (String × Ty) :=
  fields.map fun member => if member.1 = name then (member.1, part) else member

/-- The members stay if none has the name. -/
lemma replaceMember_of_notMem (h : head ∉ fields.map Prod.fst) :
    replaceMember head part' fields = fields := by
  refine (List.map_congr_left fun member hmember => ?_).trans (List.map_id fields)
  exact if_neg fun heq => h (List.mem_map.mpr ⟨member, hmember, heq⟩)

/-- The first member may be the one that is replaced. -/
lemma replaceMember_cons (name : String) (t : Ty) :
    replaceMember head part' ((name, t) :: fields) =
      (name, if name = head then part' else t) :: replaceMember head part' fields := by
  unfold replaceMember
  rw [List.map_cons]
  split <;> rfl

/-- The member that is replaced, and the others. -/
lemma mem_replaceMember {member : String × Ty} : member ∈ replaceMember head part' fields ↔
    (member = (head, part') ∧ head ∈ fields.map Prod.fst) ∨
      (member.1 ≠ head ∧ member ∈ fields) := by
  rw [replaceMember, List.mem_map]
  constructor
  · rintro ⟨old, hold, rfl⟩
    by_cases h : old.1 = head
    · exact .inl ⟨by rw [if_pos h, h], List.mem_map.mpr ⟨old, hold, h⟩⟩
    · rw [if_neg h]
      exact .inr ⟨h, hold⟩
  · rintro (⟨rfl, hmem⟩ | ⟨hne, hmem⟩)
    · obtain ⟨old, hold, rfl⟩ := List.mem_map.mp hmem
      exact ⟨old, hold, if_pos rfl⟩
    · exact ⟨member, hmem, if_neg hne⟩

/-- What is found under a name among the members. -/
lemma lookup?_replaceMember (name : String) : lookup? name (replaceMember head part' fields) =
    if name = head then (lookup? head fields).map fun _ => part' else lookup? name fields := by
  induction fields with
  | nil => simp [replaceMember, lookup?]
  | cons field fields ih =>
    obtain ⟨first, t⟩ := field
    rw [replaceMember_cons]
    by_cases hfirst : first = name
    · subst hfirst
      rw [lookup?_cons_self, lookup?_cons_self]
      split
      · rename_i h
        subst h
        rw [lookup?_cons_self]
        rfl
      · rfl
    · rw [lookup?_cons_of_ne hfirst, lookup?_cons_of_ne hfirst, ih]
      split
      · rename_i h
        subst h
        rw [lookup?_cons_of_ne hfirst]
      · rfl

/-- All members are as they should if those were that are replaced. -/
lemma forall_mem_replaceMember {P : String × Ty → Prop} (found : lookup? head fields = some part)
    (hall : ∀ member ∈ fields, P member) (hpart : P (head, part) → P (head, part')) :
    ∀ member ∈ replaceMember head part' fields, P member := by
  intro member hmember
  rcases mem_replaceMember.mp hmember with ⟨rfl, -⟩ | ⟨-, hmember⟩
  · exact hpart (hall _ (mem_of_lookup? found))
  · exact hall member hmember

/-- What is found under a name among the members that are listed. -/
lemma lookup?_filter (names : List String) (name : String) :
    lookup? name (fields.filter fun entry => names.contains entry.1) =
      if name ∈ names then lookup? name fields else none := by
  unfold lookup?
  rw [List.find?_filter]
  split
  · rename_i h
    congr 2
    funext entry
    by_cases heq : entry.1 = name <;> simp [heq, h]
  · rename_i h
    rw [Option.map_eq_none_iff, List.find?_eq_none]
    rintro entry - hentry
    rw [decide_eq_true_iff, List.contains_iff_mem, beq_iff_eq] at hentry
    exact h (hentry.2 ▸ hentry.1)

/-! ### What narrowing makes of a type -/

/-- What narrowing at an address makes of a type: at the end of the labels a leaf has other limits,
or a union has lost branches. On the way there, one member is replaced. -/
inductive Narrowed (b : Bound) (full : String) : Ty → List String → Ty → Prop
  /-- A leaf with other limits. -/
  | leaf {info : Info} {content content' : Leaf}
      (narrowed : b.narrowLeaf full content = .ok content') :
      Narrowed b full (.leaf info content) [] (.leaf info content')
  /-- A union with the listed branches. -/
  | branches {info : Info} {fields : List (String × Ty)} {names : List String}
      (listed : b.names = some names) :
      Narrowed b full (.members info .union fields) []
        (.members info .union (fields.filter fun entry => names.contains entry.1))
  /-- A struct or union with one member replaced. -/
  | member {info : Info} {form : Form} {fields : List (String × Ty)} {head : String}
      {rest : List String} {part part' : Ty} (found : lookup? head fields = some part)
      (below : Narrowed b full part rest part') :
      Narrowed b full (.members info form fields) (head :: rest)
        (.members info form (replaceMember head part' fields))
  /-- An optional type, which takes no label. -/
  | optional {info : Info} {inner inner' : Ty} {labels : List String}
      (inside : Narrowed b full inner labels inner') :
      Narrowed b full (.wrapped info .optional inner) labels (.wrapped info .optional inner')

/-- Members without the name are not narrowed. -/
lemma narrowMember_of_notMem (h : head ∉ fields.map Prod.fst) :
    narrowMember b full head rest fields = .ok fields := by
  induction fields with
  | nil => rfl
  | cons field fields ih =>
    obtain ⟨name, t⟩ := field
    rw [List.map_cons, List.mem_cons, not_or] at h
    exact narrowMember_cons_eq_ok.mpr ⟨t, fields, if_neg (Ne.symm h.1), ih h.2, rfl⟩

/-- Of members with different names, the one with the name is replaced. -/
lemma eq_replaceMember_of_narrowMember (hnodup : (fields.map Prod.fst).Nodup)
    (h : narrowMember b full head rest fields = .ok fields')
    (found : lookup? head fields = some part) :
    ∃ part', narrow b full part rest = .ok part' ∧ fields' = replaceMember head part' fields := by
  induction fields generalizing fields' with
  | nil => cases found
  | cons field fields ih =>
    obtain ⟨name, t⟩ := field
    rw [List.map_cons, List.nodup_cons] at hnodup
    obtain ⟨first, others, hfirst, hothers, rfl⟩ := narrowMember_cons_eq_ok.mp h
    by_cases hname : name = head
    · subst hname
      rw [lookup?_cons_self] at found
      cases found
      rw [if_pos rfl] at hfirst
      cases (narrowMember_of_notMem hnodup.1).symm.trans hothers
      refine ⟨first, hfirst, ?_⟩
      rw [replaceMember_cons, if_pos rfl, replaceMember_of_notMem hnodup.1]
    · rw [lookup?_cons_of_ne hname] at found
      rw [if_neg hname] at hfirst
      cases hfirst
      obtain ⟨part', hpart', rfl⟩ := ih hnodup.2 hothers found
      exact ⟨part', hpart', by rw [replaceMember_cons, if_neg hname]⟩

/-- **What narrowing makes of a type** whose members have different names. -/
theorem narrowed_of_narrow (hnames : t.DistinctNames) (h : narrow b full t labels = .ok t') :
    Narrowed b full t labels t' := by
  -- on the type: labels get fewer below a member only, and stay the same inside an optional type
  induction t using induction generalizing labels t' with
  | leaf info content =>
    cases labels with
    | nil =>
      obtain ⟨content', hcontent, rfl⟩ := Outcome.map_eq_ok.mp h
      exact .leaf hcontent
    | cons head rest => cases h
  | members info form fields ih =>
    obtain ⟨hnodup, hbelow⟩ := hnames.of_members
    cases labels with
    | nil =>
      cases form with
      | struct => cases h
      | union =>
        simp only [narrow] at h
        split at h
        · rename_i names hlisted
          cases h
          exact .branches hlisted
        · cases h
    | cons head rest =>
      obtain ⟨⟨part, found⟩, fields', hfields, rfl⟩ := narrow_members_cons_eq_ok.mp h
      obtain ⟨part', hpart', rfl⟩ := eq_replaceMember_of_narrowMember hnodup hfields found
      have hmem := mem_of_lookup? found
      exact .member found (ih _ hmem (hbelow _ hmem) hpart')
  | wrapped info wrapper inner ih =>
    cases wrapper with
    | optional =>
      simp only [narrow] at h
      obtain ⟨inner', hinner, rfl⟩ := Outcome.map_eq_ok.mp h
      exact .optional (ih hnames.of_wrapped hinner)
    | list maxSize | array shape | constrained constraint => cases labels <;> cases h
  | hypothesis info types => cases labels <;> cases h

/-- **A column carries a narrowed type** if it carries the type. -/
theorem Narrowed.carries (h : Narrowed b full t labels t') :
    ∀ {type : ColumnType}, Carries t type → Carries t' type := by
  induction h with
  | leaf narrowed =>
    intro type hcarries
    cases hcarries with
    | leaf stored => exact .leaf (by rwa [leafColumn_of_narrowLeaf narrowed])
  | branches listed =>
    intro type hcarries
    cases hcarries with
    | union named carried selector =>
      exact .union (fun member hmember => named member (List.mem_of_mem_filter hmember))
        (fun member hmember => carried member (List.mem_of_mem_filter hmember)) selector
  | member found below ih =>
    intro type hcarries
    cases hcarries with
    | struct named carried =>
      exact .struct (forall_mem_replaceMember found named id)
        (forall_mem_replaceMember found carried fun hpart f hf hname => ih (hpart f hf hname))
    | union named carried selector =>
      exact .union (forall_mem_replaceMember found named id)
        (forall_mem_replaceMember found carried fun hpart f hf hname => ih (hpart f hf hname))
        selector
  | optional inside ih =>
    intro type hcarries
    cases hcarries with
    | optional carried => exact .optional (ih carried)

/-- The dates of a narrowed type can be read if those of the type can. -/
theorem Narrowed.datesReadable (h : Narrowed b full t labels t') :
    ∀ {type : ColumnType} {cell : Cell},
      DatesReadable t type cell → DatesReadable t' type cell := by
  induction h with
  | @leaf info content content' narrowed =>
    intro type cell _
    refine .leaf ?_
    rintro format lo hi days rfl -
    cases content <;> cases narrowed
  | branches listed =>
    intro type cell hdates
    cases hdates with
    | members readable =>
      exact .members fun member hmember => readable member (List.mem_of_mem_filter hmember)
  | member found below ih =>
    intro type cell hdates
    cases hdates with
    | members readable =>
      exact .members (forall_mem_replaceMember found readable
        fun hpart part under hunder => ih (hpart part under hunder))
  | optional inside ih =>
    intro type cell hdates
    cases hdates with
    | optional readable => exact .optional (ih readable)

/-! ### Values at an address -/

/-- The value at an address, with its type and the type of its column. A label leads to a field of
a struct, or to the branch of a union that is selected; the type inside an optional one takes no
label. -/
inductive ValueAt : Ty → List String → ColumnType → Cell → Ty → ColumnType → Cell → Prop
  /-- The address is that of a value that is not optional. -/
  | here {t : Ty} {type : ColumnType} {cell : Cell}
      (required : t.isOptional = false) : ValueAt t [] type cell t type cell
  /-- An optional value that is not null is one of the type inside. -/
  | optional {info : Info} {inner u : Ty} {labels : List String} {type part : ColumnType}
      {cell under : Cell} (present : cell.isNull = false)
      (inside : ValueAt inner labels type cell u part under) :
      ValueAt (.wrapped info .optional inner) labels type cell u part under
  /-- The value of a member, of a union only where the member is selected. -/
  | member {info : Info} {form : Form} {fields : List (String × Ty)} {head : String}
      {rest : List String} {t u : Ty} {type column part : ColumnType} {cell below under : Cell}
      (selected : form = .union → Selects type cell head) (found : lookup? head fields = some t)
      (stored : PartAt head type cell column below)
      (inside : ValueAt t rest column below u part under) :
      ValueAt (.members info form fields) (head :: rest) type cell u part under

/-- A value is allowed by limits: that of a leaf is null or within them, and of a union the name of
the selected branch is listed. -/
def Allowed (b : Bound) (type : ColumnType) (cell : Cell) : Ty → Prop
  | .leaf _ content => cell.isNull = true ∨ b.Admits cell content
  | .members _ .union _ => ∃ name, Selects type cell name ∧ b.Lists name
  | _ => False

/-- The value at an address, if there is one, is allowed by limits. -/
def AllowedAt (b : Bound) (t : Ty) (labels : List String) (type : ColumnType) (cell : Cell) :
    Prop :=
  ∀ u part under, ValueAt t labels type cell u part under → Allowed b part under u

/-- At the end of the labels. -/
lemma allowedAt_nil (required : t.isOptional = false) :
    AllowedAt b t [] type cell ↔ Allowed b type cell t := by
  constructor
  · exact fun h => h t type cell (.here required)
  · rintro h u part under hvalue
    cases hvalue with
    | here => exact h
    | optional => cases required

/-- Of an optional value that is null, no value is at any address. -/
lemma allowedAt_optional : AllowedAt b (.wrapped info .optional t) labels type cell ↔
    (cell.isNull = false → AllowedAt b t labels type cell) := by
  constructor
  · exact fun h present u part under hvalue => h u part under (.optional present hvalue)
  · rintro h u part under hvalue
    cases hvalue with
    | here required => cases required
    | optional present inside => exact h present u part under inside

/-- After a label. -/
lemma allowedAt_member (found : lookup? head fields = some part) {column : ColumnType}
    {below : Cell} (stored : PartAt head type cell column below) :
    AllowedAt b (.members info form fields) (head :: rest) type cell ↔
      ((form = .union → Selects type cell head) → AllowedAt b part rest column below) := by
  constructor
  · exact fun h selected u type' under hvalue =>
      h u type' under (.member selected found stored hvalue)
  · rintro h u type' under hvalue
    cases hvalue with
    | member selected hfound hstored inside =>
      cases found.symm.trans hfound
      obtain ⟨i, hplace, rfl⟩ := stored
      obtain ⟨rfl, rfl⟩ := (partAt_iff hplace).mp hstored
      exact h selected u type' under inside

/-! ### What a narrowed type lets pass -/

/-- No limit of a double is NaN. -/
inductive NumberLimits : Ty → Prop
  /-- The limits of a leaf. -/
  | leaf {info : Info} {content : Leaf}
      (numbers : ∀ lo hi base, content = .float lo hi base → isNaN lo = false ∧ isNaN hi = false) :
      NumberLimits (.leaf info content)
  /-- The limits in all members. -/
  | members {info : Info} {form : Form} {fields : List (String × Ty)}
      (below : ∀ member ∈ fields, NumberLimits member.2) : NumberLimits (.members info form fields)
  /-- The limits inside. -/
  | wrapped {info : Info} {wrapper : Wrapper} {inner : Ty} (inside : NumberLimits inner) :
      NumberLimits (.wrapped info wrapper inner)
  /-- The limits of every candidate. -/
  | hypothesis {info : Info} {types : List (Ty × Float)}
      (candidates : ∀ candidate ∈ types, NumberLimits candidate.1) :
      NumberLimits (.hypothesis info types)

section Passing

variable (hleast : ∀ v, b.least = some v → InRange v)
  (hgreatest : ∀ v, b.greatest = some v → InRange v)

include hleast hgreatest in
/-- What a narrowed leaf lets pass. -/
lemma passes_narrowLeaf_iff {content content' : Leaf}
    (hnumbers : ∀ lo hi base, content = .float lo hi base → isNaN lo = false ∧ isNaN hi = false)
    (h : b.narrowLeaf full content = .ok content') (hcarries : Carries (.leaf info content) type)
    (hfits : Cell.Fits type cell) :
    Passes (.leaf info content') type cell ↔
      Passes (.leaf info content) type cell ∧ AllowedAt b (.leaf info content) [] type cell := by
  rw [passes_leaf_iff, passes_leaf_iff, allowedAt_nil rfl, Allowed, ← or_and_left]
  cases hnull : cell.isNull with
  | true => simp
  | false =>
    cases hcarries with
    | leaf stored =>
      obtain rfl := stored.resolve_left (leafColumn_ne_null_of_narrowLeaf h)
      rw [Bound.leafAdmits_iff hleast hgreatest hnumbers h hfits hnull]

/-- What a union with the listed branches lets pass. -/
lemma passes_filter_iff {names : List String} (listed : b.names = some names) :
    Passes (.members info .union (fields.filter fun entry => names.contains entry.1)) type cell ↔
      Passes (.members info .union fields) type cell ∧
        AllowedAt b (.members info .union fields) [] type cell := by
  rw [passes_union_iff, passes_union_iff, allowedAt_nil rfl, Allowed]
  constructor
  · rintro ⟨name, t, column, under, selected, found, stored, passes⟩
    rw [lookup?_filter] at found
    split at found
    · rename_i hmem
      refine ⟨⟨name, t, column, under, selected, found, stored, passes⟩, name, selected, ?_⟩
      rintro names' hnames'
      cases listed.symm.trans hnames'
      exact hmem
    · cases found
  · rintro ⟨⟨name, t, column, under, selected, found, stored, passes⟩, name', selected', hlisted⟩
    cases selected.eq selected'
    refine ⟨name, t, column, under, selected, ?_, stored, passes⟩
    rw [lookup?_filter, if_pos (hlisted names listed), found]

/-- What a struct with a narrowed field lets pass. -/
lemma passes_replaceField_iff (hnodup : (fields.map Prod.fst).Nodup)
    (found : lookup? head fields = some part) {column : ColumnType} {below : Cell}
    (stored : PartAt head type cell column below)
    (h : Passes part' column below ↔
      Passes part column below ∧ AllowedAt b part rest column below) :
    Passes (.members info .struct (replaceMember head part' fields)) type cell ↔
      Passes (.members info .struct fields) type cell ∧
        AllowedAt b (.members info .struct fields) (head :: rest) type cell := by
  obtain ⟨i, hplace, rfl⟩ := stored
  rw [passes_struct_iff, passes_struct_iff, allowedAt_member found ⟨i, hplace, rfl⟩]
  have hmem := mem_of_lookup? found
  constructor
  · intro hall
    have hpart := h.mp (hall (head, part')
      (mem_replaceMember.mpr (.inl ⟨rfl, List.mem_map_of_mem hmem⟩)) column _ ⟨i, hplace, rfl⟩)
    refine ⟨fun member hmember column' under hunder => ?_, fun _ => hpart.2⟩
    -- names are different, so a member of this name is the one that was replaced
    by_cases hhead : member.1 = head
    · obtain ⟨name, t⟩ := member
      subst hhead
      obtain rfl : part = t := Option.some.inj (found.symm.trans (lookup?_of_mem hnodup hmember))
      obtain ⟨rfl, rfl⟩ := (partAt_iff hplace).mp hunder
      exact hpart.1
    · exact hall member (mem_replaceMember.mpr (.inr ⟨hhead, hmember⟩)) column' under hunder
  · rintro ⟨hall, hallowed⟩ member hmember column' under hunder
    rcases mem_replaceMember.mp hmember with ⟨rfl, -⟩ | ⟨-, hmember⟩
    · have hpart := hall (head, part) hmem column _ ⟨i, hplace, rfl⟩
      obtain ⟨rfl, rfl⟩ := (partAt_iff hplace).mp hunder
      exact h.mpr ⟨hpart, hallowed nofun⟩
    · exact hall member hmember column' under hunder

/-- What a union with a narrowed branch lets pass. -/
lemma passes_replaceBranch_iff (found : lookup? head fields = some part) {column : ColumnType}
    {below : Cell} (stored : PartAt head type cell column below)
    (h : Passes part' column below ↔
      Passes part column below ∧ AllowedAt b part rest column below) :
    Passes (.members info .union (replaceMember head part' fields)) type cell ↔
      Passes (.members info .union fields) type cell ∧
        AllowedAt b (.members info .union fields) (head :: rest) type cell := by
  obtain ⟨i, hplace, rfl⟩ := stored
  rw [passes_union_iff, passes_union_iff, allowedAt_member found ⟨i, hplace, rfl⟩]
  constructor
  · rintro ⟨name, t, column', under, selected, hfound, hstored, passes⟩
    rw [lookup?_replaceMember, found] at hfound
    split at hfound
    · rename_i hname
      cases hfound
      subst hname
      obtain ⟨rfl, rfl⟩ := (partAt_iff hplace).mp hstored
      obtain ⟨hpasses, hallowed⟩ := h.mp passes
      exact ⟨⟨name, part, _, _, selected, found, hstored, hpasses⟩, fun _ => hallowed⟩
    · rename_i hname
      exact ⟨⟨name, t, column', under, selected, hfound, hstored, passes⟩,
        fun hselected => absurd (selected.eq (hselected rfl)) hname⟩
  · rintro ⟨⟨name, t, column', under, selected, hfound, hstored, passes⟩, hallowed⟩
    by_cases hname : name = head
    · subst hname
      cases found.symm.trans hfound
      obtain ⟨rfl, rfl⟩ := (partAt_iff hplace).mp hstored
      refine ⟨name, part', _, _, selected, ?_, hstored, h.mpr ⟨passes, hallowed fun _ => selected⟩⟩
      rw [lookup?_replaceMember, if_pos rfl, found, Option.map_some]
    · refine ⟨name, t, column', under, selected, ?_, hstored, passes⟩
      rw [lookup?_replaceMember, if_neg hname, hfound]

include hleast hgreatest in
/-- **A narrowed type lets pass** what the type does and is allowed at the address.

**Proof sketch.** By induction on the way to the address. A leaf admits what lies between both
pairs of limits (`passes_narrowLeaf_iff`). A struct passes if all its members do, of which one
is narrowed, and a union if the selected one does, where the limits say nothing of the others
(`passes_replaceField_iff`, `passes_replaceBranch_iff`). -/
theorem Narrowed.passes_iff (h : Narrowed b full t labels t') (hnames : t.DistinctNames)
    (hnumbers : t.NumberLimits) : ∀ {type : ColumnType} {cell : Cell}, Carries t type →
      Cell.Fits type cell →
        (Passes t' type cell ↔ Passes t type cell ∧ AllowedAt b t labels type cell) := by
  -- on the way to the address: parts are stored in other columns, so the column is generalized
  induction h with
  | leaf narrowed =>
    intro type cell hcarries hfits
    cases hnumbers with
    | leaf numbers =>
      exact passes_narrowLeaf_iff hleast hgreatest numbers narrowed hcarries hfits
  | branches listed => exact fun _ _ => passes_filter_iff listed
  | @member info form fields head rest part part' found below ih =>
    intro type cell hcarries hfits
    obtain ⟨hnodup, hdistinct⟩ := hnames.of_members
    have hmem := mem_of_lookup? found
    obtain ⟨i, column, hplace, hcarried⟩ := hcarries.member hmem
    have hstored : PartAt head type cell column (cell.part i) := ⟨i, hplace, rfl⟩
    cases hnumbers with
    | members numbers =>
      have hpart := ih (hdistinct _ hmem) (numbers _ hmem) hcarried (fits_of_partAt hfits hstored)
      cases form with
      | struct => exact passes_replaceField_iff hnodup found hstored hpart
      | union => exact passes_replaceBranch_iff found hstored hpart
  | optional inside ih =>
    intro type cell hcarries hfits
    cases hcarries with
    | optional carried =>
      cases hnumbers with
      | wrapped numbers =>
        rw [passes_optional_iff, passes_optional_iff, allowedAt_optional,
          ih hnames.of_wrapped numbers carried hfits]
        cases cell.isNull <;> simp

end Passing

/-! ### The rows of a filter -/

/-- **A filter means what its limits say.** Of a column that carries the values of a type, the rows
have marks exactly if the dates in it can be read. Then they have marks for the narrowed type as
well, and this marks the rows that the type marks and whose value at the address is allowed: a
number between the limits as a real number, a listed name, a listed branch. A null is allowed, and
so is a row without a value at the address.

**Proof sketch.** Both types mark a row by its own cell (`Carries.exists_marks`), and mark
what they let pass (`Marks.iff_passes`). Narrowing keeps the columns and the dates, so that
the marks of both exist where those of one do. -/
theorem selectRows_narrow {cells : List Cell} (hnames : t.DistinctNames) (hnumbers : t.NumberLimits)
    (hleast : ∀ v, b.least = some v → InRange v)
    (hgreatest : ∀ v, b.greatest = some v → InRange v)
    (h : narrow b full t labels = .ok t') (hcarries : Carries t type)
    (hfits : ∀ cell ∈ cells, Cell.Fits type cell) :
    ((∃ mask, selectRows ⟨type, cells⟩ t = .ok mask) ↔
      ∀ cell ∈ cells, DatesReadable t type cell) ∧
    ∀ mask, selectRows ⟨type, cells⟩ t = .ok mask →
      ∃ left, selectRows ⟨type, cells⟩ t' = .ok left ∧
        mask.length = cells.length ∧ left.length = cells.length ∧
        ∀ (i : ℕ) cell, cells[i]? = some cell →
          (left[i]? = some true ↔ mask[i]? = some true ∧ AllowedAt b t labels type cell) := by
  refine ⟨exists_selectRows_iff hcarries hfits, fun mask hmask => ?_⟩
  have hnarrowed := narrowed_of_narrow hnames h
  have hcarries' := hnarrowed.carries hcarries
  have hdates := datesReadable_of_selectRows hcarries hmask
  have hlegible : ∀ cell ∈ cells, Legible t type cell :=
    fun cell hcell => ⟨hfits cell hcell, hdates cell hcell⟩
  have hlegible' : ∀ cell ∈ cells, Legible t' type cell :=
    fun cell hcell => ⟨hfits cell hcell, hnarrowed.datesReadable (hdates cell hcell)⟩
  obtain ⟨mark, hmark⟩ := hcarries.exists_marks
  obtain ⟨mark', hmark'⟩ := hcarries'.exists_marks
  -- a row is marked by what its own cell is, for both types
  cases (hmark.selects hlegible).symm.trans hmask
  refine ⟨cells.map mark', hmark'.selects hlegible', by simp, by simp, fun i cell hcell => ?_⟩
  have hmem := List.mem_of_getElem? hcell
  rw [List.getElem?_map, List.getElem?_map, hcell, Option.map_some, Option.map_some,
    Option.some_inj, Option.some_inj, hmark'.iff_passes hcarries' (hlegible' cell hmem),
    hmark.iff_passes hcarries (hlegible cell hmem)]
  exact hnarrowed.passes_iff hleast hgreatest hnames hnumbers hcarries (hfits cell hmem)

/-- Deliveries, whose fee is an amount between two limits, waived for a reason, or unknown. -/
def delivery (lo hi : ℤ) : Ty :=
  .struct [("fee", .optional (.union [("amount", .integer lo hi), ("waived", .text)]))]

/-- The column of deliveries. -/
def deliveryColumn : ColumnType :=
  .struct [⟨"fee",
    .struct [⟨"amount", .int64, true⟩, ⟨"waived", .utf8, true⟩, selectorField], true⟩]

/-- Two amounts, a reason, and an unknown fee, under which another amount is stored. -/
def deliveries : List Cell :=
  [.struct true [.struct true [.int 5, .null, .text "amount"]],
    .struct true [.struct true [.int 2, .null, .text "amount"]],
    .struct true [.struct true [.int 2, .text "member", .text "waived"]],
    .struct true [.struct false [.int 2, .null, .text "amount"]]]

/-- Deliveries have different names. -/
lemma distinctNames_delivery {lo hi : ℤ} : (delivery lo hi).DistinctNames := by
  refine .members (by simp) (List.forall_mem_singleton.mpr (.wrapped (.members (by simp) ?_)))
  exact List.forall_mem_cons.mpr ⟨.leaf, List.forall_mem_singleton.mpr .leaf⟩

/-- Deliveries have no limits of doubles. -/
lemma numberLimits_delivery {lo hi : ℤ} : (delivery lo hi).NumberLimits := by
  refine .members (List.forall_mem_singleton.mpr (.wrapped (.members ?_)))
  exact List.forall_mem_cons.mpr ⟨.leaf nofun, List.forall_mem_singleton.mpr (.leaf nofun)⟩

/-- The column of deliveries carries them. -/
lemma carries_delivery {lo hi : ℤ} : Carries (delivery lo hi) deliveryColumn := by
  refine .struct (by simp) (List.forall_mem_singleton.mpr (List.forall_mem_singleton.mpr fun _ =>
    .optional (.union (by simp) ?_ ⟨2, rfl⟩)))
  simp only [List.mem_cons, List.not_mem_nil, or_false]
  rintro _ (rfl | rfl) _ (rfl | rfl | rfl) hname
  case inl.inl | inr.inr.inl => exact .leaf (.inr rfl)
  all_goals simp [selectorField, fieldSelected] at hname

/-- Deliveries fit their column. -/
lemma fits_deliveries : ∀ cell ∈ deliveries, Cell.Fits deliveryColumn cell := by
  simp [deliveries, deliveryColumn, selectorField, Cell.Fits, Cell.FitsParts, Cell.FitsScalar,
    Cell.isNull, ColumnType.int64, ColumnType.utf8, IntWidth.lo, IntWidth.hi, Number.least64,
    Number.greatest64]

/-- Of the deliveries, those are kept whose fee is between two and a half and seven and a half,
waived or unknown. -/
theorem selectRows_narrow_deliveries :
    let b : Bound := ⟨some 2.5, some 7.5, none⟩
    narrow b "fee.amount" (delivery 0 10) ["fee", "amount"] = .ok (delivery 3 7) ∧
      selectRows ⟨deliveryColumn, deliveries⟩ (delivery 0 10) = .ok [true, true, true, true] ∧
      selectRows ⟨deliveryColumn, deliveries⟩ (delivery 3 7) = .ok [true, false, true, true] ∧
      ∀ (i : ℕ) cell, deliveries[i]? = some cell → ([true, false, true, true][i]? = some true ↔
        [true, true, true, true][i]? = some true ∧
          AllowedAt b (delivery 0 10) ["fee", "amount"] deliveryColumn cell) := by
  intro b
  have hnarrow : narrow b "fee.amount" (delivery 0 10) ["fee", "amount"] = .ok (delivery 3 7) := by
    have hlow : max (Bound.wholeLeast 2.5) 0 = 3 := by decide +kernel
    have hhigh : min (Bound.wholeGreatest 7.5) 10 = 7 := by decide +kernel
    change Except.ok
      (delivery (max (Bound.wholeLeast 2.5) 0) (min (Bound.wholeGreatest 7.5) 10)) = _
    rw [hlow, hhigh]
  have hmask : selectRows ⟨deliveryColumn, deliveries⟩ (delivery 0 10) =
      .ok [true, true, true, true] := rfl
  have hleft : selectRows ⟨deliveryColumn, deliveries⟩ (delivery 3 7) =
      .ok [true, false, true, true] := rfl
  have hleast : ∀ v, b.least = some v → InRange v := by
    rintro _ ⟨⟩
    have hdecode : decode 2.5 = .finite ⟨false, 5629499534213120, -51⟩ := by decide +kernel
    refine Bound.inRange_of_value hdecode ?_ ?_ <;>
      norm_num [Binary64.Scaled.value, Binary64.Scaled.size]
  have hgreatest : ∀ v, b.greatest = some v → InRange v := by
    rintro _ ⟨⟩
    have hdecode : decode 7.5 = .finite ⟨false, 8444249301319680, -50⟩ := by decide +kernel
    refine Bound.inRange_of_value hdecode ?_ ?_ <;>
      norm_num [Binary64.Scaled.value, Binary64.Scaled.size]
  obtain ⟨left, hmarks, -, -, hrows⟩ := (selectRows_narrow distinctNames_delivery
    numberLimits_delivery hleast hgreatest hnarrow carries_delivery fits_deliveries).2 _ hmask
  cases hleft.symm.trans hmarks
  exact ⟨hnarrow, hmask, hleft, hrows⟩

end Lineage.Ty
