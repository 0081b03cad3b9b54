import Lineage.Proofs.Schema.Consistency
import Lineage.Proofs.Ty.Item

set_option autoImplicit false

/-!
# Primary keys of items

The primary keys of a schema are paths from the root of its type. Data that is taken out of it has a
type with another root, and keeps those of the keys that lead somewhere from there. So whether a
part of an item is a key depends on what stands in the place of the same steps in the whole rows,
and not on the part itself.

## Main definitions

* `Lineage.Schema.HasKey`: some steps lead to a primary key.

## Main results

* `Lineage.Schema.propagate_getItem_eq_ok`: when an item has a schema, and which.
* `Lineage.Schema.primaryKeys_getItem`: the primary keys of an item, and when all of them were keys
  of the whole rows.
* `Lineage.Schema.not_key_userId`: a key of an item that was none.
-/

namespace Lineage.Schema

variable {s s' : Schema} {name : String} {p : Path} {labels : List String} {part : Ty}

/-- Some steps lead to a primary key. -/
def HasKey (s : Schema) (steps : List String) : Prop :=
  ∃ keys, s.primaryKeys = .ok keys ∧ ∃ key ∈ keys, key.steps? = some steps

/-! ### Derived data -/

/-- Without a wrapper, the payload is the whole type. -/
lemma payload_of_not_hasWrapper (h : s.hasWrapper = false) : s.payload = s.ty := by
  simp [payload, h]

/-- Derived data keeps the primary keys that lead somewhere in its type, if they can be read. -/
lemma exists_derive {keys : List Path} (hkeys : s.primaryKeys = .ok keys) (name : String)
    (ty : Ty) :
    ∃ s', s.derive name ty = .ok s' ∧ s'.ty = ty ∧
      s'.primaryKeys = .ok (keys.filter ty.hasPath) := by
  obtain ⟨kept, hkept, hkeptKeys⟩ := primaryKeys_retainPrimaryKeys
    (s := ⟨name, ty, s.protectedPaths, s.properties⟩) hkeys ty
  refine ⟨⟨name, ty, kept.protectedPaths.filter ty.hasPath, kept.properties⟩, ?_, rfl, hkeptKeys⟩
  rw [derive, hkept]
  rfl

/-- Data can only be derived if the primary keys can be read. -/
lemma exists_primaryKeys_of_derive {ty : Ty} (h : s.derive name ty = .ok s') :
    ∃ keys, s.primaryKeys = .ok keys :=
  (derive_eq_ok.mp h).imp fun _ hkeys => hkeys.1

/-- The item under a path that does not branch is the part that its labels lead to. -/
lemma item_eq_ok (hlabels : p.steps? = some labels) :
    s.item p = .ok part ↔ Ty.along? labels s.payload = some part := by
  unfold item
  simp only [Outcome.bind_eq_ok, Ty.subTypes_eq_ok hlabels]
  constructor
  · rintro ⟨_, ⟨part', hpart', rfl⟩, heq⟩
    rwa [← Except.ok.inj heq]
  · exact fun h => ⟨_, ⟨part, h, rfl⟩, rfl⟩

/-- An item has the schema that is derived for it in the place of the payload. -/
lemma propagate_getItem_iff_derive {heading : Heading} :
    s.propagate name (.step heading (.getItem p)) = .ok (.ready s') ↔
      ∃ part, s.item p = .ok part ∧ s.derive name (s.rewrap part) = .ok s' := by
  rw [propagate, Outcome.bind_eq_ok]
  refine exists_congr fun part => and_congr_right fun _ => ?_
  simp [Outcome.bind_eq_ok]

/-- An item of a schema without wrapper has the schema that is derived for the part its labels lead
to. -/
lemma propagate_getItem_eq_ready {heading : Heading} (hwrapper : s.hasWrapper = false)
    (hlabels : p.steps? = some labels) :
    s.propagate name (.step heading (.getItem p)) = .ok (.ready s') ↔
      ∃ part, Ty.along? labels s.ty = some part ∧ s.derive name part = .ok s' := by
  have hrewrap : ∀ part, s.rewrap part = part := fun part => by simp [rewrap, hwrapper]
  simp only [propagate_getItem_iff_derive, item_eq_ok hlabels,
    payload_of_not_hasWrapper hwrapper, hrewrap]

/-- **When an item of a schema without wrapper has a schema**: the keys of the whole rows can be
read, and the path leads to a part, which is its type. -/
theorem propagate_getItem_eq_ok {heading : Heading} (hwrapper : s.hasWrapper = false)
    (hlabels : p.steps? = some labels) :
    (∃ s', s.propagate name (.step heading (.getItem p)) = .ok (.ready s') ∧ s'.ty = part) ↔
      (∃ keys, s.primaryKeys = .ok keys) ∧ Ty.along? labels s.ty = some part := by
  simp only [propagate_getItem_eq_ready hwrapper hlabels]
  constructor
  · rintro ⟨s', ⟨part', hpart, hderived⟩, rfl⟩
    rw [(of_derive hderived).1]
    exact ⟨exists_primaryKeys_of_derive hderived, hpart⟩
  · rintro ⟨⟨keys, hkeys⟩, hpart⟩
    obtain ⟨derived, hderived, hty, -⟩ := exists_derive hkeys name part
    exact ⟨derived, ⟨part, hpart, hderived⟩, hty⟩

/-! ### Keys of items -/

/-- The steps to the primary keys, if these can be read. -/
lemma hasKey_iff {keys : List Path} (h : s.primaryKeys = .ok keys) {steps : List String} :
    s.HasKey steps ↔ ∃ key ∈ keys, key.steps? = some steps := by
  simp only [HasKey, h, Except.ok.injEq, exists_eq_left']

/-- Of the steps to the keys in a list, those to the keys that are kept also lead somewhere in the
type. -/
lemma exists_filter_hasPath_iff {keys : List Path} {ty : Ty} {steps : List String} :
    (∃ key ∈ keys.filter ty.hasPath, key.steps? = some steps) ↔
      (∃ key ∈ keys, key.steps? = some steps) ∧ (Ty.along? steps ty).isSome := by
  constructor
  · rintro ⟨key, hkey, hsteps⟩
    obtain ⟨hkey, hpath⟩ := List.mem_filter.mp hkey
    obtain ⟨steps', hsteps', halong⟩ := Ty.hasPath_iff.mp hpath
    cases hsteps.symm.trans hsteps'
    exact ⟨⟨key, hkey, hsteps⟩, halong⟩
  · rintro ⟨⟨key, hkey, hsteps⟩, halong⟩
    exact ⟨key, List.mem_filter.mpr ⟨hkey, Ty.hasPath_iff.mpr ⟨steps, hsteps, halong⟩⟩, hsteps⟩

/-- **The primary keys of an item** are those of the whole rows whose steps also lead somewhere in
the item. Such steps lead to the column behind the path of the item and the same steps, whether that
was a key or not. So no key is invented exactly if, whenever the steps to a key lead somewhere in
the item as well, the column they lead to there is a key too.

**Proof sketch.** The keys of the item are those of the whole rows that lead somewhere in it
(`exists_derive`). From the root of the whole rows the same steps lead there behind the path
of the item (`Ty.along?_append`). -/
theorem primaryKeys_getItem {heading : Heading} (hwrapper : s.hasWrapper = false)
    (hlabels : p.steps? = some labels)
    (h : s.propagate name (.step heading (.getItem p)) = .ok (.ready s')) :
    s.ty.get p = .ok s'.ty ∧
      (∃ keys, s.primaryKeys = .ok keys ∧ s'.primaryKeys = .ok (keys.filter s'.ty.hasPath)) ∧
      (∀ steps, s'.HasKey steps → ∃ column, s'.ty.get (Path.ofLabels steps) = .ok column ∧
        s.ty.get (Path.ofLabels (labels ++ steps)) = .ok column) ∧
      ((∀ steps, s'.HasKey steps → s.HasKey (labels ++ steps)) ↔
        ∀ steps, s.HasKey steps → s'.ty.hasPath (Path.ofLabels steps) = true →
          s.HasKey (labels ++ steps)) := by
  obtain ⟨part, hpart, hderive⟩ := (propagate_getItem_eq_ready hwrapper hlabels).mp h
  obtain ⟨keys, hkeys⟩ := exists_primaryKeys_of_derive hderive
  obtain ⟨derived, hderived, rfl, hkept⟩ := exists_derive hkeys name part
  cases hderive.symm.trans hderived
  have hiff : ∀ steps, s'.HasKey steps ↔ s.HasKey steps ∧ (Ty.along? steps s'.ty).isSome := by
    intro steps
    rw [hasKey_iff hkept, hasKey_iff hkeys, exists_filter_hasPath_iff]
  refine ⟨Ty.get_eq_ok.mpr ⟨labels, hlabels, hpart⟩, ⟨keys, hkeys, hkept⟩, ?_, ?_⟩
  · intro steps hkey
    obtain ⟨column, hcolumn⟩ := Option.isSome_iff_exists.mp ((hiff steps).mp hkey).2
    refine ⟨column, Ty.get_ofLabels_eq_ok.mpr hcolumn, Ty.get_ofLabels_eq_ok.mpr ?_⟩
    rw [Ty.along?_append, hpart]
    exact hcolumn
  · simp only [hiff, and_imp, Ty.hasPath_ofLabels]

/-- The rows of a table of posts, each with its user and the number of both. -/
def posts : Ty :=
  .struct [("id", .ofLeaf (.id true .int64 none)),
    ("user", .struct [("id", .ofLeaf (.id false .int64 none)), ("name", .ofLeaf (.text "UTF-8"))])]

/-- The table of posts with some primary keys. -/
def keyedPosts (keys : List Path) : Schema := (ofTy "posts" posts).withPrimaryKeys keys

/-- The table of posts has the keys that it is given, and they name no payload. -/
lemma keyedPosts_spec (keys : List Path)
    (h : Json.nestingOfItems (Path.toJsonList keys) + 1 < Json.depthLimit) :
    (keyedPosts keys).hasWrapper = false ∧ (keyedPosts keys).primaryKeys = .ok keys :=
  ⟨rfl, primaryKeys_withPrimaryKeys _ h⟩

/-- The users of posts have a schema, and keep the keys that lead somewhere in it. -/
lemma exists_users {keys : List Path} (hkeys : (keyedPosts keys).primaryKeys = .ok keys) :
    ∃ users, (keyedPosts keys).propagate "users" (.ofStep (.getItem (Path.ofLabels ["user"]))) =
        .ok (.ready users) ∧
      users.ty = .struct [("id", .ofLeaf (.id false .int64 none)),
        ("name", .ofLeaf (.text "UTF-8"))] ∧
      users.primaryKeys = .ok (keys.filter users.ty.hasPath) := by
  obtain ⟨users, husers, hty, hkept⟩ := exists_derive hkeys "users"
    (.struct [("id", .ofLeaf (.id false .int64 none)), ("name", .ofLeaf (.text "UTF-8"))])
  exact ⟨users, (propagate_getItem_eq_ready rfl (Path.steps?_ofLabels _)).mpr ⟨_, rfl, husers⟩,
    hty, hty ▸ hkept⟩

/-- Of posts with their own number and that of their user as keys, the users keep the number as a
key. Both steps `id` and `user`, `id` lead to keys of the posts, so this one was a key before. -/
theorem primaryKeys_getItem_posts :
    ∃ users, (keyedPosts [Path.ofLabels ["id"], Path.ofLabels ["user", "id"]]).propagate "users"
        (.ofStep (.getItem (Path.ofLabels ["user"]))) = .ok (.ready users) ∧
      users.primaryKeys = .ok [Path.ofLabels ["id"]] ∧
      ∀ steps, users.HasKey steps →
        (keyedPosts [Path.ofLabels ["id"], Path.ofLabels ["user", "id"]]).HasKey
          (["user"] ++ steps) := by
  obtain ⟨hwrapper, hkeys⟩ :=
    keyedPosts_spec [Path.ofLabels ["id"], Path.ofLabels ["user", "id"]] (by decide)
  obtain ⟨users, husers, hty, hkept⟩ := exists_users hkeys
  obtain ⟨-, -, -, hiff⟩ := primaryKeys_getItem hwrapper (Path.steps?_ofLabels _) husers
  simp only [List.filter, Ty.hasPath_ofLabels, hty] at hkept
  refine ⟨users, husers, hkept, hiff.mpr fun steps hkey hpath => ?_⟩
  rw [hasKey_iff hkeys] at hkey ⊢
  obtain ⟨key, hmem, hsteps⟩ := hkey
  simp only [List.mem_cons, List.not_mem_nil, or_false] at hmem
  rcases hmem with rfl | rfl
  · cases (Path.steps?_ofLabels _).symm.trans hsteps
    exact ⟨_, List.mem_cons_of_mem _ (List.mem_singleton_self _), Path.steps?_ofLabels _⟩
  · cases (Path.steps?_ofLabels _).symm.trans hsteps
    rw [Ty.hasPath_ofLabels, hty] at hpath
    cases hpath

/-- Of posts with only their own number as a key, the users have a key that the posts do not have:
the number of the user, which is in the place of the number of the post. -/
theorem not_key_userId :
    ∃ users, (keyedPosts [Path.ofLabels ["id"]]).hasWrapper = false ∧
      (Path.ofLabels ["user"]).steps? = some ["user"] ∧
      (keyedPosts [Path.ofLabels ["id"]]).propagate "users"
        (.ofStep (.getItem (Path.ofLabels ["user"]))) = .ok (.ready users) ∧
      users.HasKey ["id"] ∧
      ¬ (keyedPosts [Path.ofLabels ["id"]]).HasKey (["user"] ++ ["id"]) := by
  obtain ⟨hwrapper, hkeys⟩ := keyedPosts_spec [Path.ofLabels ["id"]] (by decide)
  obtain ⟨users, husers, hty, hkept⟩ := exists_users hkeys
  refine ⟨users, hwrapper, Path.steps?_ofLabels _, husers, ?_, ?_⟩
  · simp only [List.filter, Ty.hasPath_ofLabels, hty] at hkept
    exact (hasKey_iff hkept).mpr ⟨_, List.mem_singleton_self _, Path.steps?_ofLabels _⟩
  · rw [hasKey_iff hkeys]
    rintro ⟨key, hmem, hsteps⟩
    cases List.mem_singleton.mp hmem
    have heq : ["id"] = ["user"] ++ ["id"] :=
      Option.some.inj ((Path.steps?_ofLabels _).symm.trans hsteps)
    exact absurd heq (by decide)

end Lineage.Schema
