import Lineage.Proofs.Schema.ItemKeys

set_option autoImplicit false

/-!
# Primary keys along derivations

The primary keys of a schema are kept as text among its properties. Each time data is derived the
text is read, the keys that lead nowhere in the new type are dropped, and the rest is written again.
So along a chain of derivations those keys are left that lead somewhere in every type of the chain,
and no derivation fails, since what has been read can be written and read again. All this holds
unless the keys nest deeper than values can be read; the other properties are not touched.

## Main definitions

* `Lineage.Schema.deriveAll`: the schema at the end of a chain of derivations.
* `Lineage.Schema.otherProperties`: the properties besides the primary keys.

## Main results

* `Lineage.Schema.primaryKeys_withPrimaryKeys_iff`: which keys can be read after they have been set.
* `Lineage.Schema.exists_deriveAll`: the keys along a chain of derivations.
* `Lineage.Schema.deriveAll_withPrimaryKeys`: the keys that are left of those that have been set.
-/

namespace Lineage.Schema

variable {s s' : Schema} {name : String} {ty : Ty} {keys : List Path}

/-- The schema at the end of a chain of derivations, each of which has a name and a type. -/
def deriveAll (s : Schema) (targets : List (String × Ty)) : Outcome Schema :=
  targets.foldlM (fun s target => s.derive target.1 target.2) s

/-- The properties besides the primary keys. -/
def otherProperties (s : Schema) : Dict String :=
  s.properties.filter fun entry => entry.1 != primaryKeysProperty

/-! ### Keys that are set -/

/-- **Which keys can be read after they have been set**: those that do not nest too deep. -/
theorem primaryKeys_withPrimaryKeys_iff (s : Schema) (keys : List Path) :
    (s.withPrimaryKeys keys).primaryKeys = .ok keys ↔
      Json.nesting (.array (Path.toJsonList keys)) < Json.depthLimit := by
  refine ⟨fun h => ?_, fun h => primaryKeys_withPrimaryKeys s h⟩
  rw [primaryKeys, withPrimaryKeys, withProperty, Dict.find?_insert_self] at h
  exact nesting_of_keysOfText? (Outcome.ofOption_eq_ok.mp h)

/-- Setting the primary keys does not touch the other properties. -/
lemma otherProperties_withPrimaryKeys (s : Schema) (keys : List Path) :
    (s.withPrimaryKeys keys).otherProperties = s.otherProperties :=
  Dict.filter_insert _ _ _

/-! ### Derivations -/

/-- Deriving data does not touch the other properties. -/
lemma otherProperties_derive (h : s.derive name ty = .ok s') :
    s'.otherProperties = s.otherProperties := by
  obtain ⟨keys, -, rfl⟩ := derive_eq_ok.mp h
  rw [otherProperties]
  dsimp only
  split
  · exact Dict.filter_insert _ _ _
  · rfl

/-- **The keys along a chain of derivations**: none fails if the keys can be read at the start, and
those are left that lead somewhere in every type.

**Proof sketch.** By induction on the chain. One derivation keeps the keys that lead somewhere
in its type (`exists_derive`), and filters one after the other are one filter. -/
theorem exists_deriveAll (hkeys : s.primaryKeys = .ok keys) (targets : List (String × Ty)) :
    ∃ s', s.deriveAll targets = .ok s' ∧
      s'.primaryKeys =
        .ok (keys.filter fun key => targets.all fun target => target.2.hasPath key) ∧
      s'.otherProperties = s.otherProperties := by
  induction targets generalizing s keys with
  | nil => exact ⟨s, rfl, by simpa using hkeys, rfl⟩
  | cons target targets ih =>
    obtain ⟨next, hnext, -, hnextKeys⟩ := exists_derive hkeys target.1 target.2
    obtain ⟨s', hs', hleft, hothers⟩ := ih hnextKeys
    refine ⟨s', ?_, ?_, hothers.trans (otherProperties_derive hnext)⟩
    · rw [deriveAll, List.foldlM_cons, hnext]
      exact hs'
    · rw [hleft, List.filter_filter]
      simp only [List.all_cons, Bool.and_comm]

/-- **The keys that are left** of those that have been set: after any chain of derivations, in which
none fails, those keys that lead somewhere in every type of the chain, in their order. All other
properties are as before.

**Proof sketch.** The keys that have been set can be read (`primaryKeys_withPrimaryKeys_iff`),
and so along the chain (`exists_deriveAll`). -/
theorem deriveAll_withPrimaryKeys (s : Schema) (keys : List Path)
    (hnesting : Json.nesting (.array (Path.toJsonList keys)) < Json.depthLimit)
    (targets : List (String × Ty)) :
    ∃ s', (s.withPrimaryKeys keys).deriveAll targets = .ok s' ∧
      s'.primaryKeys =
        .ok (keys.filter fun key => targets.all fun target => target.2.hasPath key) ∧
      s'.otherProperties = s.otherProperties := by
  have hkeys := (primaryKeys_withPrimaryKeys_iff s keys).mpr hnesting
  obtain ⟨s', hs', hleft, hothers⟩ := exists_deriveAll hkeys targets
  exact ⟨s', hs', hleft, hothers.trans (otherProperties_withPrimaryKeys s keys)⟩

/-- Keys of parcels: under a plain label, under one with quotes, inside a list, and one that
branches. -/
def parcelKeys : List Path :=
  [Path.ofLabels ["id"], Path.ofLabels ["size \"A\\4\"\n"], Path.ofLabels ["stops", "item", "city"],
    .node "" [.node "id" [], .node "stops" []]]

/-- Parcels with their number, and without. -/
def parcelTypes : List (String × Ty) :=
  [("numbered", .struct [("id", .text), ("size \"A\\4\"\n", .text),
      ("stops", .list (.struct [("city", .text)]) 9)]),
    ("unnumbered", .struct [("stops", .list (.struct [("city", .text)]) 9),
      ("size \"A\\4\"\n", .text)])]

/-- Parcels without their number keep the keys under the label with quotes and inside the list, and
their owner. -/
theorem deriveAll_withPrimaryKeys_parcels :
    Json.nesting (.array (Path.toJsonList parcelKeys)) < Json.depthLimit ∧
    ∃ s', (((ofTy "parcels" .text).withProperty "owner" "Ada").withPrimaryKeys parcelKeys).deriveAll
        parcelTypes = .ok s' ∧
      s'.primaryKeys =
        .ok [Path.ofLabels ["size \"A\\4\"\n"], Path.ofLabels ["stops", "item", "city"]] ∧
      s'.otherProperties = [("owner", "Ada")] := by
  have hnesting : Json.nesting (.array (Path.toJsonList parcelKeys)) < Json.depthLimit := by decide
  have hkept : parcelKeys.filter (fun key => parcelTypes.all fun target => target.2.hasPath key) =
      [Path.ofLabels ["size \"A\\4\"\n"], Path.ofLabels ["stops", "item", "city"]] := by cbv
  obtain ⟨s', hs', hleft, hothers⟩ := deriveAll_withPrimaryKeys
    ((ofTy "parcels" .text).withProperty "owner" "Ada") parcelKeys hnesting parcelTypes
  exact ⟨hnesting, s', hs', hkept ▸ hleft, hothers.trans (by decide)⟩

end Lineage.Schema
