import Lineage.Proofs.Schema.Item
import Lineage.Proofs.Schema.ItemKeys
import Lineage.Proofs.Ty.Outermost

set_option autoImplicit false

/-!
# The tables of a schema

The tables of a schema are the outermost structs of its payload, each under a path of its own from
the root of the type. A payload in which no struct can be reached is a table as a whole.

## Main definitions

* `Lineage.Schema.IsTable`: some steps lead from the payload to an outermost struct.

## Main results

* `Lineage.Schema.tables_eq`: the tables are the places of the outermost structs of the payload.
* `Lineage.Schema.along?_payloadSteps`: the steps to the payload lead there.
* `Lineage.Schema.tables_outermost`: the tables are all outermost structs, in order, each once.
-/

namespace Lineage.Schema

variable {s : Schema} {steps : List String} {table : Ty}

/-! ### Places of tables -/

/-- **The tables are the places of the outermost structs** of the payload, or the payload itself if
there are none.

**Proof sketch.** The nodes that lead to the structs give a path each, with the steps to the
payload in front of the branches of all of them together. -/
theorem tables_eq (s : Schema) : s.tables =
    if s.payload.structPlaces = [] then [Path.ofLabels s.payloadSteps]
    else s.payload.structPlaces.map fun steps => Path.ofLabels (s.payloadSteps ++ steps) := by
  rw [tables, Ty.structs?, Ty.structPlaces]
  cases s.payload.structNodes? with
  | none => rfl
  | some nodes =>
    rw [if_neg (Path.branches_ne_nil _)]
    cases nodes with
    | nil => simp [Path.branches]
    | cons node nodes =>
      have hbranches : ((node :: nodes).map fun n => Path.node "" [n]).flatMap Path.branches =
          (Path.node "" (node :: nodes)).branches := by
        rw [Ty.branches_of_ne_nil (List.cons_ne_nil _ _), Path.branchesOf_eq_flatMap]
        simp only [List.flatMap_map, Ty.branches_singleton]
      exact congrArg (List.map fun steps => Path.ofLabels (s.payloadSteps ++ steps)) hbranches

/-- **The steps to the payload** lead there. -/
theorem along?_payloadSteps (s : Schema) : Ty.along? s.payloadSteps s.ty = some s.payload := by
  cases hwrapper : s.hasWrapper with
  | false =>
    rw [payloadSteps, hwrapper, payload_of_not_hasWrapper hwrapper]
    rfl
  | true =>
    obtain ⟨info, fields, hty, -⟩ := exists_members_of_hasWrapper hwrapper
    have hchild := payload_of_hasWrapper hwrapper
    rw [hty] at hchild
    have hstep : s.ty.step? dataLabel = some s.payload := by rw [hty]; exact hchild
    rw [payloadSteps, hwrapper, if_pos rfl, Ty.along?, hstep]
    rfl

/-- The payload of a schema with distinct names has distinct names. -/
lemma distinctNames_payload (hnames : s.ty.DistinctNames) : s.payload.DistinctNames := by
  cases hwrapper : s.hasWrapper with
  | false => rwa [payload_of_not_hasWrapper hwrapper]
  | true =>
    obtain ⟨info, fields, hty, -⟩ := exists_members_of_hasWrapper hwrapper
    have hchild := payload_of_hasWrapper hwrapper
    rw [hty] at hchild hnames
    exact hnames.of_members.2 _ (Ty.mem_of_lookup? hchild)

/-- The path to a part that is reached from the payload leads to it. -/
lemma get_of_reaches (hnames : s.ty.DistinctNames) (h : Ty.Reaches s.payload steps table) :
    s.ty.get (Path.ofLabels (s.payloadSteps ++ steps)) = .ok table := by
  rw [Ty.get_ofLabels_eq_ok, Ty.along?_append, along?_payloadSteps, Option.bind_some]
  exact Ty.along?_of_reaches (distinctNames_payload hnames) h

/-! ### The list of tables -/

/-- Some steps lead from the payload to a struct, through unions, optional types, lists and arrays
only: a struct that stands inside no other one. -/
def IsTable (s : Schema) (steps : List String) (table : Ty) : Prop :=
  Ty.Reaches s.payload steps table ∧ table.isStruct = true

/-- **The tables are all outermost structs, in order, each once.** Let the structs and unions of a
schema have distinct names. If a struct is reached from the payload, the tables are distinct paths
that do not branch. There is one for each struct that is reached and stands inside no other, which
leads to it from the root of the type, and they come in the order of these places, depth first.
Otherwise the path of the payload is the only table.

**Proof sketch.** By `tables_eq` the tables are the places of the outermost structs behind the
steps to the payload, and none of these places is missing or too many (`Ty.mem_structPlaces`).
Their order, and that none comes twice, is that of the places, since two paths with the same
steps in front are the same only if the places are. -/
theorem tables_outermost (s : Schema) (hnames : s.ty.DistinctNames) :
    ((∃ steps table, s.IsTable steps table) →
      ∃ places : List (List String),
        s.tables = places.map (fun steps => Path.ofLabels (s.payloadSteps ++ steps)) ∧
        s.tables.Nodup ∧
        (∀ path ∈ s.tables, path.isBranching = false) ∧
        (∀ steps, steps ∈ places ↔ ∃ table, s.IsTable steps table) ∧
        (∀ steps table, s.IsTable steps table →
          s.ty.get (Path.ofLabels (s.payloadSteps ++ steps)) = .ok table) ∧
        places.Pairwise (Ty.Before s.payload)) ∧
    ((¬ ∃ steps table, s.IsTable steps table) →
      s.tables = [Path.ofLabels s.payloadSteps] ∧
        s.ty.get (Path.ofLabels s.payloadSteps) = .ok s.payload) := by
  have hplaces : ∀ steps, steps ∈ s.payload.structPlaces ↔ ∃ table, s.IsTable steps table :=
    fun steps => Ty.mem_structPlaces
  constructor
  · rintro ⟨steps, table, htable⟩
    have hne : s.payload.structPlaces ≠ [] :=
      List.ne_nil_of_mem ((hplaces steps).mpr ⟨table, htable⟩)
    have htables := s.tables_eq
    rw [if_neg hne] at htables
    have hnodup := Ty.nodup_structPlaces (distinctNames_payload hnames)
    refine ⟨s.payload.structPlaces, htables, ?_, ?_, hplaces,
      fun steps table h => get_of_reaches hnames h.1, Ty.pairwise_structPlaces s.payload⟩
    · rw [htables]
      exact hnodup.map fun steps steps' h => List.append_cancel_left (Path.ofLabels_injective h)
    · rw [htables]
      exact List.forall_mem_map.mpr fun steps _ =>
        Path.isBranching_eq_false_iff.mpr ⟨_, Path.steps?_ofLabels _⟩
  · intro hnone
    have hnil : s.payload.structPlaces = [] :=
      List.eq_nil_iff_forall_not_mem.mpr fun steps hsteps =>
        hnone ⟨steps, (hplaces steps).mp hsteps⟩
    refine ⟨by rw [tables_eq, if_pos hnil], ?_⟩
    exact Ty.get_ofLabels_eq_ok.mpr s.along?_payloadSteps

/-- Letters: the sent ones in lists, the received ones, and some that only a note describes. -/
def letters : Ty :=
  .union [("sent", .list (.struct [("pages", .integer 1 9)]) 99), ("note", .text),
    ("received", .struct [("pages", .integer 1 9)])]

/-- Mail next to its weight: a sender, or letters that may be missing. -/
def mail : Schema :=
  wrapping "mail" (.union [("sender", .struct [("name", .text)]), ("letters", .optional letters)])
    [("weight", .integer 0 9)]

/-- The names of the parts of mail differ. -/
lemma distinctNames_mail : mail.ty.DistinctNames := by
  have hleaf : ∀ name : String, ∀ content : Leaf,
      (Ty.struct [(name, .ofLeaf content)]).DistinctNames := fun name content =>
    .members (List.nodup_singleton _) (List.forall_mem_singleton.mpr .leaf)
  have hletters : letters.DistinctNames := by
    refine .members (by decide) ?_
    simp only [List.forall_mem_cons]
    exact ⟨.wrapped (hleaf _ _), .leaf, hleaf _ _, nofun⟩
  refine .members (by decide) (List.forall_mem_cons.mpr
    ⟨.members (by decide) ?_, List.forall_mem_singleton.mpr .leaf⟩)
  exact List.forall_mem_cons.mpr ⟨hleaf _ _, List.forall_mem_singleton.mpr (.wrapped hletters)⟩

/-- The tables of mail: senders, sent letters and received ones, each under the payload. -/
theorem tables_outermost_mail :
    mail.ty.DistinctNames ∧
    mail.IsTable ["letters", "optional_value", "sent", "list_values"]
      (.struct [("pages", .integer 1 9)]) ∧
    mail.tables = [Path.ofLabels ["data", "sender"],
      Path.ofLabels ["data", "letters", "optional_value", "sent", "list_values"],
      Path.ofLabels ["data", "letters", "optional_value", "received"]] ∧
    mail.tables.Nodup ∧ (∀ path ∈ mail.tables, path.isBranching = false) ∧
    mail.ty.get (Path.ofLabels ["data", "letters", "optional_value", "sent", "list_values"]) =
      .ok (.struct [("pages", .integer 1 9)]) := by
  have hsent : mail.IsTable ["letters", "optional_value", "sent", "list_values"]
      (.struct [("pages", .integer 1 9)]) :=
    ⟨.step (List.mem_cons_of_mem _ (List.mem_singleton_self _)) (.step (List.mem_singleton_self _)
      (.step List.mem_cons_self (.step (List.mem_singleton_self _) (.here _)))), rfl⟩
  obtain ⟨places, -, hnodup, hbranching, -, hget, -⟩ :=
    (tables_outermost mail distinctNames_mail).1 ⟨_, _, hsent⟩
  exact ⟨distinctNames_mail, hsent, rfl, hnodup, hbranching, hget _ _ hsent⟩

end Lineage.Schema
