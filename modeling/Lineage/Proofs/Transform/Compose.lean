import Mathlib.Data.String.Basic
import Lineage.Proofs.Dict
import Lineage.Transform.Compose

set_option autoImplicit false

/-!
# Substitution into transforms

Arguments are put in the place of the variables of a transform. Doing this twice is doing it once,
with arguments into which the later ones have been put, as long as every variable has an argument.
The variables that are left are those of the arguments and those that have none.

## Main definitions

* `Lineage.Transform.Layered`: variables, and steps on top of what such transforms give.
* `Lineage.Transform.variablesAt`: the variables that are left in the place of one.

## Main results

* `Lineage.Transform.mem_variablePositions`, `Lineage.Transform.pairwise_variablePositions`: the
  variables of a transform are listed in order, each once.
* `Lineage.Transform.compose_compose`: substitution is associative.
* `Lineage.Transform.Layered.mem_variablePositions_compose`: the variables that are left.

## Design

A step is put on top of all arguments, whether it has variables or not, and a composition keeps its
head as it is. So the variables that are left can be told from those of a transform only if its
steps stand at the heads of compositions and no head has variables.
-/

namespace Lineage

/-! ### Positions -/

namespace Position

variable {α β : Type}

/-- The argument at a position is changed as all arguments are. -/
lemma find?_map (f : α → β) (arguments : List α) (named : Dict α) (position : Position) :
    position.find? (arguments.map f) (named.mapValues f) =
      (position.find? arguments named).map f := by
  cases position with
  | index i => exact List.getElem?_map
  | name n => exact Dict.find?_mapValues f n named

/-- One of two positions comes first, or they are the same. -/
lemma le_total (p q : Position) : p.le q = true ∨ q.le p = true := by
  cases p <;> cases q <;> simp only [le, decide_eq_true_eq, true_or, or_true]
  · exact Nat.le_total _ _
  · exact Std.le_total

/-- What comes before a position that comes before another one comes before this one. -/
lemma le_trans {p q r : Position} (h : p.le q = true) (h' : q.le r = true) : p.le r = true := by
  cases p <;> cases q <;> cases r <;> simp only [le, decide_eq_true_eq, Bool.false_eq_true] at *
  · exact Nat.le_trans h h'
  · exact Std.le_trans h h'

/-- Positions of which each comes before the other are the same. -/
lemma le_antisymm {p q : Position} (h : p.le q = true) (h' : q.le p = true) : p = q := by
  cases p <;> cases q <;> simp only [le, decide_eq_true_eq, Bool.false_eq_true] at h h'
  · exact congrArg index (Nat.le_antisymm h h')
  · exact congrArg name (Std.le_antisymm h h')

/-- A position comes before another one and is not the same. -/
def Before (p q : Position) : Prop := p.le q = true ∧ p ≠ q

end Position

namespace Transform

/-- Induction on transforms: a composition has what its head and its arguments have. -/
@[elab_as_elim]
theorem induction {P : Transform → Prop} (step : ∀ heading content, P (.step heading content))
    (place : ∀ heading position, P (.variable heading position))
    (composed : ∀ heading head inner innerNamed, P head → (∀ t ∈ inner, P t) →
      (∀ entry ∈ innerNamed, P entry.2) → P (.composed heading head inner innerNamed))
    (t : Transform) : P t :=
  @Transform.rec P (fun inner => ∀ t ∈ inner, P t) (fun named => ∀ entry ∈ named, P entry.2)
    (fun entry => P entry.2) step place composed
    (List.forall_mem_nil _) (fun _ _ hfirst hrest => List.forall_mem_cons.mpr ⟨hfirst, hrest⟩)
    (List.forall_mem_nil _) (fun _ _ hfirst hrest => List.forall_mem_cons.mpr ⟨hfirst, hrest⟩)
    (fun _ _ ht => ht) t

/-! ### The list of variables -/

/-- Only repetitions are dropped. -/
lemma mem_dropRepeats {p : Position} {ps : List Position} : p ∈ dropRepeats ps ↔ p ∈ ps := by
  fun_induction dropRepeats ps with
  | case1 => exact Iff.rfl
  | case2 first => exact Iff.rfl
  | case3 first rest ih => simp [ih]
  | case4 first second rest hne ih => rw [List.mem_cons, ih, ← List.mem_cons]

/-- Sorted positions increase strictly when repetitions are dropped. -/
lemma pairwise_dropRepeats {ps : List Position} (h : ps.Pairwise fun p q => p.le q = true) :
    (dropRepeats ps).Pairwise Position.Before := by
  fun_induction dropRepeats ps with
  | case1 => exact List.Pairwise.nil
  | case2 first => exact List.pairwise_singleton _ _
  | case3 first rest ih => exact ih h.of_cons
  | case4 first second rest hne ih =>
    obtain ⟨hfirst, hrest⟩ := List.pairwise_cons.mp h
    refine List.pairwise_cons.mpr ⟨fun q hq => ?_, ih hrest⟩
    rw [mem_dropRepeats] at hq
    refine ⟨hfirst q hq, ?_⟩
    rintro rfl
    -- What comes after the second position is not the first one again.
    rcases List.mem_cons.mp hq with heq | hmem
    · exact hne heq
    · exact hne (Position.le_antisymm (hfirst second List.mem_cons_self)
        ((List.pairwise_cons.mp hrest).1 _ hmem))

/-- The variables that are listed are those that occur. -/
lemma mem_variablePositions {p : Position} {t : Transform} :
    p ∈ t.variablePositions ↔ p ∈ t.positions := by
  rw [variablePositions, mem_dropRepeats, List.mem_mergeSort]

/-- **The variables of a transform are listed in order, each once.**

**Proof sketch.** The variables are sorted, and of equal neighbours one is dropped. What is
left increases strictly, as the order of positions is antisymmetric. -/
theorem pairwise_variablePositions (t : Transform) :
    t.variablePositions.Pairwise Position.Before := by
  have hsorted : (t.positions.mergeSort Position.le).Pairwise fun p q => p.le q = true :=
    List.pairwise_mergeSort (@Position.le_trans)
      (fun p q => Bool.or_eq_true_iff.mpr (p.le_total q)) t.positions
  exact pairwise_dropRepeats hsorted

/-- Variables of transforms are variables of one of them. -/
lemma positionsOf_eq_flatMap (ts : List Transform) : positionsOf ts = ts.flatMap positions := by
  induction ts with
  | nil => rw [positionsOf, List.flatMap_nil]
  | cons t ts ih => rw [positionsOf, List.flatMap_cons, ih]

/-- Variables of named transforms are variables of one of them. -/
lemma positionsOfNamed_eq_flatMap (ts : List (String × Transform)) :
    positionsOfNamed ts = ts.flatMap fun entry => entry.2.positions := by
  induction ts with
  | nil => rw [positionsOfNamed, List.flatMap_nil]
  | cons entry ts ih => rw [positionsOfNamed, List.flatMap_cons, ih]

/-- A step on top of others has no variables of its own. -/
lemma positions_composed_step (heading stepHeading : Heading) (content : Step)
    (inner : List Transform) (innerNamed : List (String × Transform)) :
    (Transform.composed heading (.step stepHeading content) inner innerNamed).positions =
      inner.flatMap positions ++ innerNamed.flatMap fun entry => entry.2.positions := by
  rw [positions, positions, List.nil_append, positionsOf_eq_flatMap, positionsOfNamed_eq_flatMap]

/-! ### Substitution twice -/

section Compose

variable {us vs : List Transform} {named later : Dict Transform}

/-- Arguments are put into each of some transforms. -/
lemma composeAll_eq_map (ts : List Transform) :
    composeAll us named ts = ts.map (compose us named) := by
  induction ts with
  | nil => rw [composeAll, List.map_nil]
  | cons t ts ih => rw [composeAll, List.map_cons, ih]

/-- Arguments are put into each of some named transforms. -/
lemma composeNamed_eq_mapValues (ts : Dict Transform) :
    composeNamed us named ts = ts.mapValues (compose us named) := by
  induction ts with
  | nil => rw [composeNamed, Dict.mapValues, List.map_nil]
  | cons entry ts ih => rw [composeNamed, Dict.mapValues, List.map_cons, ih, Dict.mapValues]

/-- Arguments are put into a composition: into its arguments and not into its head. -/
lemma compose_composed (heading : Heading) (head : Transform) (inner : List Transform)
    (innerNamed : Dict Transform) :
    (Transform.composed heading head inner innerNamed).compose us named =
      .composed (Transform.named heading.name) head (inner.map (compose us named))
        (innerNamed.mapValues (compose us named)) := by
  rw [compose, composeAll_eq_map, composeNamed_eq_mapValues]

/-- Where all variables that occur have an argument, putting arguments into a transform and then
later ones is putting in the arguments with the later ones in them. -/
lemma compose_compose_of_positions (t : Transform)
    (h : ∀ p ∈ t.positions, (p.find? us named).isSome = true) :
    (t.compose us named).compose vs later =
      t.compose (us.map (compose vs later)) (named.mapValues (compose vs later)) := by
  induction t using Transform.induction with
  | step heading content =>
    rw [compose, compose_composed, compose]
    rfl
  | place heading position =>
    obtain ⟨u, hu⟩ := Option.isSome_iff_exists.mp (h position (by simp [positions]))
    rw [compose, compose, Position.find?_map, hu, Option.getD_some, Option.map_some,
      Option.getD_some]
  | composed heading head inner innerNamed _ hinner hnamed =>
    have hpositional : ∀ t ∈ inner, ∀ p ∈ t.positions, (p.find? us named).isSome = true := by
      intro t ht p hp
      refine h p ?_
      rw [positions, positionsOf_eq_flatMap]
      exact List.mem_append_left _ (List.mem_append_right _ (List.mem_flatMap.mpr ⟨t, ht, hp⟩))
    have hkeyed : ∀ entry ∈ innerNamed, ∀ p ∈ entry.2.positions,
        (p.find? us named).isSome = true := by
      intro entry hentry p hp
      refine h p ?_
      rw [positions, positionsOfNamed_eq_flatMap]
      exact List.mem_append_right _ (List.mem_flatMap.mpr ⟨entry, hentry, hp⟩)
    have hargs : (inner.map (compose us named)).map (compose vs later) = inner.map
        (compose (us.map (compose vs later)) (named.mapValues (compose vs later))) := by
      rw [List.map_map]
      exact List.map_congr_left fun t ht => hinner t ht (hpositional t ht)
    rw [compose_composed, compose_composed, compose_composed, hargs,
      Dict.mapValues_mapValues fun entry hentry => hnamed entry hentry (hkeyed entry hentry)]
    rfl

/-- **Substitution is associative.** If there is an argument for every variable of a transform,
putting in these arguments and then later ones is putting in the arguments with the later ones in
them.

**Proof sketch.** By induction on the transform. In the place of a variable both sides have
its argument with the later ones in it, and a step becomes the head of a composition that
later arguments leave as it is. -/
theorem compose_compose {t : Transform}
    (h : ∀ p ∈ t.variablePositions, (p.find? us named).isSome = true) :
    (t.compose us named).compose vs later =
      t.compose (us.map (compose vs later)) (named.mapValues (compose vs later)) :=
  compose_compose_of_positions t fun p hp => h p (mem_variablePositions.mpr hp)

/-- A join of rows in random order with their weights. -/
def weightedRows : Transform :=
  .composed (Transform.named "composed")
    (.step (Transform.named "std.join") (.external ⟨"std", "join", .null, .dataset⟩))
    [.composed (Transform.named "composed") (.ofStep .shuffle) [.ofPosition (.index 0)] []]
    [("weights", .ofPosition (.name "weights"))]

/-- The join has two variables: the rows and the weights. -/
lemma mem_variablePositions_weightedRows {p : Position} :
    p ∈ weightedRows.variablePositions ↔ p = .index 0 ∨ p = .name "weights" := by
  rw [mem_variablePositions]
  simp [weightedRows, ofStep, ofPosition, positions, positionsOf, positionsOfNamed]

/-- A join of other rows, of which then the first is taken, with weights that are then shuffled. -/
theorem compose_compose_weightedRows :
    (∀ p ∈ weightedRows.variablePositions, (p.find? [ofPosition (.name "rows")]
      [("weights", ofPosition (.index 0))]).isSome = true) ∧
    (weightedRows.compose [.ofPosition (.name "rows")]
      [("weights", .ofPosition (.index 0))]).compose [.ofStep .shuffle]
        [("rows", .ofStep (.slice 0 1))] =
      weightedRows.compose [.ofStep (.slice 0 1)] [("weights", .ofStep .shuffle)] := by
  have hbound : ∀ p ∈ weightedRows.variablePositions, (p.find? [ofPosition (.name "rows")]
      [("weights", ofPosition (.index 0))]).isSome = true := by
    intro p hp
    rcases mem_variablePositions_weightedRows.mp hp with rfl | rfl <;> rfl
  exact ⟨hbound, compose_compose hbound⟩

/-! ### Variables that are left -/

/-- Variables, and steps on top of what such transforms give: every step stands at the head of a
composition. -/
inductive Layered : Transform → Prop
  /-- A variable. -/
  | place {heading : Heading} {position : Position} : Layered (.variable heading position)
  /-- A step on top of such transforms. -/
  | composed {heading stepHeading : Heading} {content : Step} {inner : List Transform}
      {innerNamed : List (String × Transform)} (positional : ∀ t ∈ inner, Layered t)
      (keyed : ∀ entry ∈ innerNamed, Layered entry.2) :
      Layered (.composed heading (.step stepHeading content) inner innerNamed)

/-- The variables that are left in the place of one: those of its argument, or itself if it has
none. -/
def variablesAt (us : List Transform) (named : Dict Transform) (position : Position) :
    List Position :=
  match position.find? us named with
  | some u => u.variablePositions
  | none => [position]

/-- The variables that are left in the places of some. -/
lemma Layered.mem_positions_compose {t : Transform} (h : t.Layered) {p : Position} :
    p ∈ (t.compose us named).positions ↔ p ∈ t.positions.flatMap (variablesAt us named) := by
  induction h with
  | @place heading position =>
    simp only [compose, positions, List.flatMap_singleton, variablesAt]
    cases position.find? us named with
    | none => rw [Option.getD_none, positions]
    | some u => exact mem_variablePositions.symm
  | @composed heading stepHeading content inner innerNamed _ _ hinner hnamed =>
    rw [compose_composed, positions_composed_step, positions_composed_step, Dict.mapValues,
      List.flatMap_map, List.flatMap_map, List.flatMap_append, List.flatMap_assoc,
      List.flatMap_assoc, List.mem_append, List.mem_append]
    refine or_congr ?_ ?_ <;> rw [List.mem_flatMap, List.mem_flatMap]
    · exact exists_congr fun t => and_congr_right (hinner t)
    · exact exists_congr fun entry => and_congr_right (hnamed entry)

/-- **The variables that are left** when arguments are put into a transform whose steps stand at the
heads of compositions: in the place of each variable those of its argument. -/
theorem Layered.mem_variablePositions_compose {t : Transform} (h : t.Layered) {p : Position} :
    p ∈ (t.compose us named).variablePositions ↔
      ∃ q ∈ t.variablePositions, p ∈ variablesAt us named q := by
  rw [mem_variablePositions, h.mem_positions_compose, List.mem_flatMap]
  exact exists_congr fun q => and_congr_left' mem_variablePositions.symm

end Compose

end Transform

end Lineage
