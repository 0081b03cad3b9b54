import Lineage.Proofs.Json.Writer
import Lineage.Schema.Basic

set_option autoImplicit false

/-!
# The written form of a type identifies it

Types, paths and schemas are written as objects that leave out what is empty. The written form
determines everything but one thing: which double a double that is not finite is. To say so, types
are compared up to a relation on doubles.

## Main definitions

* `Lineage.Leaf.Agree`, `Lineage.Ty.Agree`, `Lineage.Schema.Agree`: equality up to a relation on
  doubles.
* `Lineage.SameText`: doubles that are written alike.
* `Lineage.Ty.mapDoubles`: a type with other doubles.

## Main results

* `Lineage.Path.toJson_injective`: the written form of a path determines it.
* `Lineage.Ty.toJson_eq_iff`, `Lineage.Schema.toJson_eq_iff`: what is written alike agrees up to
  doubles that are written alike, and conversely.
* `Lineage.Ty.Agree.combine`, `Lineage.Ty.Agree.trans`, `Lineage.Ty.agree_eq_iff`,
  `Lineage.Ty.agree_mapDoubles_iff`: how relations on doubles carry over to types.
-/

namespace Lineage

/-- Two doubles are written alike: they are one double, or neither is finite. -/
def SameText (x y : Float) : Prop := Json.ofFloat x = Json.ofFloat y

namespace Json

/-! ### Members that may be left out -/

/-- Properties are determined by how they are written. -/
lemma dictMember_injective {key : String} {d d' : List (String × String)}
    (h : dictMember key d = dictMember key d') : d = d' := by
  have hmap : ∀ {e e' : List (String × String)},
      e.map (fun p => (p.1, Json.string p.2)) = e'.map (fun p => (p.1, Json.string p.2)) →
        e = e' := by
    intro e e' he
    refine List.map_injective_iff.mpr ?_ he
    rintro ⟨a, b⟩ ⟨a', b'⟩ hab
    simpa using hab
  unfold dictMember at h
  cases d with
  | nil =>
    cases d' with
    | nil => rfl
    | cons p d' => simp at h
  | cons p d =>
    cases d' with
    | nil => simp at h
    | cons p' d' => exact hmap (by simpa using h)

/-- A member that may be left out determines what is written in it. -/
lemma optionalMember_injective {α : Type} {key : String} {f : α → Json}
    (hf : Function.Injective f) : Function.Injective (optionalMember key f) := by
  intro x y h
  cases x <;> cases y <;>
    simp only [optionalMember, List.cons.injEq, Prod.mk.injEq, true_and, and_true,
      reduceCtorEq] at h
  · rfl
  · rw [hf h]

/-- What may stand before properties is determined by the whole.

**Proof sketch.** Without the member `properties` the two sides are what stands in front. What
is left when that is taken away is the member itself. -/
lemma append_dictMember {ms ms' : List (String × Json)} {d d' : List (String × String)}
    (hms : ∀ m ∈ ms, m.1 ≠ "properties") (hms' : ∀ m ∈ ms', m.1 ≠ "properties")
    (h : ms ++ dictMember "properties" d = ms' ++ dictMember "properties" d') :
    ms = ms' ∧ d = d' := by
  have hfilter : ∀ (ns : List (String × Json)) (e : List (String × String)),
      (∀ m ∈ ns, m.1 ≠ "properties") →
      (ns ++ dictMember "properties" e).filter (fun m => m.1 != "properties") = ns := by
    intro ns e hns
    rw [List.filter_append]
    have hkeep : ns.filter (fun m => m.1 != "properties") = ns :=
      List.filter_eq_self.mpr fun m hm => by simpa using hns m hm
    have hdrop : (dictMember "properties" e).filter (fun m => m.1 != "properties") = [] := by
      unfold dictMember
      split <;> simp
    rw [hkeep, hdrop, List.append_nil]
  have hfront : ms = ms' := by
    have := congrArg (List.filter fun m => m.1 != "properties") h
    rwa [hfilter ms d hms, hfilter ms' d' hms'] at this
  subst hfront
  exact ⟨rfl, dictMember_injective (List.append_cancel_left h)⟩

end Json

/-! ### Paths -/

namespace Path

mutual

/-- **The written form of a path determines it.** -/
theorem toJson_injective : ∀ {p q : Path}, p.toJson = q.toJson → p = q
  | .node l [], .node l' [], h => by simpa [toJson] using h
  | .node l [], .node l' (q :: qs), h => by simp [toJson] at h
  | .node l (p :: ps), .node l' [], h => by simp [toJson] at h
  | .node l (p :: ps), .node l' (q :: qs), h => by
    simp only [toJson, Json.object.injEq, List.cons.injEq, Prod.mk.injEq, Json.string.injEq,
      Json.array.injEq, true_and, and_true] at h
    rw [h.1, toJsonList_injective h.2]

/-- The written form of a list of paths determines it. -/
theorem toJsonList_injective : ∀ {ps qs : List Path}, toJsonList ps = toJsonList qs → ps = qs
  | [], [], _ => rfl
  | [], _ :: _, h => by simp [toJsonList] at h
  | _ :: _, [], h => by simp [toJsonList] at h
  | p :: ps, q :: qs, h => by
    simp only [toJsonList, List.cons.injEq] at h
    rw [toJson_injective h.1, toJsonList_injective h.2]

end

mutual

/-- A path is written without doubles. -/
lemma isFinite_toJson : ∀ p : Path, p.toJson.isFinite = true
  | .node l [] => by simp [toJson, Json.isFinite, Json.areFiniteMembers]
  | .node l (p :: ps) => by
    simp [toJson, Json.isFinite, Json.areFiniteMembers, areFinite_toJsonList (p :: ps)]

/-- A list of paths is written without doubles. -/
lemma areFinite_toJsonList : ∀ ps : List Path, Json.areFinite (toJsonList ps) = true
  | [] => rfl
  | p :: ps => by
    rw [toJsonList, Json.areFinite, isFinite_toJson p, areFinite_toJsonList ps, Bool.and_true]

end

end Path

/-! ### Types up to their doubles -/

/-- Two leaves are equal up to a relation on their bounds. -/
def Leaf.Agree (R : Float → Float → Prop) : Leaf → Leaf → Prop
  | .float min max base, c => ∃ min' max', c = .float min' max' base ∧ R min min' ∧ R max max'
  | c, c' => c = c'

/-- A leaf with other bounds. -/
def Leaf.mapDoubles (f : Float → Float) : Leaf → Leaf
  | .float min max base => .float (f min) (f max) base
  | c => c

namespace Ty

mutual

/-- Two types are equal up to a relation on the bounds and scores in them. -/
def Agree (R : Float → Float → Prop) : Ty → Ty → Prop
  | .leaf i c, t => ∃ c', t = .leaf i c' ∧ c.Agree R c'
  | .members i form fields, t =>
    ∃ fields', t = .members i form fields' ∧ AgreeFields R fields fields'
  | .wrapped i wrapper inner, t => ∃ inner', t = .wrapped i wrapper inner' ∧ Agree R inner inner'
  | .hypothesis i types, t => ∃ types', t = .hypothesis i types' ∧ AgreeScored R types types'

/-- Members that are equal up to a relation on doubles. -/
def AgreeFields (R : Float → Float → Prop) : List (String × Ty) → List (String × Ty) → Prop
  | [], fields => fields = []
  | (name, t) :: rest, fields =>
    ∃ t' rest', fields = (name, t') :: rest' ∧ Agree R t t' ∧ AgreeFields R rest rest'

/-- Candidates that are equal up to a relation on doubles. -/
def AgreeScored (R : Float → Float → Prop) : List (Ty × Float) → List (Ty × Float) → Prop
  | [], types => types = []
  | (t, score) :: rest, types => ∃ t' score' rest', types = (t', score') :: rest' ∧ Agree R t t' ∧
    R score score' ∧ AgreeScored R rest rest'

end

mutual

/-- A type with other bounds and scores. -/
def mapDoubles (f : Float → Float) : Ty → Ty
  | .leaf i c => .leaf i (c.mapDoubles f)
  | .members i form fields => .members i form (mapDoublesFields f fields)
  | .wrapped i wrapper inner => .wrapped i wrapper (mapDoubles f inner)
  | .hypothesis i types => .hypothesis i (mapDoublesScored f types)

/-- Members with other doubles. -/
def mapDoublesFields (f : Float → Float) : List (String × Ty) → List (String × Ty)
  | [] => []
  | (name, t) :: rest => (name, mapDoubles f t) :: mapDoublesFields f rest

/-- Candidates with other doubles. -/
def mapDoublesScored (f : Float → Float) : List (Ty × Float) → List (Ty × Float)
  | [] => []
  | (t, score) :: rest => (mapDoubles f t, f score) :: mapDoublesScored f rest

end

variable {R T U : Float → Float → Prop}

/-! ### How relations on doubles carry over -/

/-- Two relations between the doubles of two leaves, taken together. -/
lemma leaf_combine (hR : ∀ x y, R x y → T x y → U x y) {c d : Leaf} (h : c.Agree R d)
    (h' : c.Agree T d) : c.Agree U d := by
  cases c <;> try exact h
  obtain ⟨min', max', rfl, hmin, hmax⟩ := h
  obtain ⟨min'', max'', heq, hmin', hmax'⟩ := h'
  cases heq
  exact ⟨_, _, rfl, hR _ _ hmin hmin', hR _ _ hmax hmax'⟩

mutual

/-- **Two relations between the doubles of two types, taken together.**

**Proof sketch.** Induction on the first type: the constructor of the second is the same by
either relation, so that both speak of the same parts. -/
theorem Agree.combine (hR : ∀ x y, R x y → T x y → U x y) :
    ∀ {t u : Ty}, t.Agree R u → t.Agree T u → t.Agree U u
  | .leaf i c, u, h, h' => by
    simp only [Agree] at h h' ⊢
    obtain ⟨c', rfl, hc⟩ := h
    obtain ⟨c'', heq, hc'⟩ := h'
    cases heq
    exact ⟨_, rfl, leaf_combine hR hc hc'⟩
  | .members i form fields, u, h, h' => by
    simp only [Agree] at h h' ⊢
    obtain ⟨fields', rfl, hf⟩ := h
    obtain ⟨fields'', heq, hf'⟩ := h'
    cases heq
    exact ⟨_, rfl, AgreeFields.combine hR hf hf'⟩
  | .wrapped i wrapper inner, u, h, h' => by
    simp only [Agree] at h h' ⊢
    obtain ⟨inner', rfl, hi⟩ := h
    obtain ⟨inner'', heq, hi'⟩ := h'
    cases heq
    exact ⟨_, rfl, Agree.combine hR hi hi'⟩
  | .hypothesis i types, u, h, h' => by
    simp only [Agree] at h h' ⊢
    obtain ⟨types', rfl, ht⟩ := h
    obtain ⟨types'', heq, ht'⟩ := h'
    cases heq
    exact ⟨_, rfl, AgreeScored.combine hR ht ht'⟩

/-- Two relations between the doubles of members, taken together. -/
theorem AgreeFields.combine (hR : ∀ x y, R x y → T x y → U x y) :
    ∀ {fs gs : List (String × Ty)}, AgreeFields R fs gs → AgreeFields T fs gs →
      AgreeFields U fs gs
  | [], gs, h, _ => h
  | (name, t) :: rest, gs, h, h' => by
    simp only [AgreeFields] at h h' ⊢
    obtain ⟨t', rest', rfl, ht, hrest⟩ := h
    obtain ⟨t'', rest'', heq, ht', hrest'⟩ := h'
    cases heq
    exact ⟨_, _, rfl, Agree.combine hR ht ht', AgreeFields.combine hR hrest hrest'⟩

/-- Two relations between the doubles of candidates, taken together. -/
theorem AgreeScored.combine (hR : ∀ x y, R x y → T x y → U x y) :
    ∀ {ts us : List (Ty × Float)}, AgreeScored R ts us → AgreeScored T ts us →
      AgreeScored U ts us
  | [], us, h, _ => h
  | (t, score) :: rest, us, h, h' => by
    simp only [AgreeScored] at h h' ⊢
    obtain ⟨t', score', rest', rfl, ht, hs, hrest⟩ := h
    obtain ⟨t'', score'', rest'', heq, ht', hs', hrest'⟩ := h'
    cases heq
    exact ⟨_, _, _, rfl, Agree.combine hR ht ht', hR _ _ hs hs',
      AgreeScored.combine hR hrest hrest'⟩

end

/-- A relation between the doubles of two leaves, followed by one between those of the second and a
third. -/
lemma leaf_trans (hR : ∀ x y z, R x y → T y z → U x z) {c d e : Leaf} (h : c.Agree R d)
    (h' : d.Agree T e) : c.Agree U e := by
  cases c
  case float min max base =>
    obtain ⟨min', max', rfl, hmin, hmax⟩ := h
    obtain ⟨min'', max'', rfl, hmin', hmax'⟩ := h'
    exact ⟨_, _, rfl, hR _ _ _ hmin hmin', hR _ _ _ hmax hmax'⟩
  all_goals
    simp only [Leaf.Agree] at h
    subst h
    exact h'

mutual

/-- **Relations between the doubles of types, one after the other.** -/
theorem Agree.trans (hR : ∀ x y z, R x y → T y z → U x z) :
    ∀ {t u v : Ty}, t.Agree R u → u.Agree T v → t.Agree U v
  | .leaf i c, u, v, h, h' => by
    simp only [Agree] at h ⊢
    obtain ⟨c', rfl, hc⟩ := h
    simp only [Agree] at h'
    obtain ⟨c'', rfl, hc'⟩ := h'
    exact ⟨_, rfl, leaf_trans hR hc hc'⟩
  | .members i form fields, u, v, h, h' => by
    simp only [Agree] at h ⊢
    obtain ⟨fields', rfl, hf⟩ := h
    simp only [Agree] at h'
    obtain ⟨fields'', rfl, hf'⟩ := h'
    exact ⟨_, rfl, AgreeFields.trans hR hf hf'⟩
  | .wrapped i wrapper inner, u, v, h, h' => by
    simp only [Agree] at h ⊢
    obtain ⟨inner', rfl, hi⟩ := h
    simp only [Agree] at h'
    obtain ⟨inner'', rfl, hi'⟩ := h'
    exact ⟨_, rfl, Agree.trans hR hi hi'⟩
  | .hypothesis i types, u, v, h, h' => by
    simp only [Agree] at h ⊢
    obtain ⟨types', rfl, ht⟩ := h
    simp only [Agree] at h'
    obtain ⟨types'', rfl, ht'⟩ := h'
    exact ⟨_, rfl, AgreeScored.trans hR ht ht'⟩

/-- Relations between the doubles of members, one after the other. -/
theorem AgreeFields.trans (hR : ∀ x y z, R x y → T y z → U x z) :
    ∀ {fs gs hs : List (String × Ty)}, AgreeFields R fs gs → AgreeFields T gs hs →
      AgreeFields U fs hs
  | [], gs, hs, h, h' => by
    simp only [AgreeFields] at h
    subst h
    exact h'
  | (name, t) :: rest, gs, hs, h, h' => by
    simp only [AgreeFields] at h ⊢
    obtain ⟨t', rest', rfl, ht, hrest⟩ := h
    simp only [AgreeFields] at h'
    obtain ⟨t'', rest'', rfl, ht', hrest'⟩ := h'
    exact ⟨_, _, rfl, Agree.trans hR ht ht', AgreeFields.trans hR hrest hrest'⟩

/-- Relations between the doubles of candidates, one after the other. -/
theorem AgreeScored.trans (hR : ∀ x y z, R x y → T y z → U x z) :
    ∀ {ts us vs : List (Ty × Float)}, AgreeScored R ts us → AgreeScored T us vs →
      AgreeScored U ts vs
  | [], us, vs, h, h' => by
    simp only [AgreeScored] at h
    subst h
    exact h'
  | (t, score) :: rest, us, vs, h, h' => by
    simp only [AgreeScored] at h ⊢
    obtain ⟨t', score', rest', rfl, ht, hs, hrest⟩ := h
    simp only [AgreeScored] at h'
    obtain ⟨t'', score'', rest'', rfl, ht', hs', hrest'⟩ := h'
    exact ⟨_, _, _, rfl, Agree.trans hR ht ht', hR _ _ _ hs hs', AgreeScored.trans hR hrest hrest'⟩

end

/-- Leaves whose bounds are equal are equal. -/
lemma leaf_agree_eq_iff {c d : Leaf} : c.Agree Eq d ↔ c = d := by
  cases c <;> simp only [Leaf.Agree]
  constructor
  · rintro ⟨_, _, rfl, rfl, rfl⟩
    rfl
  · rintro rfl
    exact ⟨_, _, rfl, rfl, rfl⟩

mutual

/-- **Types whose doubles are equal are equal.** -/
theorem agree_eq_iff : ∀ {t u : Ty}, t.Agree Eq u ↔ t = u
  | .leaf i c, u => by
    simp only [Agree, leaf_agree_eq_iff]
    exact ⟨fun ⟨_, h, h'⟩ => h' ▸ h.symm, fun h => ⟨_, h.symm, rfl⟩⟩
  | .members i form fields, u => by
    simp only [Agree, agreeFields_eq_iff]
    exact ⟨fun ⟨_, h, h'⟩ => h' ▸ h.symm, fun h => ⟨_, h.symm, rfl⟩⟩
  | .wrapped i wrapper inner, u => by
    simp only [Agree, agree_eq_iff]
    exact ⟨fun ⟨_, h, h'⟩ => h' ▸ h.symm, fun h => ⟨_, h.symm, rfl⟩⟩
  | .hypothesis i types, u => by
    simp only [Agree, agreeScored_eq_iff]
    exact ⟨fun ⟨_, h, h'⟩ => h' ▸ h.symm, fun h => ⟨_, h.symm, rfl⟩⟩

/-- Members whose doubles are equal are equal. -/
theorem agreeFields_eq_iff : ∀ {fs gs : List (String × Ty)}, AgreeFields Eq fs gs ↔ fs = gs
  | [], gs => by
    simp only [AgreeFields]
    exact eq_comm
  | (name, t) :: rest, gs => by
    simp only [AgreeFields, agree_eq_iff, agreeFields_eq_iff]
    exact ⟨fun ⟨_, _, h, h', h''⟩ => by rw [h, h', h''], fun h => ⟨_, _, h.symm, rfl, rfl⟩⟩

/-- Candidates whose doubles are equal are equal. -/
theorem agreeScored_eq_iff : ∀ {ts us : List (Ty × Float)}, AgreeScored Eq ts us ↔ ts = us
  | [], us => by
    simp only [AgreeScored]
    exact eq_comm
  | (t, score) :: rest, us => by
    simp only [AgreeScored, agree_eq_iff, agreeScored_eq_iff]
    exact ⟨fun ⟨_, _, _, h, h', h'', h'''⟩ => by rw [h, h', h'', h'''],
      fun h => ⟨_, _, _, h.symm, rfl, rfl, rfl⟩⟩

end

/-- A type agrees with itself up to a relation that every double has to itself. -/
lemma agree_refl (hR : ∀ x, R x x) (t : Ty) : t.Agree R t :=
  Agree.combine (R := Eq) (T := Eq) (fun x _ h _ => h ▸ hR x) (agree_eq_iff.mpr rfl)
    (agree_eq_iff.mpr rfl)

/-- Two images of a leaf are related as the images of its bounds are. -/
lemma leaf_agree_mapDoubles_iff (f g : Float → Float) (c : Leaf) :
    (c.mapDoubles f).Agree R (c.mapDoubles g) ↔ c.Agree (fun x _ => R (f x) (g x)) c := by
  cases c <;> simp [Leaf.Agree, Leaf.mapDoubles]

mutual

/-- **Two images of a type are related as the images of its doubles are.** -/
theorem agree_mapDoubles_iff (f g : Float → Float) : ∀ t : Ty,
    (t.mapDoubles f).Agree R (t.mapDoubles g) ↔ t.Agree (fun x _ => R (f x) (g x)) t
  | .leaf i c => by
    simp only [Agree, mapDoubles, leaf.injEq, true_and, exists_eq_left',
      leaf_agree_mapDoubles_iff f g c]
  | .members i form fields => by
    simp only [Agree, mapDoubles, members.injEq, true_and, exists_eq_left',
      agreeFields_mapDoubles_iff f g fields]
  | .wrapped i wrapper inner => by
    simp only [Agree, mapDoubles, wrapped.injEq, true_and, exists_eq_left',
      agree_mapDoubles_iff f g inner]
  | .hypothesis i types => by
    simp only [Agree, mapDoubles, hypothesis.injEq, true_and, exists_eq_left',
      agreeScored_mapDoubles_iff f g types]

/-- Two images of members are related as the images of their doubles are. -/
theorem agreeFields_mapDoubles_iff (f g : Float → Float) : ∀ fs : List (String × Ty),
    AgreeFields R (mapDoublesFields f fs) (mapDoublesFields g fs) ↔
      AgreeFields (fun x _ => R (f x) (g x)) fs fs
  | [] => by simp only [AgreeFields, mapDoublesFields]
  | (name, t) :: rest => by
    simp only [AgreeFields, mapDoublesFields, List.cons.injEq, Prod.mk.injEq, true_and, and_assoc,
      exists_and_left, exists_eq_left', agree_mapDoubles_iff f g t,
      agreeFields_mapDoubles_iff f g rest]

/-- Two images of candidates are related as the images of their doubles are. -/
theorem agreeScored_mapDoubles_iff (f g : Float → Float) : ∀ ts : List (Ty × Float),
    AgreeScored R (mapDoublesScored f ts) (mapDoublesScored g ts) ↔
      AgreeScored (fun x _ => R (f x) (g x)) ts ts
  | [] => by simp only [AgreeScored, mapDoublesScored]
  | (t, score) :: rest => by
    simp only [AgreeScored, mapDoublesScored, List.cons.injEq, Prod.mk.injEq, and_assoc,
      exists_and_left, exists_eq_left', agree_mapDoubles_iff f g t,
      agreeScored_mapDoubles_iff f g rest]

end

mutual

/-- A type with its own doubles. -/
@[simp]
theorem mapDoubles_id : ∀ t : Ty, t.mapDoubles (fun x => x) = t
  | .leaf i c => by cases c <;> simp [mapDoubles, Leaf.mapDoubles]
  | .members i form fields => by simp only [mapDoubles, mapDoublesFields_id fields]
  | .wrapped i wrapper inner => by simp only [mapDoubles, mapDoubles_id inner]
  | .hypothesis i types => by simp only [mapDoubles, mapDoublesScored_id types]

/-- Members with their own doubles. -/
theorem mapDoublesFields_id : ∀ fs : List (String × Ty), mapDoublesFields (fun x => x) fs = fs
  | [] => rfl
  | (name, t) :: rest => by
    simp only [mapDoublesFields, mapDoubles_id t, mapDoublesFields_id rest]

/-- Candidates with their own doubles. -/
theorem mapDoublesScored_id : ∀ ts : List (Ty × Float), mapDoublesScored (fun x => x) ts = ts
  | [] => rfl
  | (t, score) :: rest => by
    simp only [mapDoublesScored, mapDoubles_id t, mapDoublesScored_id rest]

end

/-! ### The written form -/

/-- Choices are determined by their names, if every choice is in the table and no name is there
twice. -/
lemma choiceName_injective {α : Type} [DecidableEq α] {choices : List (String × α)}
    (hnames : (choices.map Prod.fst).Nodup) (hall : ∀ a, a ∈ choices.map Prod.snd) :
    Function.Injective (choiceName choices) := by
  have hentry : ∀ a, ∃ name, choiceName choices a = .string name ∧ (name, a) ∈ choices := by
    intro a
    obtain ⟨entry, hmem, rfl⟩ := List.mem_map.mp (hall a)
    cases hfind : choices.find? fun c => c.2 == entry.2 with
    | none => exact absurd (List.find?_eq_none.mp hfind entry hmem) (by simp)
    | some found =>
      have hsame : found.2 = entry.2 := by simpa using List.find?_some hfind
      refine ⟨found.1, by rw [choiceName, hfind]; rfl, ?_⟩
      rw [← hsame]
      exact List.mem_of_find?_eq_some hfind
  intro a b h
  obtain ⟨name, hname, ha⟩ := hentry a
  obtain ⟨name', hname', hb⟩ := hentry b
  obtain rfl : name = name' := by rwa [hname, hname', Json.string.injEq] at h
  exact congrArg Prod.snd (List.inj_on_of_nodup_map hnames ha hb rfl)

/-- Names with their values are determined by how they are written. -/
lemma map_nameValue_injective : Function.Injective
    (List.map fun e : String × Int => Json.array [.string e.1, .int e.2]) := by
  refine List.map_injective_iff.mpr ?_
  rintro ⟨a, b⟩ ⟨a', b'⟩ hab
  simpa using hab

/-- The name of the kind in a written kind. -/
def kindOf? : Json → Option String
  | .string name => some name
  | .object ((name, _) :: _) => some name
  | _ => none

/-- A written leaf tells the name of its kind. -/
lemma kindOf?_leafJson (c : Leaf) : kindOf? (leafJson c) = some (leafKind c) := by
  cases c <;> rfl

/-- What is written of a leaf determines it, up to doubles that are written alike. -/
lemma agree_of_leafJson {c d : Leaf} (h : leafJson c = leafJson d) : c.Agree SameText d := by
  have hkind : leafKind c = leafKind d := by
    have := congrArg kindOf? h
    rwa [kindOf?_leafJson, kindOf?_leafJson, Option.some.injEq] at this
  -- Leaves of one kind have the same members, and these are compared one by one.
  cases c <;> cases d <;> simp [leafKind] at hkind
  case id.id =>
    simp only [leafJson, kindJson, Json.object.injEq, List.cons_append, List.nil_append,
      List.cons.injEq, Prod.mk.injEq, Json.bool.injEq, true_and, and_true] at h
    obtain ⟨rfl, hbase, href⟩ := h
    obtain rfl := choiceName_injective (by decide) (fun a => by cases a <;> decide) hbase
    obtain rfl := Json.optionalMember_injective (fun _ _ => Path.toJson_injective) href
    rfl
  case integer.integer =>
    simp only [leafJson, kindJson, Json.object.injEq, List.cons.injEq, Prod.mk.injEq,
      Json.int.injEq, true_and, and_true] at h
    obtain ⟨rfl, rfl, hbase⟩ := h
    obtain rfl := choiceName_injective (by decide) (fun a => by cases a <;> decide) hbase
    rfl
  case enum.enum =>
    simp only [leafJson, kindJson, Json.object.injEq, List.cons.injEq, Prod.mk.injEq,
      Json.array.injEq, Json.bool.injEq, true_and, and_true] at h
    obtain ⟨hvalues, rfl⟩ := h
    obtain rfl := map_nameValue_injective hvalues
    rfl
  case float.float =>
    simp only [leafJson, kindJson, Json.object.injEq, List.cons.injEq, Prod.mk.injEq,
      true_and, and_true] at h
    obtain ⟨hmin, hmax, hbase⟩ := h
    obtain rfl := choiceName_injective (by decide) (fun a => by cases a <;> decide) hbase
    exact ⟨_, _, rfl, hmin, hmax⟩
  case text.text =>
    simp only [leafJson, kindJson, Json.object.injEq, List.cons.injEq, Prod.mk.injEq,
      Json.string.injEq, true_and, and_true] at h
    subst h
    rfl
  case datetime.datetime =>
    simp only [leafJson, kindJson, Json.object.injEq, List.cons.injEq, Prod.mk.injEq,
      Json.string.injEq, true_and, and_true] at h
    obtain ⟨rfl, rfl, rfl, hbase⟩ := h
    obtain rfl := choiceName_injective (by decide) (fun a => by cases a <;> decide) hbase
    rfl
  all_goals rfl

/-- Leaves that agree up to doubles that are written alike are written alike. -/
lemma leafJson_of_agree {c d : Leaf} (h : c.Agree SameText d) : leafJson c = leafJson d := by
  cases c
  case float min max base =>
    obtain ⟨min', max', rfl, hmin, hmax⟩ := h
    simp only [leafJson]
    rw [hmin, hmax]
  all_goals
    simp only [Leaf.Agree] at h
    rw [h]

/-- What stands under `kind` in a written type. -/
def kindValue : Ty → Json
  | .leaf _ c => leafJson c
  | .members _ form fields => kindJson (formKind form) [("fields", .array (fieldsJson fields))]
  | .wrapped _ wrapper inner =>
    kindJson (wrapperKind wrapper) (("inner", inner.toJson) :: wrapperMembers wrapper)
  | .hypothesis _ types => kindJson "hypothesis" [("types", .array (scoredJson types))]

/-- A written type: its kind, its name and its properties. -/
lemma toJson_eq (t : Ty) : t.toJson = infoJson t.kindValue t.info := by
  cases t <;> rfl

/-- Kind, name and properties are determined by how they are written. -/
lemma infoJson_injective {k k' : Json} {i i' : Info} (h : infoJson k i = infoJson k' i') :
    k = k' ∧ i = i' := by
  obtain ⟨name, properties⟩ := i
  obtain ⟨name', properties'⟩ := i'
  have hkeys : ∀ (key : Json) (n : Option String), ∀ m ∈ [("kind", key)] ++
      Json.optionalMember "name" Json.string n, m.1 ≠ "properties" := by
    intro key n m hm
    cases n <;> simp only [Json.optionalMember, List.cons_append, List.nil_append, List.mem_cons,
      List.not_mem_nil, or_false] at hm
    · simp [hm]
    · rcases hm with rfl | rfl <;> simp
  obtain ⟨hfront, rfl⟩ :=
    Json.append_dictMember (hkeys k name) (hkeys k' name') (Json.object.inj h)
  obtain ⟨hkind, hname⟩ := List.cons.inj hfront
  have hinj : Function.Injective (Json.optionalMember "name" Json.string) :=
    Json.optionalMember_injective fun _ _ => Json.string.inj
  exact ⟨(Prod.mk.inj hkind).2, congrArg (Info.mk · properties) (hinj hname)⟩

/-- A written type tells the name of its kind. -/
lemma kindOf?_kindValue (t : Ty) : kindOf? t.kindValue = some t.kindName := by
  cases t with
  | leaf i c => exact kindOf?_leafJson c
  | _ => rfl

/-- What a wrapper adds determines it, for wrappers of one kind. -/
lemma wrapperMembers_injective {w w' : Wrapper} (hkind : wrapperKind w = wrapperKind w')
    (h : wrapperMembers w = wrapperMembers w') : w = w' := by
  have hmap : ∀ {ms ns : List ℕ}, ms.map Json.ofNat = ns.map Json.ofNat → ms = ns := by
    intro ms ns
    refine fun h => List.map_injective_iff.mpr ?_ h
    intro m n hmn
    simpa [Json.ofNat] using hmn
  cases w <;> cases w' <;> simp [wrapperKind] at hkind
  case optional.optional => rfl
  case list.list => simpa [wrapperMembers, Json.ofNat] using h
  case array.array =>
    simp only [wrapperMembers, List.cons.injEq, Prod.mk.injEq, Json.array.injEq, true_and,
      and_true] at h
    rw [hmap h]
  case constrained.constrained => simpa [wrapperMembers] using h

/-- The names of the kinds of leaves are not those of other types. -/
lemma leafKind_ne (c : Leaf) :
    (∀ form, leafKind c ≠ formKind form) ∧ (∀ wrapper, leafKind c ≠ wrapperKind wrapper) ∧
      leafKind c ≠ "hypothesis" := by
  refine ⟨fun form => ?_, fun wrapper => ?_, ?_⟩
  · cases c <;> cases form <;> simp [leafKind, formKind]
  · cases c <;> cases wrapper <;> simp [leafKind, wrapperKind]
  · cases c <;> simp [leafKind]

/-- The names of the kinds of types with members are not those of other types. -/
lemma formKind_ne (form : Form) :
    (∀ wrapper, formKind form ≠ wrapperKind wrapper) ∧ formKind form ≠ "hypothesis" := by
  refine ⟨fun wrapper => ?_, ?_⟩
  · cases form <;> cases wrapper <;> simp [formKind, wrapperKind]
  · cases form <;> decide

/-- The names of the kinds of wrappers are not that of a hypothesis. -/
lemma wrapperKind_ne (wrapper : Wrapper) : wrapperKind wrapper ≠ "hypothesis" := by
  cases wrapper <;> simp [wrapperKind]

/-- The name of the kind of members determines their form. -/
lemma formKind_injective {form form' : Form} (h : formKind form = formKind form') :
    form = form' := by
  cases form <;> cases form' <;> first
    | rfl
    | exact absurd h (by decide)

mutual

/-- **What is written of a type determines it**, up to doubles that are written alike.

**Proof sketch.** Both types are written with kinds of the same name, which settles the
constructor (`leafKind_ne`, `formKind_ne` and `wrapperKind_ne` tell the names apart). The
members of the kind are then compared one by one, and parts by induction. -/
theorem agree_of_toJson : ∀ {t u : Ty}, t.toJson = u.toJson → t.Agree SameText u
  | t, u, h => by
    rw [toJson_eq, toJson_eq] at h
    obtain ⟨hvalue, hinfo⟩ := infoJson_injective h
    have hkind : t.kindName = u.kindName := by
      have := congrArg kindOf? hvalue
      rwa [kindOf?_kindValue, kindOf?_kindValue, Option.some.injEq] at this
    match t, u with
    | .leaf i c, .leaf j d =>
      obtain rfl : i = j := hinfo
      simp only [Agree]
      exact ⟨d, rfl, agree_of_leafJson hvalue⟩
    | .members i form fields, .members j form' fields' =>
      obtain rfl : i = j := hinfo
      obtain rfl := formKind_injective hkind
      simp only [kindValue, kindJson, Json.object.injEq, List.cons.injEq, Prod.mk.injEq,
        Json.array.injEq, true_and, and_true] at hvalue
      simp only [Agree]
      exact ⟨fields', rfl, agree_of_fieldsJson hvalue⟩
    | .wrapped i wrapper inner, .wrapped j wrapper' inner' =>
      obtain rfl : i = j := hinfo
      simp only [kindValue, kindJson, Json.object.injEq, List.cons.injEq, Prod.mk.injEq,
        true_and, and_true] at hvalue
      obtain rfl := wrapperMembers_injective hkind hvalue.2.2
      simp only [Agree]
      exact ⟨inner', rfl, agree_of_toJson hvalue.2.1⟩
    | .hypothesis i types, .hypothesis j types' =>
      obtain rfl : i = j := hinfo
      simp only [kindValue, kindJson, Json.object.injEq, List.cons.injEq, Prod.mk.injEq,
        Json.array.injEq, true_and, and_true] at hvalue
      simp only [Agree]
      exact ⟨types', rfl, agree_of_scoredJson hvalue⟩
    | .leaf _ c, .members _ form _ => exact absurd hkind ((leafKind_ne c).1 form)
    | .leaf _ c, .wrapped _ wrapper _ => exact absurd hkind ((leafKind_ne c).2.1 wrapper)
    | .leaf _ c, .hypothesis _ _ => exact absurd hkind (leafKind_ne c).2.2
    | .members _ form _, .leaf _ c => exact absurd hkind.symm ((leafKind_ne c).1 form)
    | .members _ form _, .wrapped _ wrapper _ => exact absurd hkind ((formKind_ne form).1 wrapper)
    | .members _ form _, .hypothesis _ _ => exact absurd hkind (formKind_ne form).2
    | .wrapped _ wrapper _, .leaf _ c => exact absurd hkind.symm ((leafKind_ne c).2.1 wrapper)
    | .wrapped _ wrapper _, .members _ form _ =>
      exact absurd hkind.symm ((formKind_ne form).1 wrapper)
    | .wrapped _ wrapper _, .hypothesis _ _ => exact absurd hkind (wrapperKind_ne wrapper)
    | .hypothesis _ _, .leaf _ c => exact absurd hkind.symm (leafKind_ne c).2.2
    | .hypothesis _ _, .members _ form _ => exact absurd hkind.symm (formKind_ne form).2
    | .hypothesis _ _, .wrapped _ wrapper _ => exact absurd hkind.symm (wrapperKind_ne wrapper)

/-- What is written of members determines them, up to doubles that are written alike. -/
theorem agree_of_fieldsJson : ∀ {fs gs : List (String × Ty)}, fieldsJson fs = fieldsJson gs →
    AgreeFields SameText fs gs
  | [], [], _ => rfl
  | [], (_, _) :: _, h => by simp [fieldsJson] at h
  | (_, _) :: _, [], h => by simp [fieldsJson] at h
  | (name, t) :: fs, (name', u) :: gs, h => by
    simp only [fieldsJson, List.cons.injEq, Json.array.injEq, Json.string.injEq, and_true] at h
    obtain ⟨⟨rfl, ht⟩, hrest⟩ := h
    simp only [AgreeFields]
    exact ⟨u, gs, rfl, agree_of_toJson ht, agree_of_fieldsJson hrest⟩

/-- What is written of candidates determines them, up to doubles that are written alike. -/
theorem agree_of_scoredJson : ∀ {ts us : List (Ty × Float)}, scoredJson ts = scoredJson us →
    AgreeScored SameText ts us
  | [], [], _ => rfl
  | [], (_, _) :: _, h => by simp [scoredJson] at h
  | (_, _) :: _, [], h => by simp [scoredJson] at h
  | (t, score) :: ts, (u, score') :: us, h => by
    simp only [scoredJson, List.cons.injEq, Json.array.injEq, and_true] at h
    obtain ⟨⟨ht, hscore⟩, hrest⟩ := h
    simp only [AgreeScored]
    exact ⟨u, score', us, rfl, agree_of_toJson ht, hscore, agree_of_scoredJson hrest⟩

end

mutual

/-- Types that agree up to doubles that are written alike are written alike. -/
theorem toJson_of_agree : ∀ {t u : Ty}, t.Agree SameText u → t.toJson = u.toJson
  | .leaf i c, u, h => by
    simp only [Agree] at h
    obtain ⟨d, rfl, hd⟩ := h
    simp only [toJson, leafJson_of_agree hd]
  | .members i form fields, u, h => by
    simp only [Agree] at h
    obtain ⟨fields', rfl, hf⟩ := h
    simp only [toJson, fieldsJson_of_agree hf]
  | .wrapped i wrapper inner, u, h => by
    simp only [Agree] at h
    obtain ⟨inner', rfl, hi⟩ := h
    simp only [toJson, toJson_of_agree hi]
  | .hypothesis i types, u, h => by
    simp only [Agree] at h
    obtain ⟨types', rfl, ht⟩ := h
    simp only [toJson, scoredJson_of_agree ht]

/-- Members that agree up to doubles that are written alike are written alike. -/
theorem fieldsJson_of_agree : ∀ {fs gs : List (String × Ty)}, AgreeFields SameText fs gs →
    fieldsJson fs = fieldsJson gs
  | [], gs, h => by
    simp only [AgreeFields] at h
    rw [h]
  | (name, t) :: rest, gs, h => by
    simp only [AgreeFields] at h
    obtain ⟨u, rest', rfl, ht, hrest⟩ := h
    simp only [fieldsJson, toJson_of_agree ht, fieldsJson_of_agree hrest]

/-- Candidates that agree up to doubles that are written alike are written alike. -/
theorem scoredJson_of_agree : ∀ {ts us : List (Ty × Float)}, AgreeScored SameText ts us →
    scoredJson ts = scoredJson us
  | [], us, h => by
    simp only [AgreeScored] at h
    rw [h]
  | (t, score) :: rest, us, h => by
    simp only [AgreeScored] at h
    obtain ⟨u, score', rest', rfl, ht, hscore, hrest⟩ := h
    have hscore' : Json.ofFloat score = Json.ofFloat score' := hscore
    simp only [scoredJson, toJson_of_agree ht, hscore', scoredJson_of_agree hrest]

end

/-- **Types are written alike exactly when they agree up to doubles that are written alike.** -/
theorem toJson_eq_iff {t u : Ty} : t.toJson = u.toJson ↔ t.Agree SameText u :=
  ⟨agree_of_toJson, toJson_of_agree⟩

/-! ### Written types are finite -/

/-- Kind, name and properties are written without doubles of their own. -/
lemma isFinite_infoJson {kind : Json} {i : Info} (h : kind.isFinite = true) :
    (infoJson kind i).isFinite = true := by
  obtain ⟨name, properties⟩ := i
  cases name <;>
    simp [infoJson, Json.isFinite, Json.areFiniteMembers, Json.optionalMember, h]

/-- A written leaf is finite. -/
lemma isFinite_leafJson (c : Leaf) : (leafJson c).isFinite = true := by
  have hbase : ∀ {α : Type} [DecidableEq α] (choices : List (String × α)) (a : α),
      (choiceName choices a).isFinite = true := by
    intro α _ choices a
    unfold choiceName
    cases (choices.find? fun c => c.2 == a).map Prod.fst <;> rfl
  cases c
  case id unique base reference =>
    cases reference <;>
      simp [leafJson, kindJson, Json.isFinite, Json.areFiniteMembers, Json.optionalMember, hbase,
        Path.isFinite_toJson]
  case enum nameValues ordered =>
    have hvalues := Json.areFinite_map (fun e : String × Int =>
      Json.array [Json.string e.1, Json.int e.2]) nameValues fun _ _ => rfl
    simp [leafJson, kindJson, Json.isFinite, Json.areFiniteMembers, hvalues]
  all_goals
    simp [leafJson, kindJson, Json.isFinite, Json.areFiniteMembers, hbase]

/-- What a wrapper adds is written without doubles. -/
lemma areFiniteMembers_wrapperMembers (w : Wrapper) :
    Json.areFiniteMembers (wrapperMembers w) = true := by
  cases w with
  | array shape =>
    have hshape := Json.areFinite_map Json.ofNat shape fun _ _ => rfl
    simp [wrapperMembers, Json.areFiniteMembers, Json.isFinite, hshape]
  | _ => rfl

mutual

/-- A written type is finite. -/
lemma isFinite_toJson : ∀ t : Ty, t.toJson.isFinite = true
  | .leaf i c => isFinite_infoJson (isFinite_leafJson c)
  | .members i form fields => by
    refine isFinite_infoJson ?_
    simp [kindJson, Json.isFinite, Json.areFiniteMembers, areFinite_fieldsJson fields]
  | .wrapped i wrapper inner => by
    refine isFinite_infoJson ?_
    simp [kindJson, Json.isFinite, Json.areFiniteMembers, isFinite_toJson inner,
      areFiniteMembers_wrapperMembers wrapper]
  | .hypothesis i types => by
    refine isFinite_infoJson ?_
    simp [kindJson, Json.isFinite, Json.areFiniteMembers, areFinite_scoredJson types]

/-- Written members are finite. -/
lemma areFinite_fieldsJson : ∀ fs : List (String × Ty), Json.areFinite (fieldsJson fs) = true
  | [] => rfl
  | (name, t) :: rest => by
    simp [fieldsJson, Json.areFinite, Json.isFinite, isFinite_toJson t, areFinite_fieldsJson rest]

/-- Written candidates are finite. -/
lemma areFinite_scoredJson : ∀ ts : List (Ty × Float), Json.areFinite (scoredJson ts) = true
  | [] => rfl
  | (t, score) :: rest => by
    simp [scoredJson, Json.areFinite, Json.isFinite, isFinite_toJson t, areFinite_scoredJson rest]

end

end Ty

/-! ### Schemas -/

namespace Schema

/-- Two schemas are equal up to a relation on the doubles of their types. -/
def Agree (R : Float → Float → Prop) (s s' : Schema) : Prop :=
  s.name = s'.name ∧ s.ty.Agree R s'.ty ∧ s.protectedPaths = s'.protectedPaths ∧
    s.properties = s'.properties

/-- A schema with other doubles. -/
def mapDoubles (f : Float → Float) (s : Schema) : Schema :=
  ⟨s.name, s.ty.mapDoubles f, s.protectedPaths, s.properties⟩

/-- **Schemas are written alike exactly when they agree up to doubles that are written alike.** -/
theorem toJson_eq_iff {s s' : Schema} : s.toJson = s'.toJson ↔ s.Agree SameText s' := by
  obtain ⟨name, ty, paths, properties⟩ := s
  obtain ⟨name', ty', paths', properties'⟩ := s'
  constructor
  · intro h
    have hkeys : ∀ (n : String) (t : Ty) (ps : List Path), ∀ m ∈
        [("name", Json.string n), ("type", t.toJson)] ++ (if ps.isEmpty then []
          else [("protected_paths", .array (Path.toJsonList ps))]), m.1 ≠ "properties" := by
      intro n t ps m hm
      split at hm <;> simp only [List.cons_append, List.nil_append, List.mem_cons,
        List.not_mem_nil, or_false] at hm
      · rcases hm with rfl | rfl <;> simp
      · rcases hm with rfl | rfl | rfl <;> simp
    obtain ⟨hfront, hproperties⟩ := Json.append_dictMember (hkeys name ty paths)
      (hkeys name' ty' paths') (Json.object.inj h)
    simp only [List.cons_append, List.nil_append, List.cons.injEq, Prod.mk.injEq,
      Json.string.injEq, true_and] at hfront
    obtain ⟨hname, hty, hpaths⟩ := hfront
    refine ⟨hname, Ty.toJson_eq_iff.mp hty, ?_, hproperties⟩
    cases paths <;> cases paths' <;> simp at hpaths ⊢
    exact List.cons.inj (Path.toJsonList_injective hpaths)
  · rintro ⟨hname, hty, hpaths, hproperties⟩
    dsimp only at hname hpaths hproperties
    subst hname hpaths hproperties
    simp only [toJson, Ty.toJson_eq_iff.mpr hty]

/-- A written schema is finite. -/
lemma isFinite_toJson (s : Schema) : s.toJson.isFinite = true := by
  unfold toJson
  split <;> simp [Json.isFinite, Json.areFiniteMembers, Ty.isFinite_toJson,
    Path.areFinite_toJsonList]

end Schema

end Lineage
