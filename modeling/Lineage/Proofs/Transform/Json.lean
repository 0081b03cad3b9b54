import Lineage.Proofs.Ty.Json
import Lineage.Transform.Json

set_option autoImplicit false

/-!
# The written form of a transform identifies it

Like types, transforms are compared up to a relation on the doubles in their types and samples, and
up to a relation on the arguments of external operations. The written form determines a transform
up to doubles that are written alike.

## Main definitions

* `Lineage.SampleSize.Agree`, `Lineage.Step.Agree`, `Lineage.Transform.Agree`: equality up to the
  two relations.
* `Lineage.Transform.mapDoubles`: a transform with other doubles.

## Main results

* `Lineage.Transform.agree_of_toJson`, `Lineage.Transform.toJson_of_agree`: transforms are written
  alike exactly when they agree up to doubles that are written alike.
* `Lineage.Transform.Agree.combine`, `Lineage.Transform.Agree.trans`,
  `Lineage.Transform.agree_eq_iff`, `Lineage.Transform.agree_mapDoubles_iff`: how the relations
  carry over to transforms.
-/

namespace Lineage

/-! ### Transforms up to their doubles and free-form values -/

/-- Two sample sizes are equal up to a relation on fractions. -/
def SampleSize.Agree (R : Float → Float → Prop) : SampleSize → SampleSize → Prop
  | .fraction x, s => ∃ y, s = .fraction y ∧ R x y
  | .size n, s => s = .size n

/-- A sample size with another fraction. -/
def SampleSize.mapDoubles (f : Float → Float) : SampleSize → SampleSize
  | .fraction x => .fraction (f x)
  | .size n => .size n

/-- Two operations are equal up to relations on their doubles and on the arguments of external
ones. -/
def Step.Agree (R : Float → Float → Prop) (S : Json → Json → Prop) : Step → Step → Prop
  | .filter target, s => ∃ target', s = .filter target' ∧ target.Agree R target'
  | .project target, s => ∃ target', s = .project target' ∧ target.Agree R target'
  | .sample size, s => ∃ size', s = .sample size' ∧ size.Agree R size'
  | .differentiatedSample size, s => ∃ size', s = .differentiatedSample size' ∧ size.Agree R size'
  | .external call, s => ∃ v, s = .external ⟨call.library, call.op, v, call.returns⟩ ∧
    S call.arguments v
  | s, s' => s = s'

/-- An operation with other doubles. -/
def Step.mapDoubles (f : Float → Float) : Step → Step
  | .filter target => .filter (target.mapDoubles f)
  | .project target => .project (target.mapDoubles f)
  | .sample size => .sample (size.mapDoubles f)
  | .differentiatedSample size => .differentiatedSample (size.mapDoubles f)
  | s => s

namespace Transform

mutual

/-- Two transforms are equal up to relations on their doubles and on the arguments of external
operations. -/
def Agree (R : Float → Float → Prop) (S : Json → Json → Prop) : Transform → Transform → Prop
  | .step h content, t => ∃ content', t = .step h content' ∧ content.Agree R S content'
  | .variable h position, t => t = .variable h position
  | .composed h head arguments named, t => ∃ head' arguments' named',
    t = .composed h head' arguments' named' ∧ Agree R S head head' ∧
      AgreeList R S arguments arguments' ∧ AgreeNamed R S named named'

/-- Lists of transforms that are equal up to two relations. -/
def AgreeList (R : Float → Float → Prop) (S : Json → Json → Prop) :
    List Transform → List Transform → Prop
  | [], ts => ts = []
  | t :: rest, ts => ∃ t' rest', ts = t' :: rest' ∧ Agree R S t t' ∧ AgreeList R S rest rest'

/-- Named transforms that are equal up to two relations. -/
def AgreeNamed (R : Float → Float → Prop) (S : Json → Json → Prop) :
    List (String × Transform) → List (String × Transform) → Prop
  | [], ts => ts = []
  | (name, t) :: rest, ts =>
    ∃ t' rest', ts = (name, t') :: rest' ∧ Agree R S t t' ∧ AgreeNamed R S rest rest'

end

mutual

/-- A transform with other doubles. -/
def mapDoubles (f : Float → Float) : Transform → Transform
  | .step h content => .step h (content.mapDoubles f)
  | .variable h position => .variable h position
  | .composed h head arguments named =>
    .composed h (mapDoubles f head) (mapDoublesList f arguments) (mapDoublesNamed f named)

/-- Transforms with other doubles. -/
def mapDoublesList (f : Float → Float) : List Transform → List Transform
  | [] => []
  | t :: rest => mapDoubles f t :: mapDoublesList f rest

/-- Named transforms with other doubles. -/
def mapDoublesNamed (f : Float → Float) : List (String × Transform) → List (String × Transform)
  | [] => []
  | (name, t) :: rest => (name, mapDoubles f t) :: mapDoublesNamed f rest

end

end Transform

variable {R T U : Float → Float → Prop} {S V W : Json → Json → Prop}

/-! ### How the relations carry over -/

/-- Two relations between the fractions of sample sizes, taken together. -/
lemma SampleSize.Agree.combine (hR : ∀ x y, R x y → T x y → U x y) {s u : SampleSize}
    (h : s.Agree R u) (h' : s.Agree T u) : s.Agree U u := by
  cases s with
  | fraction x =>
    obtain ⟨y, rfl, hy⟩ := h
    obtain ⟨y', heq, hy'⟩ := h'
    cases heq
    exact ⟨_, rfl, hR _ _ hy hy'⟩
  | size n => exact h

/-- Two pairs of relations between operations, taken together. -/
lemma Step.Agree.combine (hR : ∀ x y, R x y → T x y → U x y)
    (hS : ∀ v w, S v w → V v w → W v w) {s u : Step} (h : s.Agree R S u)
    (h' : s.Agree T V u) : s.Agree U W u := by
  cases s with
  | filter target =>
    obtain ⟨target', rfl, ht⟩ := h
    obtain ⟨target'', heq, ht'⟩ := h'
    cases heq
    exact ⟨_, rfl, ht.combine hR ht'⟩
  | project target =>
    obtain ⟨target', rfl, ht⟩ := h
    obtain ⟨target'', heq, ht'⟩ := h'
    cases heq
    exact ⟨_, rfl, ht.combine hR ht'⟩
  | sample size =>
    obtain ⟨size', rfl, hs⟩ := h
    obtain ⟨size'', heq, hs'⟩ := h'
    cases heq
    exact ⟨_, rfl, hs.combine hR hs'⟩
  | differentiatedSample size =>
    obtain ⟨size', rfl, hs⟩ := h
    obtain ⟨size'', heq, hs'⟩ := h'
    cases heq
    exact ⟨_, rfl, hs.combine hR hs'⟩
  | external call =>
    obtain ⟨v, rfl, hv⟩ := h
    obtain ⟨v', heq, hv'⟩ := h'
    cases heq
    exact ⟨_, rfl, hS _ _ hv hv'⟩
  | _ => exact h

namespace Transform

mutual

/-- **Two pairs of relations between transforms, taken together.** -/
theorem Agree.combine (hR : ∀ x y, R x y → T x y → U x y)
    (hS : ∀ v w, S v w → V v w → W v w) :
    ∀ {t u : Transform}, t.Agree R S u → t.Agree T V u → t.Agree U W u
  | .step heading content, u, h, h' => by
    simp only [Agree] at h h' ⊢
    obtain ⟨content', rfl, hc⟩ := h
    obtain ⟨content'', heq, hc'⟩ := h'
    cases heq
    exact ⟨_, rfl, hc.combine hR hS hc'⟩
  | .variable heading position, u, h, _ => by
    simpa only [Agree] using h
  | .composed heading head arguments named, u, h, h' => by
    simp only [Agree] at h h' ⊢
    obtain ⟨head', arguments', named', rfl, hh, ha, hn⟩ := h
    obtain ⟨head'', arguments'', named'', heq, hh', ha', hn'⟩ := h'
    cases heq
    exact ⟨_, _, _, rfl, Agree.combine hR hS hh hh', AgreeList.combine hR hS ha ha',
      AgreeNamed.combine hR hS hn hn'⟩

/-- Two pairs of relations between lists of transforms, taken together. -/
theorem AgreeList.combine (hR : ∀ x y, R x y → T x y → U x y)
    (hS : ∀ v w, S v w → V v w → W v w) :
    ∀ {ts us : List Transform}, AgreeList R S ts us → AgreeList T V ts us →
      AgreeList U W ts us
  | [], us, h, _ => by simpa only [AgreeList] using h
  | t :: rest, us, h, h' => by
    simp only [AgreeList] at h h' ⊢
    obtain ⟨t', rest', rfl, ht, hrest⟩ := h
    obtain ⟨t'', rest'', heq, ht', hrest'⟩ := h'
    cases heq
    exact ⟨_, _, rfl, Agree.combine hR hS ht ht', AgreeList.combine hR hS hrest hrest'⟩

/-- Two pairs of relations between named transforms, taken together. -/
theorem AgreeNamed.combine (hR : ∀ x y, R x y → T x y → U x y)
    (hS : ∀ v w, S v w → V v w → W v w) :
    ∀ {ts us : List (String × Transform)}, AgreeNamed R S ts us → AgreeNamed T V ts us →
      AgreeNamed U W ts us
  | [], us, h, _ => by simpa only [AgreeNamed] using h
  | (name, t) :: rest, us, h, h' => by
    simp only [AgreeNamed] at h h' ⊢
    obtain ⟨t', rest', rfl, ht, hrest⟩ := h
    obtain ⟨t'', rest'', heq, ht', hrest'⟩ := h'
    cases heq
    exact ⟨_, _, rfl, Agree.combine hR hS ht ht', AgreeNamed.combine hR hS hrest hrest'⟩

end

end Transform

/-- Relations between the fractions of sample sizes, one after the other. -/
lemma SampleSize.Agree.trans (hR : ∀ x y z, R x y → T y z → U x z) {s u v : SampleSize}
    (h : s.Agree R u) (h' : u.Agree T v) : s.Agree U v := by
  cases s with
  | fraction x =>
    obtain ⟨y, rfl, hy⟩ := h
    obtain ⟨z, rfl, hz⟩ := h'
    exact ⟨_, rfl, hR _ _ _ hy hz⟩
  | size n =>
    simp only [SampleSize.Agree] at h
    subst h
    exact h'

/-- Pairs of relations between operations, one after the other. -/
lemma Step.Agree.trans (hR : ∀ x y z, R x y → T y z → U x z)
    (hS : ∀ v w x, S v w → V w x → W v x) {s u v : Step} (h : s.Agree R S u)
    (h' : u.Agree T V v) : s.Agree U W v := by
  cases s with
  | filter target =>
    obtain ⟨target', rfl, ht⟩ := h
    obtain ⟨target'', rfl, ht'⟩ := h'
    exact ⟨_, rfl, ht.trans hR ht'⟩
  | project target =>
    obtain ⟨target', rfl, ht⟩ := h
    obtain ⟨target'', rfl, ht'⟩ := h'
    exact ⟨_, rfl, ht.trans hR ht'⟩
  | sample size =>
    obtain ⟨size', rfl, hs⟩ := h
    obtain ⟨size'', rfl, hs'⟩ := h'
    exact ⟨_, rfl, hs.trans hR hs'⟩
  | differentiatedSample size =>
    obtain ⟨size', rfl, hs⟩ := h
    obtain ⟨size'', rfl, hs'⟩ := h'
    exact ⟨_, rfl, hs.trans hR hs'⟩
  | external call =>
    obtain ⟨v, rfl, hv⟩ := h
    obtain ⟨v', rfl, hv'⟩ := h'
    exact ⟨_, rfl, hS _ _ _ hv hv'⟩
  | _ =>
    simp only [Step.Agree] at h
    subst h
    exact h'

namespace Transform

mutual

/-- **Pairs of relations between transforms, one after the other.** -/
theorem Agree.trans (hR : ∀ x y z, R x y → T y z → U x z)
    (hS : ∀ v w x, S v w → V w x → W v x) :
    ∀ {t u v : Transform}, t.Agree R S u → u.Agree T V v → t.Agree U W v
  | .step heading content, u, v, h, h' => by
    simp only [Agree] at h ⊢
    obtain ⟨content', rfl, hc⟩ := h
    simp only [Agree] at h'
    obtain ⟨content'', rfl, hc'⟩ := h'
    exact ⟨_, rfl, hc.trans hR hS hc'⟩
  | .variable heading position, u, v, h, h' => by
    simp only [Agree] at h ⊢
    subst h
    simpa only [Agree] using h'
  | .composed heading head arguments named, u, v, h, h' => by
    simp only [Agree] at h ⊢
    obtain ⟨head', arguments', named', rfl, hh, ha, hn⟩ := h
    simp only [Agree] at h'
    obtain ⟨head'', arguments'', named'', rfl, hh', ha', hn'⟩ := h'
    exact ⟨_, _, _, rfl, Agree.trans hR hS hh hh', AgreeList.trans hR hS ha ha',
      AgreeNamed.trans hR hS hn hn'⟩

/-- Pairs of relations between lists of transforms, one after the other. -/
theorem AgreeList.trans (hR : ∀ x y z, R x y → T y z → U x z)
    (hS : ∀ v w x, S v w → V w x → W v x) :
    ∀ {ts us vs : List Transform}, AgreeList R S ts us → AgreeList T V us vs →
      AgreeList U W ts vs
  | [], us, vs, h, h' => by
    simp only [AgreeList] at h
    subst h
    simpa only [AgreeList] using h'
  | t :: rest, us, vs, h, h' => by
    simp only [AgreeList] at h ⊢
    obtain ⟨t', rest', rfl, ht, hrest⟩ := h
    simp only [AgreeList] at h'
    obtain ⟨t'', rest'', rfl, ht', hrest'⟩ := h'
    exact ⟨_, _, rfl, Agree.trans hR hS ht ht', AgreeList.trans hR hS hrest hrest'⟩

/-- Pairs of relations between named transforms, one after the other. -/
theorem AgreeNamed.trans (hR : ∀ x y z, R x y → T y z → U x z)
    (hS : ∀ v w x, S v w → V w x → W v x) :
    ∀ {ts us vs : List (String × Transform)}, AgreeNamed R S ts us → AgreeNamed T V us vs →
      AgreeNamed U W ts vs
  | [], us, vs, h, h' => by
    simp only [AgreeNamed] at h
    subst h
    simpa only [AgreeNamed] using h'
  | (name, t) :: rest, us, vs, h, h' => by
    simp only [AgreeNamed] at h ⊢
    obtain ⟨t', rest', rfl, ht, hrest⟩ := h
    simp only [AgreeNamed] at h'
    obtain ⟨t'', rest'', rfl, ht', hrest'⟩ := h'
    exact ⟨_, _, rfl, Agree.trans hR hS ht ht', AgreeNamed.trans hR hS hrest hrest'⟩

end

end Transform

/-- Sample sizes whose fractions are equal are equal. -/
lemma SampleSize.agree_eq_iff {s u : SampleSize} : s.Agree Eq u ↔ s = u := by
  cases s <;> simp only [SampleSize.Agree]
  · exact ⟨fun ⟨_, h, h'⟩ => h' ▸ h.symm, fun h => ⟨_, h.symm, rfl⟩⟩
  · exact eq_comm

/-- Operations whose doubles and free-form values are equal are equal. -/
lemma Step.agree_eq_iff {s u : Step} : s.Agree Eq Eq u ↔ s = u := by
  cases s with
  | filter target =>
    simp only [Step.Agree, Ty.agree_eq_iff]
    exact ⟨fun ⟨_, h, h'⟩ => h' ▸ h.symm, fun h => ⟨_, h.symm, rfl⟩⟩
  | project target =>
    simp only [Step.Agree, Ty.agree_eq_iff]
    exact ⟨fun ⟨_, h, h'⟩ => h' ▸ h.symm, fun h => ⟨_, h.symm, rfl⟩⟩
  | sample size =>
    simp only [Step.Agree, SampleSize.agree_eq_iff]
    exact ⟨fun ⟨_, h, h'⟩ => h' ▸ h.symm, fun h => ⟨_, h.symm, rfl⟩⟩
  | differentiatedSample size =>
    simp only [Step.Agree, SampleSize.agree_eq_iff]
    exact ⟨fun ⟨_, h, h'⟩ => h' ▸ h.symm, fun h => ⟨_, h.symm, rfl⟩⟩
  | external call =>
    simp only [Step.Agree]
    exact ⟨fun ⟨_, h, h'⟩ => by rw [h, ← h'], fun h => ⟨_, h.symm, rfl⟩⟩
  | _ => exact Iff.rfl

namespace Transform

mutual

/-- **Transforms whose doubles and free-form values are equal are equal.** -/
theorem agree_eq_iff : ∀ {t u : Transform}, t.Agree Eq Eq u ↔ t = u
  | .step heading content, u => by
    simp only [Agree, Step.agree_eq_iff]
    exact ⟨fun ⟨_, h, h'⟩ => h' ▸ h.symm, fun h => ⟨_, h.symm, rfl⟩⟩
  | .variable heading position, u => by
    simp only [Agree]
    exact eq_comm
  | .composed heading head arguments named, u => by
    simp only [Agree, agree_eq_iff, agreeList_eq_iff, agreeNamed_eq_iff]
    exact ⟨fun ⟨_, _, _, h, h', h'', h'''⟩ => by rw [h, h', h'', h'''],
      fun h => ⟨_, _, _, h.symm, rfl, rfl, rfl⟩⟩

/-- Lists of transforms whose doubles and free-form values are equal are equal. -/
theorem agreeList_eq_iff : ∀ {ts us : List Transform}, AgreeList Eq Eq ts us ↔ ts = us
  | [], us => by
    simp only [AgreeList]
    exact eq_comm
  | t :: rest, us => by
    simp only [AgreeList, agree_eq_iff, agreeList_eq_iff]
    exact ⟨fun ⟨_, _, h, h', h''⟩ => by rw [h, h', h''], fun h => ⟨_, _, h.symm, rfl, rfl⟩⟩

/-- Named transforms whose doubles and free-form values are equal are equal. -/
theorem agreeNamed_eq_iff :
    ∀ {ts us : List (String × Transform)}, AgreeNamed Eq Eq ts us ↔ ts = us
  | [], us => by
    simp only [AgreeNamed]
    exact eq_comm
  | (name, t) :: rest, us => by
    simp only [AgreeNamed, agree_eq_iff, agreeNamed_eq_iff]
    exact ⟨fun ⟨_, _, h, h', h''⟩ => by rw [h, h', h''], fun h => ⟨_, _, h.symm, rfl, rfl⟩⟩

end

end Transform

/-- Two images of a sample size are related as the images of its fraction are. -/
lemma SampleSize.agree_mapDoubles_iff (f g : Float → Float) (s : SampleSize) :
    (s.mapDoubles f).Agree R (s.mapDoubles g) ↔ s.Agree (fun x _ => R (f x) (g x)) s := by
  cases s <;> simp [SampleSize.Agree, SampleSize.mapDoubles]

/-- Two images of an operation are related as the images of its doubles are. -/
lemma Step.agree_mapDoubles_iff (f g : Float → Float) (s : Step) :
    (s.mapDoubles f).Agree R S (s.mapDoubles g) ↔ s.Agree (fun x _ => R (f x) (g x)) S s := by
  cases s <;> simp [Step.Agree, Step.mapDoubles, Ty.agree_mapDoubles_iff,
    SampleSize.agree_mapDoubles_iff]

/-- A sample size with its own fraction. -/
@[simp]
lemma SampleSize.mapDoubles_id (s : SampleSize) : s.mapDoubles (fun x => x) = s := by
  cases s <;> rfl

/-- An operation with its own doubles. -/
@[simp]
lemma Step.mapDoubles_id (s : Step) : s.mapDoubles (fun x => x) = s := by
  cases s <;> simp [Step.mapDoubles]

namespace Transform

mutual

/-- **Two images of a transform are related as the images of its doubles are.** -/
theorem agree_mapDoubles_iff (f g : Float → Float) : ∀ t : Transform,
    (t.mapDoubles f).Agree R S (t.mapDoubles g) ↔ t.Agree (fun x _ => R (f x) (g x)) S t
  | .step heading content => by
    simp only [Agree, mapDoubles, step.injEq, true_and, exists_eq_left',
      Step.agree_mapDoubles_iff f g content]
  | .variable heading position => by simp only [Agree, mapDoubles]
  | .composed heading head arguments named => by
    simp only [Agree, mapDoubles, composed.injEq, true_and, and_assoc, exists_and_left,
      exists_eq_left', agree_mapDoubles_iff f g head, agreeList_mapDoubles_iff f g arguments,
      agreeNamed_mapDoubles_iff f g named]

/-- Two images of transforms are related as the images of their doubles are. -/
theorem agreeList_mapDoubles_iff (f g : Float → Float) : ∀ ts : List Transform,
    AgreeList R S (mapDoublesList f ts) (mapDoublesList g ts) ↔
      AgreeList (fun x _ => R (f x) (g x)) S ts ts
  | [] => by simp only [AgreeList, mapDoublesList]
  | t :: rest => by
    simp only [AgreeList, mapDoublesList, List.cons.injEq, and_assoc, exists_and_left,
      exists_eq_left', agree_mapDoubles_iff f g t, agreeList_mapDoubles_iff f g rest]

/-- Two images of named transforms are related as the images of their doubles are. -/
theorem agreeNamed_mapDoubles_iff (f g : Float → Float) : ∀ ts : List (String × Transform),
    AgreeNamed R S (mapDoublesNamed f ts) (mapDoublesNamed g ts) ↔
      AgreeNamed (fun x _ => R (f x) (g x)) S ts ts
  | [] => by simp only [AgreeNamed, mapDoublesNamed]
  | (name, t) :: rest => by
    simp only [AgreeNamed, mapDoublesNamed, List.cons.injEq, Prod.mk.injEq, true_and, and_assoc,
      exists_and_left, exists_eq_left', agree_mapDoubles_iff f g t,
      agreeNamed_mapDoubles_iff f g rest]

end

mutual

/-- A transform with its own doubles. -/
theorem mapDoubles_id : ∀ t : Transform, t.mapDoubles (fun x => x) = t
  | .step heading content => by simp only [mapDoubles, Step.mapDoubles_id]
  | .variable heading position => rfl
  | .composed heading head arguments named => by
    simp only [mapDoubles, mapDoubles_id head, mapDoublesList_id arguments,
      mapDoublesNamed_id named]

/-- Transforms with their own doubles. -/
theorem mapDoublesList_id : ∀ ts : List Transform, mapDoublesList (fun x => x) ts = ts
  | [] => rfl
  | t :: rest => by simp only [mapDoublesList, mapDoubles_id t, mapDoublesList_id rest]

/-- Named transforms with their own doubles. -/
theorem mapDoublesNamed_id : ∀ ts : List (String × Transform), mapDoublesNamed (fun x => x) ts = ts
  | [] => rfl
  | (name, t) :: rest => by
    simp only [mapDoublesNamed, mapDoubles_id t, mapDoublesNamed_id rest]

end

end Transform

/-! ### The written form -/

/-- Sample sizes are written alike exactly when they agree up to doubles that are written alike. -/
lemma SampleSize.toJson_eq_iff {s u : SampleSize} : s.toJson = u.toJson ↔ s.Agree SameText u := by
  cases s <;> cases u <;> simp [SampleSize.toJson, SampleSize.Agree, SameText, Json.ofNat, eq_comm]

/-- A written operation tells the name of its kind. -/
lemma Step.kindOf?_toJson (s : Step) : Ty.kindOf? s.toJson = some s.kindName := by
  cases s <;> rfl

/-- Kinds of nodes are written differently. -/
lemma NodeKind.toJson_injective {k k' : NodeKind} (h : k.toJson = k'.toJson) : k = k' := by
  cases k <;> cases k' <;> first
    | rfl
    | exact absurd (Json.string.inj h) (by decide)

/-- What is written of an operation determines it, up to doubles that are written alike. -/
lemma Step.agree_of_toJson {s u : Step} (h : s.toJson = u.toJson) : s.Agree SameText Eq u := by
  have hkind : s.kindName = u.kindName := by
    have := congrArg Ty.kindOf? h
    rwa [Step.kindOf?_toJson, Step.kindOf?_toJson, Option.some.injEq] at this
  -- Operations of one kind have the same members, and these are compared one by one.
  cases s <;> cases u <;> simp [Step.kindName] at hkind
  case shuffle.shuffle => rfl
  all_goals
    simp only [Step.toJson, Step.members, Step.kindName, Json.object.injEq, List.cons.injEq,
      Prod.mk.injEq, Json.string.injEq, Json.int.injEq, Json.ofNat, Int.natCast_inj, true_and,
      and_true] at h
  case filter.filter => exact ⟨_, rfl, Ty.toJson_eq_iff.mp h⟩
  case project.project => exact ⟨_, rfl, Ty.toJson_eq_iff.mp h⟩
  case getItem.getItem =>
    obtain rfl := Path.toJson_injective h
    rfl
  case sample.sample => exact ⟨_, rfl, SampleSize.toJson_eq_iff.mp h⟩
  case slice.slice =>
    obtain ⟨rfl, rfl⟩ := h
    rfl
  case extract.extract =>
    obtain ⟨rfl, rfl⟩ := h
    rfl
  case selectSql.selectSql =>
    subst h
    rfl
  case differentiatedSample.differentiatedSample =>
    exact ⟨_, rfl, SampleSize.toJson_eq_iff.mp h⟩
  case external.external call call' =>
    obtain ⟨library, op, arguments, returns⟩ := call
    obtain ⟨library', op', arguments', returns'⟩ := call'
    obtain ⟨hl, ho, ha, hr⟩ := h
    dsimp only at hl ho ha hr
    rw [hl, ho, NodeKind.toJson_injective hr]
    exact ⟨arguments', rfl, ha⟩

/-- Operations that agree up to doubles that are written alike are written alike. -/
lemma Step.toJson_of_agree {s u : Step} (h : s.Agree SameText Eq u) : s.toJson = u.toJson := by
  cases s with
  | filter target =>
    obtain ⟨target', rfl, ht⟩ := h
    simp only [Step.toJson, Step.members, Step.kindName, Ty.toJson_eq_iff.mpr ht]
  | project target =>
    obtain ⟨target', rfl, ht⟩ := h
    simp only [Step.toJson, Step.members, Step.kindName, Ty.toJson_eq_iff.mpr ht]
  | sample size =>
    obtain ⟨size', rfl, hs⟩ := h
    simp only [Step.toJson, Step.members, Step.kindName, SampleSize.toJson_eq_iff.mpr hs]
  | differentiatedSample size =>
    obtain ⟨size', rfl, hs⟩ := h
    simp only [Step.toJson, Step.members, Step.kindName, SampleSize.toJson_eq_iff.mpr hs]
  | external call =>
    obtain ⟨v, rfl, hv⟩ := h
    rw [← hv]
  | _ => exact congrArg Step.toJson h

namespace Transform

/-- Operation and heading are determined by how they are written. -/
lemma headingJson_injective {spec spec' : Json} {h h' : Heading}
    (heq : headingJson spec h = headingJson spec' h') : spec = spec' ∧ h = h' := by
  obtain ⟨name, doc, properties⟩ := h
  obtain ⟨name', doc', properties'⟩ := h'
  have hkeys : ∀ (n d : String) (s : Json), ∀ m ∈ [("name", Json.string n)] ++
      (if d = "" then [] else [("doc", Json.string d)]) ++ [("spec", s)], m.1 ≠ "properties" := by
    intro n d s m hm
    split at hm <;> simp only [List.cons_append, List.nil_append, List.append_nil, List.mem_cons,
      List.not_mem_nil, or_false] at hm
    · rcases hm with rfl | rfl <;> simp
    · rcases hm with rfl | rfl | rfl <;> simp
  obtain ⟨hfront, rfl⟩ := Json.append_dictMember (hkeys name doc spec) (hkeys name' doc' spec')
    (Json.object.inj heq)
  by_cases hd : doc = "" <;> by_cases hd' : doc' = "" <;> simp [hd, hd'] at hfront ⊢ <;>
    simp [hfront]

/-- The written operation of a transform. -/
def specJson : Transform → Json
  | .step _ content => content.toJson
  | .variable _ position => .object [("variable", .object [("position", position.toJson)])]
  | .composed _ head arguments named =>
    .object [("composed", .object
      [("transform", head.toJson), ("arguments", .array (listJson arguments)),
        ("named_arguments", .object (namedJson named))])]

/-- A written transform: its operation and its heading. -/
lemma toJson_eq (t : Transform) : t.toJson = headingJson t.specJson t.heading := by
  cases t <;> simp only [toJson, specJson, heading]

/-- A written transform tells the name of its kind. -/
lemma kindOf?_specJson (t : Transform) : Ty.kindOf? t.specJson = some t.kindName := by
  cases t with
  | step h content => exact content.kindOf?_toJson
  | _ => rfl

/-- The kinds of operations are not those of other transforms. -/
lemma stepKind_ne (s : Step) : s.kindName ≠ "variable" ∧ s.kindName ≠ "composed" := by
  cases s <;> simp [Step.kindName]

mutual

/-- **What is written of a transform determines it**, up to doubles that are written alike.

**Proof sketch.** As for types: the names of the kinds settle what the two transforms are, and
what is written under the kind is then compared member by member, with induction for head and
arguments. -/
theorem agree_of_toJson : ∀ {t u : Transform}, t.toJson = u.toJson → t.Agree SameText Eq u
  | t, u, h => by
    rw [toJson_eq, toJson_eq] at h
    obtain ⟨hspec, hheading⟩ := headingJson_injective h
    have hkind : t.kindName = u.kindName := by
      have := congrArg Ty.kindOf? hspec
      rwa [kindOf?_specJson, kindOf?_specJson, Option.some.injEq] at this
    match t, u with
    | .step h content, .step h' content' =>
      obtain rfl : h = h' := hheading
      simp only [Agree]
      exact ⟨content', rfl, Step.agree_of_toJson hspec⟩
    | .variable h position, .variable h' position' =>
      obtain rfl : h = h' := hheading
      simp only [specJson, Json.object.injEq, List.cons.injEq, Prod.mk.injEq, true_and,
        and_true] at hspec
      obtain rfl : position = position' := by
        cases position <;> cases position' <;>
          simp [Position.toJson, Json.ofNat] at hspec ⊢ <;> exact hspec
      simp only [Agree]
    | .composed h head arguments named, .composed h' head' arguments' named' =>
      obtain rfl : h = h' := hheading
      simp only [specJson, Json.object.injEq, List.cons.injEq, Prod.mk.injEq, Json.array.injEq,
        true_and, and_true] at hspec
      simp only [Agree]
      exact ⟨_, _, _, rfl, agree_of_toJson hspec.1, agree_of_listJson hspec.2.1,
        agree_of_namedJson hspec.2.2⟩
    | .step _ content, .variable _ _ => exact absurd hkind (stepKind_ne content).1
    | .step _ content, .composed _ _ _ _ => exact absurd hkind (stepKind_ne content).2
    | .variable _ _, .step _ content => exact absurd hkind.symm (stepKind_ne content).1
    | .variable _ _, .composed _ _ _ _ => exact absurd hkind (by simp [kindName])
    | .composed _ _ _ _, .step _ content => exact absurd hkind.symm (stepKind_ne content).2
    | .composed _ _ _ _, .variable _ _ => exact absurd hkind (by simp [kindName])

/-- What is written of transforms determines them, up to doubles that are written alike. -/
theorem agree_of_listJson : ∀ {ts us : List Transform}, listJson ts = listJson us →
    AgreeList SameText Eq ts us
  | [], [], _ => by simp only [AgreeList]
  | [], _ :: _, h => by simp [listJson] at h
  | _ :: _, [], h => by simp [listJson] at h
  | t :: ts, u :: us, h => by
    simp only [listJson, List.cons.injEq] at h
    simp only [AgreeList]
    exact ⟨u, us, rfl, agree_of_toJson h.1, agree_of_listJson h.2⟩

/-- What is written of named transforms determines them, up to doubles that are written alike. -/
theorem agree_of_namedJson : ∀ {ts us : List (String × Transform)}, namedJson ts = namedJson us →
    AgreeNamed SameText Eq ts us
  | [], [], _ => by simp only [AgreeNamed]
  | [], (_, _) :: _, h => by simp [namedJson] at h
  | (_, _) :: _, [], h => by simp [namedJson] at h
  | (name, t) :: ts, (name', u) :: us, h => by
    simp only [namedJson, List.cons.injEq, Prod.mk.injEq] at h
    obtain ⟨⟨rfl, ht⟩, hrest⟩ := h
    simp only [AgreeNamed]
    exact ⟨u, us, rfl, agree_of_toJson ht, agree_of_namedJson hrest⟩

end

mutual

/-- Transforms that agree up to doubles that are written alike are written alike. -/
theorem toJson_of_agree : ∀ {t u : Transform}, t.Agree SameText Eq u → t.toJson = u.toJson
  | .step h content, u, hu => by
    simp only [Agree] at hu
    obtain ⟨content', rfl, hc⟩ := hu
    simp only [toJson, Step.toJson_of_agree hc]
  | .variable h position, u, hu => by
    simp only [Agree] at hu
    rw [hu]
  | .composed h head arguments named, u, hu => by
    simp only [Agree] at hu
    obtain ⟨head', arguments', named', rfl, hh, ha, hn⟩ := hu
    simp only [toJson, toJson_of_agree hh, listJson_of_agree ha, namedJson_of_agree hn]

/-- Lists of transforms that agree up to doubles that are written alike are written alike. -/
theorem listJson_of_agree : ∀ {ts us : List Transform}, AgreeList SameText Eq ts us →
    listJson ts = listJson us
  | [], us, h => by
    simp only [AgreeList] at h
    rw [h]
  | t :: rest, us, h => by
    simp only [AgreeList] at h
    obtain ⟨u, rest', rfl, ht, hrest⟩ := h
    simp only [listJson, toJson_of_agree ht, listJson_of_agree hrest]

/-- Named transforms that agree up to doubles that are written alike are written alike. -/
theorem namedJson_of_agree : ∀ {ts us : List (String × Transform)}, AgreeNamed SameText Eq ts us →
    namedJson ts = namedJson us
  | [], us, h => by
    simp only [AgreeNamed] at h
    rw [h]
  | (name, t) :: rest, us, h => by
    simp only [AgreeNamed] at h
    obtain ⟨u, rest', rfl, ht, hrest⟩ := h
    simp only [namedJson, toJson_of_agree ht, namedJson_of_agree hrest]

end

end Transform

/-! ### Written nodes are finite -/

/-- A written sample size is finite. -/
lemma SampleSize.isFinite_toJson (s : SampleSize) : s.toJson.isFinite = true := by
  cases s <;> simp [SampleSize.toJson, Json.isFinite, Json.areFiniteMembers, Json.ofNat]

/-- A written operation is finite if the arguments of external operations are. -/
lemma Step.isFinite_toJson {s : Step} (h : s.Agree R (fun v _ => v.isFinite = true) s) :
    s.toJson.isFinite = true := by
  cases s
  case external call =>
    obtain ⟨v, heq, hv⟩ := h
    have hreturns : call.returns.toJson.isFinite = true := by
      cases call.returns <;> rfl
    simp [Step.toJson, Step.members, Json.isFinite, Json.areFiniteMembers, hv, hreturns]
  all_goals
    simp [Step.toJson, Step.members, Json.isFinite, Json.areFiniteMembers, Ty.isFinite_toJson,
      Path.isFinite_toJson, Json.ofNat, SampleSize.isFinite_toJson]

namespace Transform

/-- Operation and heading are written without doubles of their own. -/
lemma isFinite_headingJson {spec : Json} (h : Heading) (hs : spec.isFinite = true) :
    (headingJson spec h).isFinite = true := by
  unfold headingJson
  split <;> simp [Json.isFinite, Json.areFiniteMembers, hs]

mutual

/-- A written transform is finite if the arguments of external operations are. -/
lemma isFinite_toJson : ∀ {t : Transform}, t.Agree R (fun v _ => v.isFinite = true) t →
    t.toJson.isFinite = true
  | .step h content, ht => by
    simp only [Agree, step.injEq, true_and, exists_eq_left'] at ht
    exact isFinite_headingJson h (Step.isFinite_toJson ht)
  | .variable h position, _ => by
    refine isFinite_headingJson h ?_
    cases position <;>
      simp [Json.isFinite, Json.areFiniteMembers, Position.toJson, Json.ofNat]
  | .composed h head arguments named, ht => by
    simp only [Agree, composed.injEq, true_and, and_assoc, exists_and_left, exists_eq_left'] at ht
    refine isFinite_headingJson h ?_
    simp [Json.isFinite, Json.areFiniteMembers, isFinite_toJson ht.1, areFinite_listJson ht.2.1,
      areFiniteMembers_namedJson ht.2.2]

/-- Written transforms are finite if the arguments of external operations are. -/
lemma areFinite_listJson : ∀ {ts : List Transform},
    AgreeList R (fun v _ => v.isFinite = true) ts ts → Json.areFinite (listJson ts) = true
  | [], _ => rfl
  | t :: rest, h => by
    simp only [AgreeList, List.cons.injEq, and_assoc, exists_and_left, exists_eq_left'] at h
    simp [listJson, Json.areFinite, isFinite_toJson h.1, areFinite_listJson h.2]

/-- Written named transforms are finite if the arguments of external operations are. -/
lemma areFiniteMembers_namedJson : ∀ {ts : List (String × Transform)},
    AgreeNamed R (fun v _ => v.isFinite = true) ts ts →
      Json.areFiniteMembers (namedJson ts) = true
  | [], _ => rfl
  | (name, t) :: rest, h => by
    simp only [AgreeNamed, List.cons.injEq, Prod.mk.injEq, true_and, and_assoc, exists_and_left,
      exists_eq_left'] at h
    simp [namedJson, Json.areFiniteMembers, isFinite_toJson h.1, areFiniteMembers_namedJson h.2]

end

end Transform

end Lineage
