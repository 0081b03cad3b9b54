import Lineage.Proofs.Outcome

set_option autoImplicit false

/-!
# Computations that treat rows on their own

A computation on a list of rows treats them on their own if it gives one result for every row, and
the same for the parts of a list as for the whole. Then it does not matter in which batches the
rows come.

## Main definitions

* `Lineage.Rowwise`: computations that treat rows on their own.
* `Lineage.Framed`: the same with something besides the results that does not depend on the rows,
  like the type of a column.
* `Lineage.Columnwise`: computations of several results for every row, given column by column.

## Main results

* `Lineage.Framed.append`: the result on two parts of a list.
* `Lineage.Columnwise.sideBySide`: results put side by side.
* `Lineage.zipIdx_map_joinParts`: rows put together from columns.
-/

namespace Lineage

variable {α β γ κ τ : Type}

/-- A computation on rows gives a result for every row, and treats the parts of a list on their
own. -/
structure Rowwise (g : List α → Outcome (List β)) : Prop where
  /-- There is a result for every row. -/
  length : ∀ {a x}, g a = .ok x → x.length = a.length
  /-- The parts of a list are treated on their own. -/
  append : ∀ {a b z}, g (a ++ b) = .ok z ↔ ∃ x y, g a = .ok x ∧ g b = .ok y ∧ z = x ++ y

namespace Rowwise

variable {g : List α → Outcome (List β)}

/-- A computation that comes to the same. -/
lemma congr (hg : Rowwise g) {h : List α → Outcome (List β)} (heq : ∀ a, h a = g a) : Rowwise h :=
  funext heq ▸ hg

/-- A result for every row that cannot fail. -/
lemma ofMap (f : α → β) : Rowwise fun a => (.ok (a.map f) : Outcome (List β)) where
  length h := by
    cases h
    exact List.length_map f
  append {a b z} := by
    simp only [List.map_append, Except.ok.injEq]
    constructor
    · rintro rfl
      exact ⟨_, _, rfl, rfl, rfl⟩
    · rintro ⟨x, y, rfl, rfl, rfl⟩
      rfl

/-- A computation that always fails. -/
lemma ofError (fault : Fault) : Rowwise fun _ : List α => (.error fault : Outcome (List β)) where
  length h := by cases h
  append := by simp

/-- A result for every row that may fail. -/
lemma ofMapM (f : α → Outcome β) : Rowwise fun a => a.mapM f where
  length h := (Outcome.mapM_eq_ok.mp h).length_eq.symm
  append {a b z} := by
    rw [List.mapM_append, Outcome.bind_eq_ok]
    constructor
    · rintro ⟨x, hx, hrest⟩
      obtain ⟨y, hy, heq⟩ := Outcome.bind_eq_ok.mp hrest
      exact ⟨x, y, hx, hy, (Except.ok.inj heq).symm⟩
    · rintro ⟨x, y, hx, hy, rfl⟩
      exact ⟨x, hx, Outcome.bind_eq_ok.mpr ⟨y, hy, rfl⟩⟩

/-- Results that are changed one by one. -/
lemma map (hg : Rowwise g) (f : β → γ) : Rowwise fun a => (g a).map (List.map f) where
  length h := by
    obtain ⟨x, hx, rfl⟩ := Outcome.map_eq_ok.mp h
    rw [List.length_map, hg.length hx]
  append {a b z} := by
    simp only [Outcome.map_eq_ok, hg.append]
    constructor
    · rintro ⟨_, ⟨x, y, hx, hy, rfl⟩, rfl⟩
      exact ⟨_, _, ⟨x, hx, rfl⟩, ⟨y, hy, rfl⟩, List.map_append⟩
    · rintro ⟨_, _, ⟨x, hx, rfl⟩, ⟨y, hy, rfl⟩, rfl⟩
      exact ⟨_, ⟨x, y, hx, hy, rfl⟩, List.map_append⟩

/-- Results on rows that are changed before. -/
lemma comp (hg : Rowwise g) (f : γ → α) : Rowwise fun a => g (a.map f) where
  length h := by rw [hg.length h, List.length_map]
  append := by simp only [List.map_append, hg.append, implies_true]

/-- Results put together with the rows. -/
lemma zipWith (hg : Rowwise g) (f : β → α → γ) :
    Rowwise fun a => (g a).map fun x => List.zipWith f x a where
  length {a x} h := by
    obtain ⟨y, hy, rfl⟩ := Outcome.map_eq_ok.mp h
    rw [List.length_zipWith, hg.length hy, Nat.min_self]
  append {a b z} := by
    simp only [Outcome.map_eq_ok, hg.append]
    constructor
    · rintro ⟨_, ⟨x, y, hx, hy, rfl⟩, rfl⟩
      exact ⟨_, _, ⟨x, hx, rfl⟩, ⟨y, hy, rfl⟩, List.zipWith_append (hg.length hx)⟩
    · rintro ⟨_, _, ⟨x, hx, rfl⟩, ⟨y, hy, rfl⟩, rfl⟩
      exact ⟨_, ⟨x, y, hx, hy, rfl⟩, List.zipWith_append (hg.length hx)⟩

/-- A computation that fails on certain rows. -/
lemma guard (hg : Rowwise g) (p : α → Bool) (fault : Fault) :
    Rowwise fun a => if a.any p then .error fault else g a where
  length {a x} h := by
    split at h
    · cases h
    · exact hg.length h
  append {a b z} := by
    rw [List.any_append]
    cases a.any p <;> cases b.any p <;> simp [hg.append]

end Rowwise

/-- A computation on rows that gives a result for every row, and besides something that does not
depend on the rows. -/
structure Framed (g : List α → Outcome (τ × List β)) : Prop where
  /-- What is given besides does not depend on the rows. -/
  frame : ∀ {a b x y}, g a = .ok x → g b = .ok y → x.1 = y.1
  /-- Rows are treated on their own. -/
  rows : Rowwise fun a => (g a).map Prod.snd

/-- The columns of two parts, under one another. -/
def joinParts (p q : List (κ × List β)) : List (κ × List β) :=
  List.zipWith (fun s t => (s.1, s.2 ++ t.2)) p q

/-- A computation on rows that gives columns of results, each with one for every row, under keys
that do not depend on the rows. -/
structure Columnwise (g : List α → Outcome (List (κ × List β))) : Prop where
  /-- The keys do not depend on the rows. -/
  keys : ∀ {a b p q}, g a = .ok p → g b = .ok q → p.map Prod.fst = q.map Prod.fst
  /-- In every column there is a result for every row. -/
  length : ∀ {a p}, g a = .ok p → ∀ part ∈ p, part.2.length = a.length
  /-- The parts of a list are treated on their own. -/
  append : ∀ {a b r}, g (a ++ b) = .ok r ↔ ∃ p q, g a = .ok p ∧ g b = .ok q ∧ r = joinParts p q

namespace Framed

variable {g : List α → Outcome (τ × List β)}

/-- There is a result for every row. -/
lemma length (hg : Framed g) {a : List α} {x : τ × List β} (h : g a = .ok x) :
    x.2.length = a.length :=
  hg.rows.length (Outcome.map_eq_ok.mpr ⟨x, h, rfl⟩)

/-- **The result on two parts of a list.**

**Proof sketch.** The results are those of the two parts because rows are treated on their
own. What is given besides is that of the first part, since it is the same for all rows. -/
theorem append (hg : Framed g) {a b : List α} {z : τ × List β} :
    g (a ++ b) = .ok z ↔ ∃ x y, g a = .ok x ∧ g b = .ok y ∧ z = (x.1, x.2 ++ y.2) := by
  have hrows := @hg.rows.append a b
  simp only [Outcome.map_eq_ok] at hrows
  constructor
  · intro hz
    obtain ⟨_, _, ⟨x, hx, rfl⟩, ⟨y, hy, rfl⟩, heq⟩ := hrows.mp ⟨z, hz, rfl⟩
    exact ⟨x, y, hx, hy, Prod.ext (hg.frame hz hx : z.1 = x.1) heq⟩
  · rintro ⟨x, y, hx, hy, rfl⟩
    obtain ⟨z, hz, heq⟩ := hrows.mpr ⟨_, _, ⟨x, hx, rfl⟩, ⟨y, hy, rfl⟩, rfl⟩
    rw [hz]
    exact congrArg Except.ok (Prod.ext (hg.frame hz hx : z.1 = x.1) heq)

/-- A computation treats rows on their own if its results on parts of a list say so. -/
lemma mk' (hframe : ∀ {a b x y}, g a = .ok x → g b = .ok y → x.1 = y.1)
    (hlength : ∀ {a x}, g a = .ok x → x.2.length = a.length)
    (happend : ∀ {a b z}, g (a ++ b) = .ok z ↔
      ∃ x y, g a = .ok x ∧ g b = .ok y ∧ z = (x.1, x.2 ++ y.2)) : Framed g where
  frame := hframe
  rows := {
    length := fun {a x} h => by
      obtain ⟨y, hy, rfl⟩ := Outcome.map_eq_ok.mp h
      exact hlength hy
    append := fun {a b z} => by
      simp only [Outcome.map_eq_ok, happend]
      constructor
      · rintro ⟨_, ⟨x, y, hx, hy, rfl⟩, rfl⟩
        exact ⟨_, _, ⟨x, hx, rfl⟩, ⟨y, hy, rfl⟩, rfl⟩
      · rintro ⟨_, _, ⟨x, hx, rfl⟩, ⟨y, hy, rfl⟩, rfl⟩
        exact ⟨_, ⟨x, y, hx, hy, rfl⟩, rfl⟩ }

/-- A computation that comes to the same. -/
lemma congr (hg : Framed g) {h : List α → Outcome (τ × List β)} (heq : ∀ a, h a = g a) :
    Framed h :=
  funext heq ▸ hg

/-- A result for every row that cannot fail. -/
lemma ofMap (k : τ) (f : α → β) : Framed fun a => (.ok (k, a.map f) : Outcome (τ × List β)) where
  frame h h' := by
    cases h
    cases h'
    rfl
  rows := Rowwise.ofMap f

/-- A computation that never succeeds. -/
lemma ofNever (h : ∀ a x, g a ≠ .ok x) : Framed g where
  frame hx := absurd hx (h _ _)
  rows := {
    length := fun hx => by
      obtain ⟨x, hx, -⟩ := Outcome.map_eq_ok.mp hx
      exact absurd hx (h _ _)
    append := by simp [Outcome.map_eq_ok, h] }

/-- Results on rows that are changed before. -/
lemma comp (hg : Framed g) (f : γ → α) : Framed fun a => g (a.map f) where
  frame h h' := hg.frame h h'
  rows := hg.rows.comp f

/-- A computation that fails on certain rows. -/
lemma guard (hg : Framed g) (p : α → Bool) (fault : Fault) :
    Framed fun a => if a.any p then .error fault else g a where
  frame h h' := by
    split at h
    · cases h
    · split at h'
      · cases h'
      · exact hg.frame h h'
  rows := (hg.rows.guard p fault).congr fun a => by split <;> rfl

/-- Results put together with the rows. -/
lemma zipWith (hg : Framed g) (f : α → β → γ) :
    Framed fun a => (g a).map fun x => (x.1, List.zipWith f a x.2) := by
  refine mk' ?_ ?_ ?_
  · intro a b x y hx hy
    obtain ⟨u, hu, rfl⟩ := Outcome.map_eq_ok.mp hx
    obtain ⟨v, hv, rfl⟩ := Outcome.map_eq_ok.mp hy
    exact hg.frame hu hv
  · intro a x hx
    obtain ⟨u, hu, rfl⟩ := Outcome.map_eq_ok.mp hx
    rw [List.length_zipWith, hg.length hu, Nat.min_self]
  · intro a b z
    simp only [Outcome.map_eq_ok, hg.append]
    constructor
    · rintro ⟨_, ⟨u, v, hu, hv, rfl⟩, rfl⟩
      exact ⟨_, _, ⟨u, hu, rfl⟩, ⟨v, hv, rfl⟩,
        Prod.ext rfl (List.zipWith_append (hg.length hu).symm)⟩
    · rintro ⟨_, _, ⟨u, hu, rfl⟩, ⟨v, hv, rfl⟩, rfl⟩
      exact ⟨_, ⟨u, v, hu, hv, rfl⟩, Prod.ext rfl (List.zipWith_append (hg.length hu).symm)⟩

/-- **One computation after another**, which may depend on what the first gives besides.

**Proof sketch.** What the second computation depends on is the same for all rows
(`Framed.frame`), so that it is one computation for the parts and for the whole. -/
theorem bind (hg : Framed g) {σ : Type} {h : τ → List β → Outcome (σ × List γ)}
    (hh : ∀ k, Framed (h k)) : Framed fun a => g a >>= fun x => h x.1 x.2 := by
  refine mk' ?_ ?_ ?_
  · intro a b x y hx hy
    obtain ⟨u, hu, hx⟩ := Outcome.bind_eq_ok.mp hx
    obtain ⟨v, hv, hy⟩ := Outcome.bind_eq_ok.mp hy
    rw [hg.frame hu hv] at hx
    exact (hh v.1).frame hx hy
  · intro a x hx
    obtain ⟨u, hu, hx⟩ := Outcome.bind_eq_ok.mp hx
    rw [(hh u.1).length hx, hg.length hu]
  · intro a b z
    simp only [Outcome.bind_eq_ok, hg.append]
    constructor
    · rintro ⟨_, ⟨u, v, hu, hv, rfl⟩, hz⟩
      obtain ⟨x, y, hx, hy, rfl⟩ := (hh u.1).append.mp hz
      rw [hg.frame hu hv] at hy
      exact ⟨x, y, ⟨u, hu, hx⟩, ⟨v, hv, hy⟩, rfl⟩
    · rintro ⟨x, y, ⟨u, hu, hx⟩, ⟨v, hv, hy⟩, rfl⟩
      rw [← hg.frame hu hv] at hy
      exact ⟨_, ⟨u, v, hu, hv, rfl⟩, (hh u.1).append.mpr ⟨x, y, hx, hy, rfl⟩⟩

/-- The results of one column. -/
lemma columns (hg : Framed g) {κ : Type} (key : τ → κ) :
    Columnwise fun a => (g a).map fun x => [(key x.1, x.2)] where
  keys hp hq := by
    obtain ⟨x, hx, rfl⟩ := Outcome.map_eq_ok.mp hp
    obtain ⟨y, hy, rfl⟩ := Outcome.map_eq_ok.mp hq
    rw [List.map_singleton, List.map_singleton, hg.frame hx hy]
  length hp part hpart := by
    obtain ⟨x, hx, rfl⟩ := Outcome.map_eq_ok.mp hp
    rw [List.mem_singleton.mp hpart]
    exact hg.length hx
  append {a b r} := by
    simp only [Outcome.map_eq_ok, hg.append]
    constructor
    · rintro ⟨_, ⟨x, y, hx, hy, rfl⟩, rfl⟩
      exact ⟨_, _, ⟨x, hx, rfl⟩, ⟨y, hy, rfl⟩, rfl⟩
    · rintro ⟨_, _, ⟨x, hx, rfl⟩, ⟨y, hy, rfl⟩, rfl⟩
      exact ⟨_, ⟨x, y, hx, hy, rfl⟩, rfl⟩

end Framed

/-! ### Several results for every row -/

/-- Columns side by side, under one another. -/
lemma joinParts_append {p q : List (κ × List β)} (h : p.map Prod.fst = q.map Prod.fst)
    (p' q' : List (κ × List β)) :
    joinParts (p ++ p') (q ++ q') = joinParts p q ++ joinParts p' q' := by
  refine List.zipWith_append ?_
  simpa using congrArg List.length h

/-- The keys of columns under one another. -/
lemma map_fst_joinParts {p q : List (κ × List β)} (h : p.map Prod.fst = q.map Prod.fst) :
    (joinParts p q).map Prod.fst = p.map Prod.fst := by
  induction p generalizing q with
  | nil => rfl
  | cons s p ih =>
    cases q with
    | nil => cases h
    | cons t q =>
      simp only [List.map_cons, List.cons.injEq] at h
      simp only [joinParts, List.zipWith_cons_cons, List.map_cons, List.cons.injEq, true_and]
      exact ih h.2

namespace Columnwise

variable {g h : List α → Outcome (List (κ × List β))}

/-- A computation that comes to the same. -/
lemma congr (hg : Columnwise g) (heq : ∀ a, h a = g a) : Columnwise h := funext heq ▸ hg

/-- Columns on rows that are changed before. -/
lemma comp (hg : Columnwise g) (f : γ → α) : Columnwise fun a => g (a.map f) where
  keys hp hq := hg.keys hp hq
  length hp part hpart := by rw [hg.length hp part hpart, List.length_map]
  append := by simp only [List.map_append, hg.append, implies_true]

/-- No columns. -/
lemma nil : Columnwise fun _ : List α => (.ok [] : Outcome (List (κ × List β))) where
  keys hp hq := by
    cases hp
    cases hq
    rfl
  length hp := by
    cases hp
    simp
  append := by simp [joinParts, eq_comm]

/-- A computation that always fails. -/
lemma ofError (fault : Fault) :
    Columnwise fun _ : List α => (.error fault : Outcome (List (κ × List β))) where
  keys hp := by cases hp
  length hp := by cases hp
  append := by simp

/-- One column. -/
lemma single {f : List α → Outcome (List β)} (hf : Rowwise f) (key : κ) :
    Columnwise fun a => (f a).map fun x => [(key, x)] where
  keys hp hq := by
    obtain ⟨x, -, rfl⟩ := Outcome.map_eq_ok.mp hp
    obtain ⟨y, -, rfl⟩ := Outcome.map_eq_ok.mp hq
    rfl
  length hp part hpart := by
    obtain ⟨x, hx, rfl⟩ := Outcome.map_eq_ok.mp hp
    rw [List.mem_singleton.mp hpart]
    exact hf.length hx
  append {a b r} := by
    simp only [Outcome.map_eq_ok, hf.append]
    constructor
    · rintro ⟨_, ⟨x, y, hx, hy, rfl⟩, rfl⟩
      exact ⟨_, _, ⟨x, hx, rfl⟩, ⟨y, hy, rfl⟩, rfl⟩
    · rintro ⟨_, _, ⟨x, hx, rfl⟩, ⟨y, hy, rfl⟩, rfl⟩
      exact ⟨_, ⟨x, y, hx, hy, rfl⟩, rfl⟩

/-- **Columns side by side.** -/
theorem sideBySide (hg : Columnwise g) (hh : Columnwise h) :
    Columnwise fun a => do
      let p ← g a
      let q ← h a
      .ok (p ++ q) where
  keys hboth hboth' := by
    obtain ⟨p, hp, hrest⟩ := Outcome.bind_eq_ok.mp hboth
    obtain ⟨p', hp', ⟨⟩⟩ := Outcome.bind_eq_ok.mp hrest
    obtain ⟨q, hq, hrest'⟩ := Outcome.bind_eq_ok.mp hboth'
    obtain ⟨q', hq', ⟨⟩⟩ := Outcome.bind_eq_ok.mp hrest'
    rw [List.map_append, List.map_append, hg.keys hp hq, hh.keys hp' hq']
  length hboth part hpart := by
    obtain ⟨p, hp, hrest⟩ := Outcome.bind_eq_ok.mp hboth
    obtain ⟨p', hp', ⟨⟩⟩ := Outcome.bind_eq_ok.mp hrest
    rcases List.mem_append.mp hpart with hleft | hright
    · exact hg.length hp part hleft
    · exact hh.length hp' part hright
  append {a b r} := by
    simp only [Outcome.bind_eq_ok, hg.append, hh.append, Except.ok.injEq]
    constructor
    · rintro ⟨_, ⟨p, q, hp, hq, rfl⟩, _, ⟨p', q', hp', hq', rfl⟩, rfl⟩
      exact ⟨_, _, ⟨p, hp, p', hp', rfl⟩, ⟨q, hq, q', hq', rfl⟩,
        (joinParts_append (hg.keys hp hq) p' q').symm⟩
    · rintro ⟨_, _, ⟨p, hp, p', hp', rfl⟩, ⟨q, hq, q', hq', rfl⟩, rfl⟩
      exact ⟨_, ⟨p, q, hp, hq, rfl⟩, _, ⟨p', q', hp', hq', rfl⟩,
        (joinParts_append (hg.keys hp hq) p' q').symm⟩

end Columnwise

/-! ### Rows put together from columns -/

/-- The row of columns at an index. -/
def rowAt (parts : List (κ × List β)) (i : ℕ) : List (κ × Option β) :=
  parts.map fun part => (part.1, part.2[i]?)

/-- The rows of two parts: those of the first part, and then those of the second. -/
lemma rowAt_joinParts {p q : List (κ × List β)} (h : p.map Prod.fst = q.map Prod.fst) {n : ℕ}
    (hlength : ∀ part ∈ p, part.2.length = n) (i : ℕ) :
    rowAt (joinParts p q) i = if i < n then rowAt p i else rowAt q (i - n) := by
  induction p generalizing q with
  | nil =>
    cases q with
    | nil => exact (ite_self _).symm
    | cons t q => cases h
  | cons s p ih =>
    cases q with
    | nil => cases h
    | cons t q =>
      simp only [List.map_cons, List.cons.injEq] at h
      have hs := hlength s List.mem_cons_self
      have hrest := ih h.2 fun part hpart => hlength part (List.mem_cons_of_mem _ hpart)
      simp only [rowAt, joinParts, List.zipWith_cons_cons, List.map_cons] at hrest ⊢
      rw [hrest]
      split
      · rename_i hi
        rw [List.getElem?_append_left (hs.symm ▸ hi)]
      · rename_i hi
        rw [List.getElem?_append_right (hs.symm ▸ Nat.not_lt.mp hi), hs, h.1]

/-- **Rows put together from columns**: those of two parts, one after the other.

**Proof sketch.** The numbers of the rows of the second part go on where the first part ends.
As all columns of the first part are that long, a number says in which part to look. -/
theorem zipIdx_map_joinParts (f : γ → List (κ × Option β) → τ) {p q : List (κ × List β)}
    (h : p.map Prod.fst = q.map Prod.fst) {a : List γ}
    (hlength : ∀ part ∈ p, part.2.length = a.length) (b : List γ) :
    ((a ++ b).zipIdx.map fun entry => f entry.1 (rowAt (joinParts p q) entry.2)) =
      (a.zipIdx.map fun entry => f entry.1 (rowAt p entry.2)) ++
        b.zipIdx.map fun entry => f entry.1 (rowAt q entry.2) := by
  rw [List.zipIdx_append, List.map_append]
  congr 1
  · refine List.map_congr_left fun entry hentry => ?_
    have hlt := (List.mem_zipIdx' hentry).1
    rw [rowAt_joinParts h hlength, if_pos hlt]
  · rw [List.zipIdx_eq_map_add, List.map_map]
    refine List.map_congr_left fun entry _ => ?_
    simp only [Function.comp_apply, Nat.zero_add]
    rw [rowAt_joinParts h hlength, if_neg (Nat.not_lt.mpr (Nat.le_add_right _ _)),
      Nat.add_sub_cancel_left]

end Lineage
