import Indominus.Lib.Budget
import Indominus.Lib.Radix

/-! # The nodes of a radix tree -/

namespace Indominus.Lib.Radix

variable {F E : Type} {S : Shape F E} {h h' : F → Nat → E} {k i : Nat} {t c : F} {p q : List Nat}

/-! ## Nodes -/

variable (S h) in
/-- Does the path, or the beginning of one, exist in the tree? -/
def nodeAt : Nat → F → List Nat → Bool
  | _, _, [] => true
  | 0, t, [i] => (S.target 0 (h t i)).isSome
  | 0, _, _ :: _ :: _ => false
  | k + 1, t, i :: p => (S.target (k + 1) (h t i)).any fun c => nodeAt k c p

variable (S) in
/-- The beginnings of the paths of `InSpan`. -/
def InSpanPrefix : Nat → List Nat → Prop
  | _, [] => True
  | 0, [i] => i ∈ S.span 0
  | 0, _ :: _ :: _ => False
  | k + 1, i :: p => i ∈ S.span (k + 1) ∧ InSpanPrefix k p

@[simp] lemma nodeAt_nil : nodeAt S h k t [] = true := by
  cases k <;> rfl

lemma nodeAt_cons (hc : S.target (k + 1) (h t i) = some c) :
    nodeAt S h (k + 1) t (i :: p) = nodeAt S h k c p := by
  simp [nodeAt, hc]

lemma nodeAt_of_target_none (hc : S.target k (h t i) = none) : nodeAt S h k t (i :: p) = false := by
  cases k with
  | zero => cases p <;> simp [nodeAt, hc]
  | succ k => simp [nodeAt, hc]

lemma inSpanPrefix_cons :
    InSpanPrefix S (k + 1) (i :: p) ↔ i ∈ S.span (k + 1) ∧ InSpanPrefix S k p := by
  rw [InSpanPrefix]

lemma InSpan.of_initial (hp : InSpan S k p) (hq : q <+: p) : InSpanPrefix S k q := by
  induction k generalizing p q with
  | zero =>
    obtain ⟨i, rfl, hi⟩ := hp.exists_leaf
    cases q with
    | nil => trivial
    | cons j q =>
      obtain ⟨rfl, hnil⟩ := List.cons_prefix_cons.mp hq
      obtain rfl := List.prefix_nil.mp hnil
      exact hi
  | succ k ih =>
    obtain ⟨i, p, rfl, hi, htail⟩ := hp.exists_cons
    cases q with
    | nil => trivial
    | cons j q =>
      obtain ⟨rfl, hrest⟩ := List.cons_prefix_cons.mp hq
      exact inSpanPrefix_cons.mpr ⟨hi, ih htail hrest⟩

lemma nodeAt_eq_isSome (hp : InSpan S k p) : nodeAt S h k t p = (leafAt S h k t p).isSome := by
  induction k generalizing t p with
  | zero =>
    obtain ⟨i, rfl, -⟩ := hp.exists_leaf
    rw [nodeAt, leafAt_zero]
    split_ifs with hsome
    · exact hsome
    · simpa using hsome
  | succ k ih =>
    obtain ⟨i, p, rfl, -, hp⟩ := hp.exists_cons
    cases hc : S.target (k + 1) (h t i) with
    | none => rw [nodeAt_of_target_none hc, leafAt_cons_none hc, Option.isSome_none]
    | some c => rw [nodeAt_cons hc, leafAt_cons hc, ih hp]

lemma nodeAt_congr (hq : InSpanPrefix S k q)
    (hagr : ∀ u ∈ visit S h k t, u.isTable → h' u.frame = h u.frame) :
    nodeAt S h' k t q = nodeAt S h k t q := by
  induction k generalizing t q with
  | zero =>
    have ht : h' t = h t := hagr _ (table_mem_visit S h 0 t) rfl
    rcases q with _ | ⟨i, _ | ⟨j, q⟩⟩
    · rfl
    · rw [nodeAt, nodeAt, ht]
    · rfl
  | succ k ih =>
    have ht : h' t = h t := hagr _ (table_mem_visit S h (k + 1) t) rfl
    cases q with
    | nil => rfl
    | cons i q =>
      obtain ⟨hi, hq⟩ := inSpanPrefix_cons.mp hq
      rw [nodeAt, nodeAt, ht]
      cases hc : S.target (k + 1) (h t i) with
      | none => rfl
      | some c =>
        have hle := below_le_visit S h (t := t) hi
        rw [below_of_target hc] at hle
        exact ih hq fun u hu htab => hagr u (Multiset.mem_of_le hle hu) htab

lemma SameExcept.nodeAt {j : Nat} (hsame : SameExcept S h h' k t i) (hj : j ≠ i)
    (hq : InSpanPrefix S k (j :: q)) : nodeAt S h' k t (j :: q) = nodeAt S h k t (j :: q) := by
  cases k with
  | zero =>
    cases q with
    | nil => rw [Radix.nodeAt, Radix.nodeAt, hsame.row j hj]
    | cons => rfl
  | succ k =>
    obtain ⟨hspan, hq⟩ := inSpanPrefix_cons.mp hq
    rw [Radix.nodeAt, Radix.nodeAt, hsame.row j hj]
    cases hc : S.target (k + 1) (h t j) with
    | none => rfl
    | some c =>
      refine nodeAt_congr hq fun u hu htab => hsame.below j hspan hj u ?_ htab
      rwa [below_of_target hc]

/-! ## Trees without junk -/

variable (S h) in
/-- Every entry of the tree is unused or leads somewhere. -/
def Tidy (unused : E) : Nat → F → Prop
  | 0, t => ∀ i ∈ S.span 0, h t i ≠ unused → (S.target 0 (h t i)).isSome = true
  | k + 1, t => ∀ i ∈ S.span (k + 1), (h t i ≠ unused → (S.target (k + 1) (h t i)).isSome = true) ∧
      ∀ c, S.target (k + 1) (h t i) = some c → Tidy unused k c

variable {unused : E}

lemma Tidy.entry (ht : Tidy S h unused k t) (hi : i ∈ S.span k)
    (hnone : S.target k (h t i) = none) : h t i = unused := by
  by_contra hne
  have hsome : (S.target k (h t i)).isSome = true := by
    cases k with
    | zero => exact ht i hi hne
    | succ k => exact (ht i hi).1 hne
  rw [hnone] at hsome
  cases hsome

lemma tidy_congr (hagr : ∀ u ∈ visit S h k t, u.isTable → h' u.frame = h u.frame)
    (ht : Tidy S h unused k t) : Tidy S h' unused k t := by
  induction k generalizing t with
  | zero =>
    have hrow : h' t = h t := hagr _ (table_mem_visit S h 0 t) rfl
    intro i hi
    rw [hrow]
    exact ht i hi
  | succ k ih =>
    have hrow : h' t = h t := hagr _ (table_mem_visit S h (k + 1) t) rfl
    intro i hi
    rw [hrow]
    refine ⟨(ht i hi).1, fun c hc => ih ?_ ((ht i hi).2 c hc)⟩
    intro u hu htab
    have hle := below_le_visit S h (t := t) hi
    rw [below_of_target hc] at hle
    exact hagr u (Multiset.mem_of_le hle hu) htab

lemma SameExcept.tidy (hsame : SameExcept S h h' (k + 1) t i) (ht : Tidy S h unused (k + 1) t)
    (hc : S.target (k + 1) (h' t i) = some c) (htc : Tidy S h' unused k c) :
    Tidy S h' unused (k + 1) t := by
  intro j hj
  by_cases hji : j = i
  · subst hji
    refine ⟨fun _ => by rw [hc, Option.isSome_some], fun c' hc' => ?_⟩
    cases hc.symm.trans hc'
    exact htc
  rw [hsame.row j hji]
  refine ⟨(ht j hj).1, fun c' hc' => tidy_congr ?_ ((ht j hj).2 c' hc')⟩
  intro u hu htab
  exact hsame.below j hj hji u (by rwa [below_of_target hc']) htab

lemma tidy_of_unused (hz : ∀ i ∈ S.span k, h t i = unused) (hnone : ∀ k, S.target k unused = none) :
    Tidy S h unused k t := by
  cases k with
  | zero => exact fun i hi hne => absurd (hz i hi) hne
  | succ k =>
    intro i hi
    refine ⟨fun hne => absurd (hz i hi) hne, fun c hc => ?_⟩
    rw [hz i hi, hnone] at hc
    cases hc

end Indominus.Lib.Radix
