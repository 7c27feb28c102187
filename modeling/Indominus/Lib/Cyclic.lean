import Mathlib.Algebra.Group.Fin.Basic
import Mathlib.Algebra.GroupWithZero.Nat
import Mathlib.Data.List.Range

/-! # Round-robin search -/

namespace Indominus.Lib.Cyclic

variable {n : ℕ} [NeZero n]

/-- How many steps forward it is from `a` to `b`. -/
def dist (a b : Fin n) : ℕ := (b - a).val

/-- The point that a search from `a` looks at in round `i`. -/
def ahead (a : Fin n) (i : ℕ) : Fin n := a + Fin.ofNat n (i + 1)

/-- The first point after `a` that meets the test; `a` itself comes last. -/
def firstAfter (test : Fin n → Bool) (a : Fin n) : Option (Fin n) :=
  ((List.range n).map (ahead a)).find? test

variable {a b c : Fin n} {test : Fin n → Bool}

lemma dist_ahead {i : ℕ} (hi : i + 1 < n) : dist a (ahead a i) = i + 1 := by
  rw [dist, ahead, add_sub_cancel_left, Fin.val_ofNat, Nat.mod_eq_of_lt hi]

lemma ahead_dist (h : a ≠ b) : ahead a (dist a b - 1) = b := by
  have hpos : 0 < dist a b := by
    rw [Nat.pos_iff_ne_zero, dist, Ne, Fin.val_eq_zero_iff, sub_eq_zero]
    exact h.symm
  rw [ahead, Nat.sub_add_cancel hpos, dist]
  simp

lemma firstAfter_eq_some (h : firstAfter test a = some c) :
    test c = true ∧ ∃ i < n, ahead a i = c ∧ ∀ j < i, test (ahead a j) = false := by
  rw [firstAfter, List.find?_map, Option.map_eq_some_iff] at h
  obtain ⟨i, hfind, rfl⟩ := h
  obtain ⟨htest, hmem, hbef⟩ := List.find?_range_eq_some.mp hfind
  refine ⟨htest, i, List.mem_range.mp hmem, rfl, ?_⟩
  intro j hj
  simpa using hbef j hj

lemma firstAfter_isSome (a : Fin n) (hb : test b = true) : ∃ c, firstAfter test a = some c := by
  rw [← Option.isSome_iff_exists, firstAfter, List.find?_isSome]
  refine ⟨b, ?_, hb⟩
  rw [List.mem_map]
  by_cases hab : a = b
  · -- the starting point is the last one that the search looks at
    have hn : 0 < n := Nat.pos_of_neZero n
    refine ⟨n - 1, List.mem_range.mpr (by omega), ?_⟩
    rw [ahead, Nat.sub_add_cancel hn, hab]
    simp [Fin.ofNat]
  refine ⟨dist a b - 1, List.mem_range.mpr ?_, ahead_dist hab⟩
  have : dist a b < n := (b - a).isLt
  omega

lemma dist_firstAfter_lt (h : firstAfter test a = some c) (hb : test b = true) (hab : a ≠ b)
    (hcb : c ≠ b) : dist c b < dist a b := by
  obtain ⟨-, i, hi, rfl, hbef⟩ := firstAfter_eq_some h
  have hlt : dist a b < n := (b - a).isLt
  -- the search stopped before it came to `b`
  have hle : i < dist a b - 1 := by
    by_contra hge
    rcases Nat.lt_or_eq_of_le (Nat.le_of_not_lt hge) with hlt' | heq
    · have := hbef _ hlt'
      rw [ahead_dist hab, hb] at this
      cases this
    · rw [← heq] at hcb
      exact hcb (ahead_dist hab)
  have hac : dist a (ahead a i) = i + 1 := dist_ahead (by omega)
  -- the way from `a` to `b` is the way to the choice and the rest
  have hsub : dist (ahead a i) b = dist a b - dist a (ahead a i) := by
    rw [dist, ← sub_sub_sub_cancel_right b (ahead a i) a]
    apply Fin.sub_val_of_le
    rw [Fin.le_def]
    change dist a (ahead a i) ≤ dist a b
    omega
  omega

/-- A choice that starts away from `b` and passes over it, although it could have taken it. -/
def Passes (b : Fin n) (a c : Fin n) : Prop :=
  a ≠ b ∧ c ≠ b ∧ ∃ test, test b = true ∧ firstAfter test a = some c

lemma Passes.dist_lt (h : Relation.TransGen (Passes b) a c) : dist c b < dist a b := by
  induction h with
  | single h =>
    obtain ⟨hab, hcb, test, hb, hfind⟩ := h
    exact dist_firstAfter_lt hfind hb hab hcb
  | tail _ h ih =>
    obtain ⟨hab, hcb, test, hb, hfind⟩ := h
    exact (dist_firstAfter_lt hfind hb hab hcb).trans ih

lemma Passes.not_returns : ¬ Relation.TransGen (Passes b) a a := by
  intro h
  exact absurd (Passes.dist_lt h) (lt_irrefl _)

end Indominus.Lib.Cyclic
