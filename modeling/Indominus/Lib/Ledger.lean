import Mathlib.Algebra.Order.Group.Multiset
import Mathlib.Tactic.Abel

/-!
# Ledgers of reference counts

Counts may exceed the number of claims, never fall below it; an exact ledger has them equal.
-/

namespace Indominus.Lib

open Multiset

/-- Claims on things of type `F`; a claim with the mark `true` allows no other one. -/
abbrev Claims (F : Type*) := Multiset (F × Bool)

variable {F : Type*} [DecidableEq F]

/-- The number of claims on `f`. -/
def claims (f : F) (A : Claims F) : Nat := A.countP fun c => c.1 = f

section Claims

variable (f : F) (A B : Claims F)

@[simp] lemma claims_zero : claims f (0 : Claims F) = 0 := rfl

@[simp] lemma claims_add : claims f (A + B) = claims f A + claims f B := countP_add ..

@[simp] lemma claims_cons (c : F × Bool) :
    claims f (c ::ₘ A) = claims f A + if c.1 = f then 1 else 0 :=
  countP_cons ..

@[simp] lemma claims_singleton (c : F × Bool) : claims f {c} = if c.1 = f then 1 else 0 := by
  rw [← cons_zero, claims_cons, claims_zero, zero_add]

variable {f A B}

lemma claims_mono (h : A ≤ B) : claims f A ≤ claims f B := countP_le_of_le _ h

lemma claims_pos {c : F × Bool} (h : c ∈ A) : 0 < claims c.1 A :=
  countP_pos.mpr ⟨c, h, rfl⟩

lemma claims_eq_zero : claims f A = 0 ↔ ∀ c ∈ A, c.1 ≠ f := countP_eq_zero

end Claims

/-- The reference counts `rc` cover the claims `A`. -/
structure Ledger (exact : Prop) (rc : F → Nat) (A : Claims F) : Prop where
  bound : ∀ f, claims f A ≤ rc f
  sole : ∀ c ∈ A, c.2 = true → rc c.1 = 1
  tight : exact → ∀ c ∈ A, rc c.1 ≤ claims c.1 A

namespace Ledger

variable {exact : Prop} {rc rc' : F → Nat} {A B : Claims F} {f : F}

lemma pos (h : Ledger exact rc A) {c : F × Bool} (hc : c ∈ A) : 0 < rc c.1 :=
  lt_of_lt_of_le (claims_pos hc) (h.bound c.1)

lemma claims_eq_zero_of_free (h : Ledger exact rc A) (hf : rc f = 0) : claims f A = 0 := by
  have := h.bound f
  omega

lemma claims_rest (h : Ledger exact rc ({(f, true)} + A)) : claims f A = 0 := by
  have hone : rc f = 1 := h.sole (f, true) (by simp) rfl
  have hbnd := h.bound f
  simp only [claims_add, claims_singleton, if_true] at hbnd
  omega

lemma claims_sole_le (h : Ledger exact rc A) (hf : (f, true) ∈ A) : claims f A ≤ 1 := by
  have hone : rc f = 1 := h.sole (f, true) hf rfl
  exact hone ▸ h.bound f

lemma acquire (h : Ledger exact rc A) (hfree : rc f = 0)
    (hrc : ∀ g, rc' g = if g = f then 1 else rc g) (b : Bool) :
    Ledger exact rc' ({(f, b)} + A) := by
  have hnone := h.claims_eq_zero_of_free hfree
  have hne : ∀ c ∈ A, c.1 ≠ f := claims_eq_zero.mp hnone
  constructor
  · intro g
    rw [hrc, claims_add]
    by_cases hg : g = f
    · subst hg
      simp [hnone]
    · simpa [hg, Ne.symm hg] using h.bound g
  · intro c hc hsole
    rw [hrc]
    rcases mem_add.mp hc with hc | hc
    · obtain rfl : c = (f, b) := by simpa using hc
      simp
    · rw [if_neg (hne c hc)]
      exact h.sole c hc hsole
  intro hex c hc
  rw [hrc, claims_add, claims_singleton]
  rcases mem_add.mp hc with hc | hc
  · obtain rfl : c = (f, b) := by simpa using hc
    simp
  · rw [if_neg (hne c hc), if_neg (Ne.symm (hne c hc)), zero_add]
    exact h.tight hex c hc

/-- A sole owner of `f` among the others would be a second reference. -/
lemma not_sole {b : Bool} (h : Ledger exact rc ({(f, b)} + A)) :
    ∀ c ∈ A, c.2 = true → c.1 ≠ f := by
  intro c hc hb hcf
  have hone := h.sole c (mem_add.mpr (.inr hc)) hb
  have hpos := claims_pos hc
  have hle := h.bound f
  rw [hcf] at hone hpos
  simp only [claims_add, claims_singleton, if_true] at hle
  omega

lemma release {b : Bool} (h : Ledger exact rc ({(f, b)} + A))
    (hrc : ∀ g, rc' g = if g = f then rc f - 1 else rc g) : Ledger exact rc' A := by
  have hbnd : ∀ g, (if f = g then 1 else 0) + claims g A ≤ rc g := by
    intro g
    simpa [add_comm] using h.bound g
  constructor
  · intro g
    have hle := hbnd g
    rw [hrc]
    by_cases hg : g = f
    · subst hg
      simp only [if_true] at hle ⊢
      omega
    · simpa [hg, Ne.symm hg] using hle
  · intro c hc hb
    rw [hrc, if_neg (h.not_sole c hc hb)]
    exact h.sole c (mem_add.mpr (.inr hc)) hb
  intro hex c hc
  have htig := h.tight hex c (mem_add.mpr (.inr hc))
  rw [hrc]
  by_cases hg : c.1 = f
  · rw [hg] at htig ⊢
    simp only [claims_add, claims_singleton, if_true] at htig ⊢
    omega
  · simpa [hg, Ne.symm hg] using htig

/-- A claim is split in two while the counter has room. -/
lemma share {b : Bool} (h : Ledger exact rc ({(f, b)} + A))
    (hge : claims f A + 2 ≤ rc' f) (hle : rc' f ≤ rc f + 1) (hrc : ∀ g, g ≠ f → rc' g = rc g) :
    Ledger exact rc' ({(f, false)} + {(f, false)} + A) := by
  have hbnd := h.bound
  simp only [claims_add, claims_singleton] at hbnd
  constructor
  · intro g
    simp only [claims_add, claims_singleton]
    by_cases hg : g = f
    · subst hg
      simp only [if_true]
      omega
    · rw [hrc g hg]
      simpa [Ne.symm hg] using hbnd g
  · intro c hc hb
    rcases mem_add.mp hc with hc | hc
    · obtain rfl : c = (f, false) := by simpa using hc
      simp at hb
    · rw [hrc _ (h.not_sole c hc hb)]
      exact h.sole c (mem_add.mpr (.inr hc)) hb
  intro hex c hc
  have htig := h.tight hex
  simp only [claims_add, claims_singleton] at htig ⊢
  by_cases hg : c.1 = f
  · have hf := htig (f, b) (by simp)
    simp only [if_true] at hf
    rw [hg]
    simp only [if_true]
    omega
  have hcA : c ∈ A := by
    rcases mem_add.mp hc with hc | hc
    · obtain rfl : c = (f, false) := by simpa using hc
      exact absurd rfl hg
    · exact hc
  rw [hrc _ hg]
  simpa [Ne.symm hg] using htig c (mem_add.mpr (.inr hcA))

lemma retag {b b' : Bool} (h : Ledger exact rc ({(f, b)} + A)) (hone : b' = true → rc f = 1) :
    Ledger exact rc ({(f, b')} + A) := by
  have hclaims : ∀ g, claims g ({(f, b')} + A) = claims g ({(f, b)} + A) := by
    intro g
    simp
  constructor
  · intro g
    rw [hclaims]
    exact h.bound g
  · intro c hc hb
    rcases mem_add.mp hc with hc | hc
    · obtain rfl : c = (f, b') := by simpa using hc
      exact hone hb
    · exact h.sole c (mem_add.mpr (.inr hc)) hb
  intro hex c hc
  rw [hclaims]
  rcases mem_add.mp hc with hc | hc
  · obtain rfl : c = (f, b') := by simpa using hc
    exact h.tight hex (f, b) (by simp)
  · exact h.tight hex c (mem_add.mpr (.inr hc))

lemma forget (h : Ledger exact rc ({(f, true)} + A)) : Ledger exact rc A := by
  have hrest := h.claims_rest
  constructor
  · intro g
    exact le_trans (claims_mono (le_add_left _ _)) (h.bound g)
  · intro c hc hb
    exact h.sole c (mem_add.mpr (.inr hc)) hb
  intro hex c hc
  have hne : c.1 ≠ f := claims_eq_zero.mp hrest c hc
  have htig := h.tight hex c (mem_add.mpr (.inr hc))
  simpa [Ne.symm hne] using htig

end Ledger

end Indominus.Lib
