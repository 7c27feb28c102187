import Mathlib.Algebra.Order.BigOperators.Group.Finset
import Mathlib.Data.Fintype.BigOperators

/-! # The values of a table of slots, as a multiset -/

namespace Indominus.Lib

open Function Finset

variable {ι α : Type*} [Fintype ι] [DecidableEq ι] {f : ι → Option α} {i : ι} {a b : α}

omit [DecidableEq ι] in
/-- The values in the slots of a table. -/
def pool (f : ι → Option α) : Multiset α := ∑ i, (f i).elim 0 fun a => {a}

omit [DecidableEq ι] in
lemma mem_pool : a ∈ pool f ↔ ∃ i, f i = some a := by
  rw [pool, Multiset.mem_sum]
  constructor
  · rintro ⟨i, -, hi⟩
    cases hf : f i with
    | none => simp [hf] at hi
    | some b =>
      obtain rfl : a = b := by simpa [hf] using hi
      exact ⟨i, hf⟩
  · rintro ⟨i, hi⟩
    exact ⟨i, mem_univ i, by simp [hi]⟩

omit [DecidableEq ι] in
lemma card_pool_le : (pool f).card ≤ Fintype.card ι := by
  rw [pool, Multiset.card_sum]
  refine le_trans (sum_le_card_nsmul _ _ 1 fun i _ => ?_) (by simp)
  cases f i <;> simp

lemma pool_eq_update_none (f : ι → Option α) (i : ι) :
    pool f = ((f i).elim 0 fun a => {a}) + pool (update f i none) := by
  have hrest : ∑ j ∈ univ.erase i, (update f i none j).elim 0 (fun a => {a}) =
      ∑ j ∈ univ.erase i, (f j).elim (0 : Multiset α) fun a => {a} :=
    sum_congr rfl fun j hj => by rw [update_of_ne (ne_of_mem_erase hj)]
  have hnone : pool (update f i none) =
      ∑ j ∈ univ.erase i, (f j).elim (0 : Multiset α) fun a => {a} := by
    rw [pool, ← add_sum_erase _ _ (mem_univ i), hrest, update_self,
      Option.elim_none, zero_add]
  rw [hnone, pool, ← add_sum_erase _ _ (mem_univ i)]

lemma pool_of_some (h : f i = some a) : pool f = a ::ₘ pool (update f i none) := by
  rw [pool_eq_update_none f i, h]
  rfl

lemma pool_update (f : ι → Option α) (i : ι) (x : Option α) :
    pool (update f i x) = (x.elim 0 fun a => {a}) + pool (update f i none) := by
  rw [pool_eq_update_none (update f i x) i]
  simp

lemma pool_update_of_none (h : f i = none) (b : α) :
    pool (update f i (some b)) = b ::ₘ pool f := by
  rw [pool_update, ← h, update_eq_self]
  rfl

end Indominus.Lib
