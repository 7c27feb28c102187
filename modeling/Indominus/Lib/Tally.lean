import Mathlib.Algebra.BigOperators.Fin
import Mathlib.Algebra.Order.BigOperators.Group.Finset

/-!
# Tallies over finite tables

How many entries of a table meet a test.
-/

namespace Indominus.Lib

open Finset Function

variable {ι κ α : Type*} [Fintype ι] [Fintype κ]

/-- The number of entries of a table that meet a test. -/
def tally (P : α → Bool) (f : ι → α) : Nat := (univ.filter fun i => P (f i) = true).card

lemma tally_eq_sum (P : α → Bool) (f : ι → α) : tally P f = ∑ i, (P (f i)).toNat := by
  rw [tally, card_filter]
  exact sum_congr rfl fun i _ => by cases P (f i) <;> rfl

variable {P : α → Bool} {f : ι → α}

lemma tally_eq_zero : tally P f = 0 ↔ ∀ i, P (f i) = false := by
  simp [tally, filter_eq_empty_iff]

lemma tally_pos {i : ι} (h : P (f i) = true) : 0 < tally P f :=
  card_pos.mpr ⟨i, by simpa using h⟩

lemma tally_le_card (P : α → Bool) (f : ι → α) : tally P f ≤ Fintype.card ι := card_le_univ _

lemma tally_split (P : α → Bool) (f : ι → Option α) (S : ι → Bool) : tally (fun o => o.any P) f =
      tally (fun o => o.any P) (fun i => if S i then f i else none) +
        tally (fun o => o.any P) (fun i => if S i then none else f i) := by
  simp only [tally_eq_sum, ← sum_add_distrib]
  exact sum_congr rfl fun i _ => by cases S i <;> simp

lemma tally_prod (P : α → Bool) (f : ι → κ → α) :
    tally P (fun x : ι × κ => f x.1 x.2) = ∑ i, tally P (f i) := by
  simp only [tally_eq_sum, Fintype.sum_prod_type]

section Update

variable [DecidableEq ι]

lemma sum_update_add (g : α → Nat) (f : ι → α) (a : ι) (b : α) :
    ∑ i, g (update f a b i) + g (f a) = ∑ i, g (f i) + g b := by
  rw [← add_sum_erase univ _ (mem_univ a), ← add_sum_erase univ (fun i => g (f i)) (mem_univ a)]
  have hrest : ∑ i ∈ univ.erase a, g (update f a b i) = ∑ i ∈ univ.erase a, g (f i) :=
    sum_congr rfl fun i hi => by rw [update_of_ne (ne_of_mem_erase hi)]
  rw [update_self]
  omega

lemma tally_update (P : α → Bool) (f : ι → α) (a : ι) (b : α) :
    tally P (update f a b) + (P (f a)).toNat = tally P f + (P b).toNat := by
  simpa only [tally_eq_sum] using sum_update_add (fun x => (P x).toNat) f a b

lemma tally_update_row (P : α → Bool) (f : ι → κ → α) (a : ι) (row : κ → α) :
    tally P (fun x : ι × κ => update f a row x.1 x.2) + tally P (f a) =
      tally P (fun x : ι × κ => f x.1 x.2) + tally P row := by
  rw [tally_prod, tally_prod]
  exact sum_update_add (tally P) f a row

end Update

lemma countP_filterMap_finRange {n : Nat} (P : α → Bool) (f : Fin n → Option α) :
    ((List.finRange n).filterMap f).countP P = tally (fun o => o.any P) f := by
  rw [tally_eq_sum, Fin.sum_univ_def, List.countP_filterMap]
  induction List.finRange n with
  | nil => rfl
  | cons i l ih =>
    rw [List.countP_cons, List.map_cons, ih]
    cases f i with
    | none => simp
    | some a => cases h : P a <;> simp [h, Nat.add_comm]

omit [Fintype ι] in
lemma filterMap_single [DecidableEq ι] {l : List ι} (hnd : l.Nodup) {a : ι} (ha : a ∈ l)
    (o : Option α) : l.filterMap (fun i => if i = a then o else none) = o.toList := by
  induction l with
  | nil => simp at ha
  | cons b l ih =>
    obtain ⟨hb, hnd⟩ := List.nodup_cons.mp hnd
    rcases eq_or_ne b a with rfl | hne
    · have hrest : l.filterMap (fun i => if i = b then o else none) = [] := by
        refine List.filterMap_eq_nil_iff.mpr fun i hi => if_neg ?_
        rintro rfl
        exact hb hi
      cases o with
      | none => simp
      | some x => simp [hrest]
    · rw [List.filterMap_cons_none (by simp [hne])]
      exact ih hnd ((List.mem_cons.mp ha).resolve_left hne.symm)

end Indominus.Lib
