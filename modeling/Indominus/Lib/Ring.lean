import Mathlib.Data.List.Basic
import Mathlib.Data.Nat.ModEq

/-! # Ring buffers over growing counters -/

namespace Indominus.Lib.Ring

variable {α : Type} {N : Nat}

/-- The `len` cells of a ring of size `N` from counter value `start` on. -/
def window (N : Nat) (cells : Nat → α) (start len : Nat) : List α :=
  (List.range len).map fun i => cells ((start + i) % N)

@[simp] lemma length_window (cells : Nat → α) (start len : Nat) :
    (window N cells start len).length = len := by
  simp [window]

@[simp] lemma window_zero (cells : Nat → α) (start : Nat) : window N cells start 0 = [] := rfl

lemma window_succ (cells : Nat → α) (start len : Nat) :
    window N cells start (len + 1) = cells (start % N) :: window N cells (start + 1) len := by
  simp only [window, List.range_succ_eq_map, List.map_cons, List.map_map, Nat.add_zero]
  congr 1
  refine List.map_congr_left fun i _ => ?_
  simp only [Function.comp, Nat.succ_eq_add_one]
  congr 2
  omega

lemma window_append (cells : Nat → α) (start a b : Nat) :
    window N cells start (a + b) = window N cells start a ++ window N cells (start + a) b := by
  induction a generalizing start with
  | zero => simp
  | succ a ih =>
    rw [Nat.succ_add, window_succ, window_succ, ih]
    congr 3
    omega

lemma window_write (cells : Nat → α) (start len : Nat) (a : α) (hlen : len < N) :
    window N (Function.update cells ((start + len) % N) a) start len =
      window N cells start len := by
  refine List.map_congr_left fun i hi => Function.update_of_ne ?_ _ _
  have hi : i < len := List.mem_range.mp hi
  -- two counters less than `N` apart never share a cell
  intro heq
  have hdvd : N ∣ (start + len) - (start + i) :=
    (Nat.modEq_iff_dvd' (by omega)).mp heq
  have := Nat.le_of_dvd (by omega) hdvd
  omega

lemma window_push (cells : Nat → α) (start len : Nat) (a : α) (hlen : len < N) :
    window N (Function.update cells ((start + len) % N) a) start (len + 1) =
      window N cells start len ++ [a] := by
  rw [window_append, window_write cells start len a hlen]
  simp [window]

end Indominus.Lib.Ring
