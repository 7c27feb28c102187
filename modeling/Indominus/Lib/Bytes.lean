import Mathlib.Data.Nat.ModEq
import Mathlib.Data.List.Pairwise
import Mathlib.Tactic.Ring

/-!
# Little-endian numbers in byte images

`patchAll` applies a function to each of a list of slots.
-/

namespace Indominus.Lib.Bytes

abbrev Image := Nat → BitVec 8

variable {img img' : Image} {o o' n w : Nat}

/-- The little-endian number in `n` bytes from `o` on. -/
def le (img : Image) (o : Nat) : Nat → Nat
  | 0 => 0
  | n + 1 => (img o).toNat + 256 * le img (o + 1) n

/-- Byte `k` of a number. -/
def byteOf (w k : Nat) : BitVec 8 := BitVec.ofNat 8 (w / 256 ^ k)

/-- Store the `n` low bytes of `w` at `o`. -/
def put (img : Image) (o n w : Nat) : Image := fun i =>
  if o ≤ i ∧ i < o + n then byteOf w (i - o) else img i

lemma put_of_not_mem {i : Nat} (h : i < o ∨ o + n ≤ i) : put img o n w i = img i := by
  rw [put, if_neg]
  omega

lemma le_congr (h : ∀ i < n, img (o + i) = img' (o' + i)) : le img o n = le img' o' n := by
  induction n generalizing o o' with
  | zero => rfl
  | succ n ih =>
    have hrest : ∀ i < n, img (o + 1 + i) = img' (o' + 1 + i) := by
      intro i hi
      rw [Nat.add_assoc, Nat.add_assoc, Nat.add_comm 1 i]
      exact h (i + 1) (by omega)
    have hfst : img o = img' o' := h 0 (by omega)
    rw [le, le, ih hrest, hfst]

lemma le_lt (img : Image) (o n : Nat) : le img o n < 256 ^ n := by
  induction n generalizing o with
  | zero => simp [le]
  | succ n ih =>
    have hrest := ih (o + 1)
    rw [le]
    omega

lemma le_of_bytes (h : ∀ i < n, img (o + i) = byteOf w i) : le img o n = w % 256 ^ n := by
  induction n generalizing o w with
  | zero => simp [le, Nat.mod_one]
  | succ n ih =>
    have hrest : ∀ i < n, img (o + 1 + i) = byteOf (w / 256) i := by
      intro i hi
      rw [Nat.add_assoc, Nat.add_comm 1 i, h (i + 1) (by omega), byteOf, byteOf,
        Nat.div_div_eq_div_mul, pow_succ, Nat.mul_comm]
    have hfst : img o = byteOf w 0 := h 0 (by omega)
    rw [le, ih hrest, hfst, byteOf, BitVec.toNat_ofNat, pow_zero, Nat.div_one,
      pow_succ 256 n, Nat.mul_comm (256 ^ n) 256, Nat.mod_mul]

lemma le_put : le (put img o n w) o n = w % 256 ^ n := by
  apply le_of_bytes
  intro i hi
  rw [put, if_pos (by omega), Nat.add_sub_cancel_left]

/-- Two slots of `n` bytes do not overlap. -/
def Apart (n o o' : Nat) : Prop := o + n ≤ o' ∨ o' + n ≤ o

instance : Decidable (Apart n o o') := inferInstanceAs (Decidable (_ ∨ _))

lemma Apart.symm (h : Apart n o o') : Apart n o' o := Or.symm h

lemma le_put_of_apart {m : Nat} (h : o + n ≤ o' ∨ o' + m ≤ o) :
    le (put img o n w) o' m = le img o' m := by
  apply le_congr
  intro i hi
  apply put_of_not_mem
  omega

/-! ## Patching slots -/

def patch (n : Nat) (img : Image) (p : Nat × (Nat → Nat)) : Image :=
  put img p.1 n (p.2 (le img p.1 n))

def patchAll (n : Nat) (img : Image) (ps : List (Nat × (Nat → Nat))) : Image :=
  ps.foldl (patch n) img

variable {ps : List (Nat × (Nat → Nat))}

lemma patchAll_nil : patchAll n img [] = img := rfl

lemma patchAll_cons (p : Nat × (Nat → Nat)) :
    patchAll n img (p :: ps) = patchAll n (patch n img p) ps :=
  rfl

lemma patchAll_append (qs : List (Nat × (Nat → Nat))) :
    patchAll n img (ps ++ qs) = patchAll n (patchAll n img ps) qs :=
  List.foldl_append ..

lemma patchAll_of_not_mem {i : Nat} (h : ∀ p ∈ ps, i < p.1 ∨ p.1 + n ≤ i) :
    patchAll n img ps i = img i := by
  induction ps generalizing img with
  | nil => rfl
  | cons p ps ih =>
    refine (ih fun q hq => h q (List.mem_cons_of_mem p hq)).trans ?_
    exact put_of_not_mem (h p (List.mem_cons_self ..))

lemma le_patchAll_of_apart {m : Nat} (h : ∀ p ∈ ps, p.1 + n ≤ o ∨ o + m ≤ p.1) :
    le (patchAll n img ps) o m = le img o m := by
  apply le_congr
  intro i hi
  apply patchAll_of_not_mem
  intro p hp
  have := h p hp
  omega

lemma le_patchAll (hap : ps.Pairwise fun p q => Apart n p.1 q.1) {p : Nat × (Nat → Nat)}
    (hp : p ∈ ps) : le (patchAll n img ps) p.1 n = p.2 (le img p.1 n) % 256 ^ n := by
  induction ps generalizing img with
  | nil => cases hp
  | cons q ps ih =>
    obtain ⟨hq, hps⟩ := List.pairwise_cons.mp hap
    rcases List.mem_cons.mp hp with rfl | hp
    · -- the later slots leave this one alone
      refine (le_patchAll_of_apart fun r hr => (hq r hr).symm).trans ?_
      exact le_put
    · refine (ih hps hp).trans ?_
      rw [patch, le_put_of_apart (hq p hp)]

end Indominus.Lib.Bytes
