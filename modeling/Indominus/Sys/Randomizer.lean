import Indominus.Sys.System

/-! # The generator behind address-space randomisation (`aslr.rs`) -/

namespace Indominus.Sys

open Memory Function

variable {d : Word} {n : Nat}

/-- After enough shifts nothing is left of a word. -/
lemma eq_zero_of_shiftLeft (hn : 0 < n) (h : d <<< n = d) : d = 0 := by
  have hmul : ∀ m, d <<< (n * m) = d := by
    intro m
    induction m with
    | zero => simp
    | succ m ih => rw [Nat.mul_succ, BitVec.shiftLeft_add, ih, h]
  rw [← hmul 64]
  exact BitVec.shiftLeft_eq_zero (Nat.le_mul_of_pos_left 64 hn)

lemma eq_zero_of_ushiftRight (hn : 0 < n) (h : d >>> n = d) : d = 0 := by
  have hdiv := congrArg BitVec.toNat h
  rw [BitVec.toNat_ushiftRight, Nat.shiftRight_eq_div_pow] at hdiv
  by_contra hd
  have hpos : 0 < d.toNat := Nat.pos_of_ne_zero fun hz => hd (BitVec.eq_of_toNat_eq hz)
  exact (Nat.div_lt_self hpos (Nat.one_lt_two_pow hn.ne')).ne hdiv

lemma xor_injective {f : Word → Word} (hadd : ∀ x y, f (x ^^^ y) = f x ^^^ f y)
    (hf : ∀ d, f d = d → d = 0) : Injective fun x => x ^^^ f x := by
  intro x y h
  apply BitVec.xor_eq_zero_iff.mp
  apply hf
  rw [hadd]
  ext i hi
  have hbit : (x ^^^ f x)[i] = (y ^^^ f y)[i] := by rw [show x ^^^ f x = y ^^^ f y from h]
  rw [BitVec.getElem_xor, BitVec.getElem_xor] at hbit ⊢
  revert hbit
  cases x[i] <;> cases y[i] <;> cases (f x)[i] <;> cases (f y)[i] <;> decide

lemma nextU64_injective : Injective nextU64 := by
  have hleft : ∀ n, 0 < n → Injective fun x : Word => x ^^^ x <<< n := fun n hn =>
    xor_injective (fun x y => BitVec.shiftLeft_xor_distrib x y n) fun d => eq_zero_of_shiftLeft hn
  have hright : Injective fun x : Word => x ^^^ x >>> 7 :=
    xor_injective (fun x y => BitVec.ushiftRight_xor_distrib x y 7) fun d =>
      eq_zero_of_ushiftRight (by decide)
  exact (hleft 17 (by decide)).comp (hright.comp (hleft 13 (by decide)))

namespace Kernel

/-- The kernel after calls that ask for so many slots each. -/
def afterCalls (k : Kernel) (calls : List Nat) : Kernel :=
  calls.foldl (fun k slots => (k.randomPageOffset slots).2) k

lemma afterCalls_prng (k : Kernel) (calls : List Nat) :
    (k.afterCalls calls).prng = nextU64^[calls.length] k.prng := by
  induction calls generalizing k with
  | nil => rfl
  | cons slots calls ih => exact ih (k.randomPageOffset slots).2

/-- The generator is one-to-one, so that only the seed 0 leads to the state 0. -/
theorem prng_ne_zero_iff (k : Kernel) (seed : Word) : Injective nextU64 ∧
    ((∀ calls, ({ k with prng := seed }.afterCalls calls).prng ≠ 0) ↔ seed ≠ 0) := by
  refine ⟨nextU64_injective, fun h => h [], fun hseed calls hzero => hseed ?_⟩
  rw [afterCalls_prng] at hzero
  have hstay : nextU64^[calls.length] 0 = 0 := iterate_fixed rfl _
  exact nextU64_injective.iterate _ (hzero.trans hstay.symm)

lemma afterCalls_of_zero (k : Kernel) (calls : List Nat) (hseed : k.prng = 0) :
    (k.afterCalls calls).prng = 0 ∧ (k.afterCalls calls).randomizeStackBase.1 = USER_STACK_TOP ∧
      (k.afterCalls calls).randomizeMmapBase.1 = USER_MMAP_BASE ∧
      (k.afterCalls calls).randomizeHeapBase.1 = USER_HEAP_BASE := by
  have hzero : (k.afterCalls calls).prng = 0 := by
    rw [afterCalls_prng, hseed]
    exact iterate_fixed rfl _
  simp only [randomizeStackBase, randomizeMmapBase, randomizeHeapBase, randomPageOffset, hzero]
  decide

/-- Seeded at tick 0, the kernel draws the nominal bases only, however often it draws. -/
theorem prng_stuck : emptyKernel.tickCount = 0 ∧ emptyKernel.prng = 0 ∧
    ¬∃ calls, (emptyKernel.afterCalls calls).prng ≠ 0 ∨
      (emptyKernel.afterCalls calls).randomizeStackBase.1 ≠ USER_STACK_TOP ∨
      (emptyKernel.afterCalls calls).randomizeMmapBase.1 ≠ USER_MMAP_BASE ∨
      (emptyKernel.afterCalls calls).randomizeHeapBase.1 ≠ USER_HEAP_BASE := by
  refine ⟨rfl, rfl, ?_⟩
  rintro ⟨calls, h⟩
  obtain ⟨hzero, hstk, hmmap, hheap⟩ := afterCalls_of_zero emptyKernel calls rfl
  simp [hzero, hstk, hmmap, hheap] at h

end Kernel

end Indominus.Sys
