import Indominus.Lib.Store
import Mathlib.Data.Nat.Bitwise

/-!
# The physical memory manager (`memory/pmm.rs`)

Frames are named by their index.  The bitmap is one number: bit `i` is bit `i % 8` of byte `i / 8`.
-/

namespace Indominus.Memory

open Lib

def PAGE_SIZE : Nat := 4096

/-- `MAX_FRAMES`: 16 GiB of 4 KiB frames. -/
def MAX_FRAMES : Nat := 4194304

/-- The assertions and panics of `free_frame`, `incref`, `decref` and `get_refcount`. -/
inductive PmmPanic
  | cannotFreeFrameZero
  | frameOutOfRange (frame : Nat)
  | doubleFree (frame : Nat)
  | refcountNotOne (frame : Nat) (refcount : Nat)
  | increfUnallocated (frame : Nat)
  | decrefUnallocated (frame : Nat)
  | refcountAlreadyZero (frame : Nat)
  deriving DecidableEq, Repr

inductive Panic
  | pmm (e : PmmPanic)
  /-- `create_empty_pml4`: "PMM: out of memory for PML4". -/
  | outOfMemoryForPml4
  /-- `map_page`: "VMM: failed to map page". -/
  | failedToMapPage
  /-- `unmap_page`: "VMM: failed to unmap page". -/
  | failedToUnmapPage
  | nonCanonical (addr : Nat)
  /-- `defer_free`: "deferred slots full, cannot free resources safely". -/
  | deferredSlotsFull
  | halt
  deriving DecidableEq, Repr

structure Pmm where
  bitmap : Nat
  refcounts : Store Nat
  totalFrames : Nat
  freeFrames : Nat

namespace Pmm

/-! ## Bitmap operations -/

def bitmapTest (p : Pmm) (index : Nat) : Bool := p.bitmap.testBit index

/-- `bitmap_set`, on the bitmap alone. -/
def bitmapSet (bitmap : Nat) (index : Nat) : Nat := bitmap ||| 2 ^ index

/-- `bitmap_clear`, on the bitmap alone. -/
def bitmapClear (bitmap : Nat) (index : Nat) : Nat := bitmap ^^^ (bitmap &&& 2 ^ index)

lemma testBit_bitmapSet (b i j : Nat) :
    (bitmapSet b i).testBit j = (decide (j = i) || b.testBit j) := by
  rw [bitmapSet, Nat.testBit_or, Nat.testBit_two_pow, Bool.or_comm]
  simp only [eq_comm]

lemma testBit_bitmapClear (b i j : Nat) :
    (bitmapClear b i).testBit j = (!decide (j = i) && b.testBit j) := by
  rw [bitmapClear, Nat.testBit_xor, Nat.testBit_and]
  by_cases h : j = i
  · subst h; simp
  · simp [h, Ne.symm h]

/-! ## Allocation and release -/

/-- The scan of `alloc_frame`: the first index from `index` on, among `n`, whose bit is clear. -/
def scan (bitmap : Nat) : (n index : Nat) → Option Nat
  | 0, _ => none
  | n + 1, index => if bitmap.testBit index then scan bitmap n (index + 1) else some index

/-- The state after `alloc_frame` has settled on `index`. -/
def claim (p : Pmm) (index : Nat) : Pmm :=
  { p with
    bitmap := bitmapSet p.bitmap index
    refcounts := p.refcounts.set index 1
    freeFrames := p.freeFrames - 1 }

/-- The state after a frame has gone back to the free pool. -/
def release (p : Pmm) (index : Nat) : Pmm :=
  { p with
    bitmap := bitmapClear p.bitmap index
    refcounts := p.refcounts.set index 0
    freeFrames := p.freeFrames + 1 }

/-- The state after one reference count has been overwritten. -/
def setRefcount (p : Pmm) (index : Nat) (rc : Nat) : Pmm :=
  { p with refcounts := p.refcounts.set index rc }

/-- The raw reference count of a frame, without the range assertion of `get_refcount`. -/
def refcount (p : Pmm) (frame : Nat) : Nat := p.refcounts.get frame

/-- `alloc_frame`: first clear bit from index 1 on. -/
def allocFrame (p : Pmm) : Option (Nat × Pmm) :=
  (scan p.bitmap (p.totalFrames - 1) 1).map fun index => (index, p.claim index)

def freeFrame (p : Pmm) (frame : Nat) : Except Panic Pmm :=
  if frame = 0 then .error (.pmm .cannotFreeFrameZero)
  else if ¬ frame < p.totalFrames then .error (.pmm (.frameOutOfRange frame))
  else if ¬ p.bitmapTest frame then .error (.pmm (.doubleFree frame))
  else if p.refcount frame ≠ 1 then
    .error (.pmm (.refcountNotOne frame (p.refcount frame)))
  else .ok (p.release frame)

/-- `incref`: the count saturates at 255. -/
def incref (p : Pmm) (frame : Nat) : Except Panic Pmm :=
  if ¬ frame < p.totalFrames then .error (.pmm (.frameOutOfRange frame))
  else if ¬ p.bitmapTest frame then .error (.pmm (.increfUnallocated frame))
  else if p.refcount frame < 255 then .ok (p.setRefcount frame (p.refcount frame + 1))
  else .ok p

/-- `decref`: frees the frame when the count reaches 0. -/
def decref (p : Pmm) (frame : Nat) : Except Panic Pmm :=
  if ¬ frame < p.totalFrames then .error (.pmm (.frameOutOfRange frame))
  else if ¬ p.bitmapTest frame then .error (.pmm (.decrefUnallocated frame))
  else if p.refcount frame = 0 then .error (.pmm (.refcountAlreadyZero frame))
  else if p.refcount frame = 1 then .ok (p.release frame)
  else .ok (p.setRefcount frame (p.refcount frame - 1))

def getRefcount (p : Pmm) (frame : Nat) : Except Panic Nat :=
  if ¬ frame < p.totalFrames then .error (.pmm (.frameOutOfRange frame))
  else .ok (p.refcount frame)

/-! ## Small lemmas on the state updates -/

section Updates

variable (p : Pmm) (f g : Nat)

@[simp] lemma claim_refcount : (p.claim f).refcount g = if g = f then 1 else p.refcount g :=
  Store.get_set ..

@[simp] lemma release_refcount : (p.release f).refcount g = if g = f then 0 else p.refcount g :=
  Store.get_set ..

@[simp] lemma setRefcount_refcount (rc : Nat) :
    (p.setRefcount f rc).refcount g = if g = f then rc else p.refcount g :=
  Store.get_set ..

@[simp] lemma claim_bitmapTest : (p.claim f).bitmapTest g = (decide (g = f) || p.bitmapTest g) :=
  testBit_bitmapSet ..

@[simp] lemma release_bitmapTest :
    (p.release f).bitmapTest g = (!decide (g = f) && p.bitmapTest g) :=
  testBit_bitmapClear ..

@[simp] lemma setRefcount_bitmapTest (rc : Nat) :
    (p.setRefcount f rc).bitmapTest g = p.bitmapTest g :=
  rfl

@[simp] lemma claim_totalFrames : (p.claim f).totalFrames = p.totalFrames := rfl

end Updates

/-! ## Specifications of the operations -/

variable {f b n i : Nat} {p : Pmm}

lemma scan_eq_some (h : scan b n i = some f) :
    i ≤ f ∧ f < i + n ∧ b.testBit f = false ∧ ∀ j, i ≤ j → j < f → b.testBit j = true := by
  induction n generalizing i with
  | zero => simp [scan] at h
  | succ n ih =>
    rw [scan] at h
    split at h
    · rename_i hbit
      obtain ⟨h1, h2, h3, h4⟩ := ih h
      refine ⟨by omega, by omega, h3, fun j hj hjf => ?_⟩
      rcases Nat.eq_or_lt_of_le hj with rfl | hlt
      · exact hbit
      · exact h4 j hlt hjf
    rename_i hbit
    obtain rfl : i = f := by simpa using h
    exact ⟨le_rfl, by omega, by simpa using hbit, fun j hj hjf => by omega⟩

lemma scan_eq_none (h : scan b n i = none) : ∀ j, i ≤ j → j < i + n → b.testBit j = true := by
  induction n generalizing i with
  | zero => intro j h1 h2; omega
  | succ n ih =>
    rw [scan] at h
    split at h
    · rename_i hbit
      intro j h1 h2
      rcases Nat.eq_or_lt_of_le h1 with rfl | hlt
      · exact hbit
      · exact ih h j hlt (by omega)
    · simp at h

lemma allocFrame_eq_some {p' : Pmm} (h : p.allocFrame = some (f, p')) :
    0 < f ∧ f < p.totalFrames ∧ p.bitmapTest f = false ∧
      (∀ j, 0 < j → j < f → p.bitmapTest j = true) ∧ p' = p.claim f := by
  simp only [allocFrame, Option.map_eq_some_iff, Prod.mk.injEq] at h
  obtain ⟨f', hscan, rfl, rfl⟩ := h
  obtain ⟨h1, h2, h3, h4⟩ := scan_eq_some hscan
  exact ⟨h1, by omega, h3, fun j hj hjf => h4 j hj hjf, rfl⟩

lemma freeFrame_ok (h0 : 0 < f) (hlt : f < p.totalFrames) (hbit : p.bitmapTest f = true)
    (hrc : p.refcount f = 1) : p.freeFrame f = .ok (p.release f) := by
  simp [freeFrame, hlt, hbit, hrc, Nat.pos_iff_ne_zero.mp h0]

section

variable (hlt : f < p.totalFrames) (hbit : p.bitmapTest f = true)

include hlt hbit

lemma incref_ok (hrc : p.refcount f < 255) :
    p.incref f = .ok (p.setRefcount f (p.refcount f + 1)) := by
  simp [incref, hlt, hbit, hrc]

lemma decref_last (hrc : p.refcount f = 1) : p.decref f = .ok (p.release f) := by
  simp [decref, hlt, hbit, hrc]

lemma decref_shared (hrc : 1 < p.refcount f) :
    p.decref f = .ok (p.setRefcount f (p.refcount f - 1)) := by
  have h0 : p.refcount f ≠ 0 := by omega
  have h1 : p.refcount f ≠ 1 := by omega
  simp [decref, hlt, hbit, h0, h1]

end

end Pmm

end Indominus.Memory
