import Indominus.Memory.Pmm
import Mathlib.Order.Interval.Finset.Nat

/-!
# The allocator at boot (`pmm::init`, `mark_region_used`)

Sums of addresses wrap at 64 bits, as in a release build.
-/

namespace Indominus.Memory

open Lib List Finset

/-! ## Memory maps (`indo-core`) -/

inductive MemoryRegionKind
  | usable
  | reserved
  | acpiReclaimable
  | acpiNvs
  | mmio
  | bootloaderCode
  | kernelCode
  | unknown
  deriving DecidableEq, Repr

structure MemoryRegion where
  start : Nat
  length : Nat
  kind : MemoryRegionKind

def MAX_MEMORY_REGIONS : Nat := 256

/-- `MemoryMap`: an array of regions of which the first `count` are valid. -/
structure MemoryMap where
  regions : List MemoryRegion
  count : Nat
  size : regions.length = MAX_MEMORY_REGIONS
  count_le : count ≤ MAX_MEMORY_REGIONS

/-- `start + length`. -/
def MemoryRegion.stop (r : MemoryRegion) : Nat := (r.start + r.length) % 2 ^ 64

def MemoryRegion.Has (r : MemoryRegion) (a : Nat) : Prop := r.start ≤ a ∧ a < r.start + r.length

namespace MemoryMap

def entries (map : MemoryMap) : List MemoryRegion := map.regions.take map.count

def usableRegions (map : MemoryMap) : List MemoryRegion :=
  map.entries.filter fun r => r.kind == .usable

/-- The first loop of `init`: the highest end of a region. -/
def maxAddr (map : MemoryMap) : Nat :=
  map.entries.foldl (fun maxAddr r => if r.stop > maxAddr then r.stop else maxAddr) 0

/-- Regions that start at a page, do not overlap and end below 2^52. -/
structure WellFormed (map : MemoryMap) : Prop where
  aligned : ∀ r ∈ map.entries, r.start % PAGE_SIZE = 0
  bounded : ∀ r ∈ map.entries, r.start + r.length < 2 ^ 52
  disjoint : map.entries.Pairwise fun r r' => ∀ a, ¬ (r.Has a ∧ r'.Has a)

def Usable (map : MemoryMap) (frame : Nat) : Prop :=
  ∃ r ∈ map.usableRegions, r.Has (frame * PAGE_SIZE)

end MemoryMap

/-- `(addr + PAGE_SIZE - 1) / PAGE_SIZE`. -/
def framesUpTo (addr : Nat) : Nat := (addr + (PAGE_SIZE - 1)) % 2 ^ 64 / PAGE_SIZE

namespace Pmm

/-! ## The functions -/

/-- The globals before `init`: all zero. -/
def bss : Pmm := { bitmap := 0, refcounts := Store.const 0, totalFrames := 0, freeFrames := 0 }

def clearFrame (p : Pmm) (frame : Nat) : Pmm :=
  { p with bitmap := bitmapClear p.bitmap frame, freeFrames := p.freeFrames + 1 }

/-- The frames of a usable region that are tracked: `start_frame..clamped_end`. -/
def trackedFrames (total : Nat) (r : MemoryRegion) : List Nat :=
  List.range' (r.start / PAGE_SIZE) (min (framesUpTo r.stop) total - r.start / PAGE_SIZE)

/-- `TOTAL_FRAMES`, as `init` computes it. -/
def framesOfMap (map : MemoryMap) : Nat := min (framesUpTo map.maxAddr) MAX_FRAMES

@[irreducible] def ones (n : Nat) : Nat := 2 ^ n - 1

/-- Steps 1 and 2 of `init`: every byte of the bitmap is `0xFF`. -/
def allUsed (p : Pmm) (map : MemoryMap) : Pmm :=
  { p with totalFrames := framesOfMap map, bitmap := ones MAX_FRAMES, freeFrames := 0 }

/-- Step 3 of `init`: the usable regions are free. -/
def freeUsable (p : Pmm) (map : MemoryMap) : Pmm :=
  map.usableRegions.foldl (fun p r => (trackedFrames p.totalFrames r).foldl clearFrame p) p

/-- Step 4 of `init`, and the body of the loop of `mark_region_used`. -/
def reserve (p : Pmm) (frame : Nat) : Pmm :=
  { p with bitmap := bitmapSet p.bitmap frame, freeFrames := p.freeFrames - 1 }

def init (p : Pmm) (map : MemoryMap) : Pmm :=
  let p := (p.allUsed map).freeUsable map
  if p.bitmapTest 0 then p else p.reserve 0

/-- A round of `mark_region_used`. -/
def markFrame (p : Pmm) (frame : Nat) : Pmm :=
  if frame < p.totalFrames ∧ p.bitmapTest frame = false then p.reserve frame else p

/-- `start_frame..end_frame` of `mark_region_used`. -/
def markedFrames (physStart physEnd : Nat) : List Nat :=
  List.range' (physStart / PAGE_SIZE) (framesUpTo physEnd - physStart / PAGE_SIZE)

def markRegionUsed (p : Pmm) (physStart physEnd : Nat) : Pmm :=
  (markedFrames physStart physEnd).foldl markFrame p

/-! ## The free frames -/

/-- The clear bits below `TOTAL_FRAMES`. -/
def freeSet (p : Pmm) : Finset Nat :=
  (Finset.range p.totalFrames).filter fun f => p.bitmapTest f = false

def Counts (p : Pmm) : Prop := p.freeFrames = p.freeSet.card

variable {p p' : Pmm} {f g : Nat} {map : MemoryMap} {l : List Nat} {r : MemoryRegion}

@[simp] lemma mem_freeSet : f ∈ p.freeSet ↔ f < p.totalFrames ∧ p.bitmapTest f = false := by
  rw [freeSet, Finset.mem_filter, Finset.mem_range]

lemma freeSet_reserve (p : Pmm) (f : Nat) : (p.reserve f).freeSet = p.freeSet.erase f := by
  ext g
  have hbit : (p.reserve f).bitmapTest g = (decide (g = f) || p.bitmapTest g) :=
    testBit_bitmapSet ..
  have htot : (p.reserve f).totalFrames = p.totalFrames := rfl
  simp only [mem_freeSet, mem_erase, hbit, htot, Bool.or_eq_false_iff, decide_eq_false_iff_not]
  tauto

lemma bitmapTest_clearFrame (p : Pmm) (f g : Nat) :
    (p.clearFrame f).bitmapTest g = (!decide (g = f) && p.bitmapTest g) :=
  testBit_bitmapClear ..

lemma freeSet_clearFrame (hf : f < p.totalFrames) :
    (p.clearFrame f).freeSet = insert f p.freeSet := by
  ext g
  have htot : (p.clearFrame f).totalFrames = p.totalFrames := rfl
  rw [mem_insert, mem_freeSet, bitmapTest_clearFrame, htot]
  by_cases hg : g = f
  · simp [hg, hf]
  · simp [hg]

lemma Counts.reserve (h : p.Counts) (hf : f ∈ p.freeSet) : (p.reserve f).Counts := by
  rw [Counts, freeSet_reserve, card_erase_of_mem hf, ← h]
  rfl

lemma Counts.clearFrame (h : p.Counts) (hlt : f < p.totalFrames) (hf : f ∉ p.freeSet) :
    (p.clearFrame f).Counts := by
  rw [Counts, freeSet_clearFrame hlt, card_insert_of_notMem hf, ← h]
  rfl

/-! ## A region that is taken out -/

/-- What `mark_region_used` keeps, and what it takes from the free frames. -/
structure Marked (S : Finset Nat) (p p' : Pmm) : Prop where
  free : p'.freeSet = p.freeSet \ S
  bit : ∀ f, p.bitmapTest f = true → p'.bitmapTest f = true
  refcount : ∀ f, p'.refcount f = p.refcount f
  total : p'.totalFrames = p.totalFrames
  counts : p.Counts → p'.Counts

lemma markFrame_marked (p : Pmm) (f : Nat) : Marked {f} p (p.markFrame f) := by
  rw [markFrame]
  split_ifs with hfree
  · refine ⟨?_, fun g hg => ?_, fun _ => rfl, rfl, fun h => h.reserve (mem_freeSet.mpr hfree)⟩
    · rw [freeSet_reserve, erase_eq]
    · exact (testBit_bitmapSet ..).trans
        (by rw [show p.bitmap.testBit g = true from hg, Bool.or_true])
  refine ⟨?_, fun _ hg => hg, fun _ => rfl, rfl, id⟩
  rw [sdiff_singleton_eq_erase, erase_eq_of_notMem]
  rwa [mem_freeSet]

lemma foldl_markFrame_marked (p : Pmm) (l : List Nat) :
    Marked l.toFinset p (l.foldl markFrame p) := by
  induction l generalizing p with
  | nil => exact ⟨by simp, fun _ h => h, fun _ => rfl, rfl, id⟩
  | cons f l ih =>
    have hhead := p.markFrame_marked f
    have htail := ih (p.markFrame f)
    rw [foldl_cons]
    refine ⟨?_, fun g hg => htail.bit g (hhead.bit g hg), fun g => ?_, ?_,
      fun h => htail.counts (hhead.counts h)⟩
    · rw [htail.free, hhead.free, sdiff_sdiff_left, toFinset_cons, Finset.insert_eq,
        Finset.sup_eq_union]
    · rw [htail.refcount, hhead.refcount]
    · rw [htail.total, hhead.total]

lemma markRegionUsed_marked (p : Pmm) (physStart physEnd : Nat) :
    Marked (markedFrames physStart physEnd).toFinset p (p.markRegionUsed physStart physEnd) :=
  foldl_markFrame_marked p _

lemma mem_markedFrames {physStart physEnd : Nat} (hrd : physEnd + (PAGE_SIZE - 1) < 2 ^ 64)
    (hst : physStart < (f + 1) * PAGE_SIZE) (hend : f * PAGE_SIZE < physEnd) :
    f ∈ markedFrames physStart physEnd := by
  rw [markedFrames, mem_range'_1, framesUpTo]
  unfold PAGE_SIZE at *
  omega

/-! ## The usable regions -/

lemma mem_trackedFrames {total : Nat} (hal : r.start % PAGE_SIZE = 0)
    (hbnd : r.start + r.length < 2 ^ 52) :
    f ∈ trackedFrames total r ↔ r.Has (f * PAGE_SIZE) ∧ f < total := by
  have hstop : framesUpTo r.stop = (r.start + r.length + (PAGE_SIZE - 1)) / PAGE_SIZE := by
    rw [framesUpTo, MemoryRegion.stop, Nat.mod_eq_of_lt (hbnd.trans (by decide))]
    unfold PAGE_SIZE
    omega
  rw [trackedFrames, mem_range'_1, MemoryRegion.Has]
  unfold PAGE_SIZE at *
  omega

/-- What the loop over the frames of a region does. -/
structure Freed (S : Finset Nat) (p p' : Pmm) : Prop where
  free : p'.freeSet = p.freeSet ∪ S
  bit : ∀ f, f ∉ S → p'.bitmapTest f = p.bitmapTest f
  refcount : ∀ f, p'.refcount f = p.refcount f
  total : p'.totalFrames = p.totalFrames
  counts : p.Counts → p'.Counts

lemma foldl_clearFrame_freed (hnd : l.Nodup) (hlt : ∀ f ∈ l, f < p.totalFrames)
    (hused : ∀ f ∈ l, f ∉ p.freeSet) : Freed l.toFinset p (l.foldl clearFrame p) := by
  induction l generalizing p with
  | nil => exact ⟨by simp, fun _ _ => rfl, fun _ => rfl, rfl, id⟩
  | cons f l ih =>
    obtain ⟨hout, hnd⟩ := nodup_cons.mp hnd
    have hf := hlt f mem_cons_self
    have hrest : ∀ g ∈ l, g ∉ (p.clearFrame f).freeSet := by
      intro g hg
      rw [freeSet_clearFrame hf, mem_insert, not_or]
      exact ⟨fun heq => hout (heq ▸ hg), hused g (mem_cons_of_mem _ hg)⟩
    have htail := ih (p := p.clearFrame f) hnd (fun g hg => hlt g (mem_cons_of_mem _ hg)) hrest
    rw [foldl_cons]
    refine ⟨?_, fun g hg => ?_, htail.refcount, htail.total,
      fun h => htail.counts (h.clearFrame hf (hused f mem_cons_self))⟩
    · rw [htail.free, freeSet_clearFrame hf, toFinset_cons, insert_union, union_insert]
    rw [toFinset_cons, mem_insert, not_or] at hg
    rw [htail.bit g hg.2, bitmapTest_clearFrame]
    simp [hg.1]

lemma foldl_regions_freed {rs : List MemoryRegion} (hal : ∀ r ∈ rs, r.start % PAGE_SIZE = 0)
    (hbnd : ∀ r ∈ rs, r.start + r.length < 2 ^ 52)
    (hdisjoint : rs.Pairwise fun r r' => ∀ a, ¬ (r.Has a ∧ r'.Has a))
    (hused : ∀ r ∈ rs, ∀ f ∈ p.freeSet, ¬ r.Has (f * PAGE_SIZE)) :
    Freed (rs.flatMap (trackedFrames p.totalFrames)).toFinset p
      (rs.foldl (fun p r => (trackedFrames p.totalFrames r).foldl clearFrame p) p) := by
  induction rs generalizing p with
  | nil => exact ⟨by simp, fun _ _ => rfl, fun _ => rfl, rfl, id⟩
  | cons r rs ih =>
    obtain ⟨hap, hdisjoint⟩ := pairwise_cons.mp hdisjoint
    have hmem : ∀ f, f ∈ trackedFrames p.totalFrames r ↔ r.Has (f * PAGE_SIZE) ∧
      f < p.totalFrames := fun f =>
      mem_trackedFrames (hal r mem_cons_self) (hbnd r mem_cons_self)
    have hhead : Freed (trackedFrames p.totalFrames r).toFinset p _ :=
      foldl_clearFrame_freed (nodup_range' ..) (fun f hf => ((hmem f).mp hf).2)
        fun f hf hfree => hused r mem_cons_self f hfree ((hmem f).mp hf).1
    have hused' : ∀ r' ∈ rs, ∀ f ∈ ((trackedFrames p.totalFrames r).foldl clearFrame p).freeSet,
        ¬ r'.Has (f * PAGE_SIZE) := by
      intro r' hr' f hf hin
      rw [hhead.free, mem_union, mem_toFinset, hmem] at hf
      rcases hf with hf | hf
      · exact hused r' (mem_cons_of_mem _ hr') f hf hin
      · exact hap r' hr' _ ⟨hf.1, hin⟩
    have htail := ih (fun r' hr' => hal r' (mem_cons_of_mem _ hr'))
      (fun r' hr' => hbnd r' (mem_cons_of_mem _ hr')) hdisjoint hused'
    rw [hhead.total] at htail
    rw [foldl_cons, flatMap_cons, toFinset_append]
    refine ⟨?_, fun f hf => ?_, fun f => (htail.refcount f).trans (hhead.refcount f),
      htail.total.trans hhead.total, fun h => htail.counts (hhead.counts h)⟩
    · rw [htail.free, hhead.free, union_assoc]
    · rw [mem_union, not_or] at hf
      rw [htail.bit f hf.2, hhead.bit f hf.1]

/-! ## `init` -/

lemma testBit_ones {n : Nat} (hf : f < n) : (ones n).testBit f = true := by
  rw [ones, Nat.testBit_two_pow_sub_one]
  exact decide_eq_true hf

lemma bitmapTest_allUsed (hf : f < MAX_FRAMES) : (p.allUsed map).bitmapTest f = true :=
  testBit_ones hf

lemma refcount_allUsed : (p.allUsed map).refcount f = p.refcount f := rfl

lemma freeSet_allUsed (p : Pmm) (map : MemoryMap) : (p.allUsed map).freeSet = ∅ := by
  rw [freeSet, filter_eq_empty_iff]
  intro f hf
  have hlt : f < MAX_FRAMES := (Finset.mem_range.mp hf).trans_le (Nat.min_le_right ..)
  rw [bitmapTest_allUsed hlt]
  exact Bool.noConfusion

lemma totalFrames_init (p : Pmm) (map : MemoryMap) :
    (p.init map).totalFrames = framesOfMap map := by
  have hregion : ∀ (l : List Nat) (p : Pmm), (l.foldl clearFrame p).totalFrames =
    p.totalFrames := by
    intro l
    induction l with
    | nil => exact fun _ => rfl
    | cons f l ih => exact fun p => ih (p.clearFrame f)
  have hreg : ∀ (rs : List MemoryRegion) (p : Pmm),
      (rs.foldl (fun p r => (trackedFrames p.totalFrames r).foldl clearFrame p) p).totalFrames =
        p.totalFrames := by
    intro rs
    induction rs with
    | nil => exact fun _ => rfl
    | cons r rs ih => exact fun p => (ih _).trans (hregion _ p)
  rw [init]
  split_ifs <;> exact hreg _ _

/-- What `init` leaves behind. -/
structure Initialised (map : MemoryMap) (p p' : Pmm) : Prop where
  free : ∀ f, f ∈ p'.freeSet ↔ f < framesOfMap map ∧ f ≠ 0 ∧ map.Usable f
  zero : 0 ∉ p'.freeSet
  refcount : ∀ f, p'.refcount f = p.refcount f
  total : p'.totalFrames = framesOfMap map
  counts : p'.Counts

lemma freeUsable_freed (hmap : map.WellFormed) (p : Pmm) :
    Freed (map.usableRegions.flatMap (trackedFrames (framesOfMap map))).toFinset (p.allUsed map)
      ((p.allUsed map).freeUsable map) := by
  have hents : ∀ r ∈ map.usableRegions, r ∈ map.entries := fun r hr => (mem_filter.mp hr).1
  refine foldl_regions_freed (p := p.allUsed map) (fun r hr => hmap.aligned r (hents r hr))
    (fun r hr => hmap.bounded r (hents r hr)) (hmap.disjoint.filter _) fun r _ f hf => ?_
  rw [freeSet_allUsed] at hf
  exact absurd hf (notMem_empty f)

/-- Free are the usable frames except frame 0. -/
lemma init_initialised (hmap : map.WellFormed) (p : Pmm) : Initialised map p (p.init map) := by
  have hfreed := freeUsable_freed hmap p
  have hcounts : ((p.allUsed map).freeUsable map).Counts :=
    hfreed.counts (by rw [Counts, freeSet_allUsed]; rfl)
  have hmem : ∀ f, f ∈ ((p.allUsed map).freeUsable map).freeSet ↔ f < framesOfMap map ∧
    map.Usable f := by
    intro f
    rw [hfreed.free, freeSet_allUsed, empty_union, mem_toFinset, mem_flatMap]
    constructor
    · rintro ⟨r, hr, hf⟩
      have hent := (mem_filter.mp hr).1
      rw [mem_trackedFrames (hmap.aligned r hent) (hmap.bounded r hent)] at hf
      exact ⟨hf.2, r, hr, hf.1⟩
    rintro ⟨hlt, r, hr, hin⟩
    have hent := (mem_filter.mp hr).1
    exact ⟨r, hr, (mem_trackedFrames (hmap.aligned r hent) (hmap.bounded r hent)).mpr ⟨hin, hlt⟩⟩
  have hbit := hfreed.bit
  have hclr : 0 ∉ ((p.allUsed map).freeUsable map).freeSet →
      0 ∉ (map.usableRegions.flatMap (trackedFrames (framesOfMap map))).toFinset := by
    rw [hfreed.free, mem_union, not_or]
    exact And.right
  have hrefcount : ∀ f, ((p.allUsed map).freeUsable map).refcount f = p.refcount f :=
    fun f => (hfreed.refcount f).trans refcount_allUsed
  have htot : ((p.allUsed map).freeUsable map).totalFrames = framesOfMap map := hfreed.total
  rw [init]
  generalize (p.allUsed map).freeUsable map = q at *
  split_ifs with hzero
  · -- frame 0 is not in a usable region, or not tracked
    have hout : 0 ∉ q.freeSet := by simp [hzero]
    refine ⟨fun f => ?_, hout, hrefcount, htot, hcounts⟩
    rw [hmem]
    refine and_congr_right fun hlt => iff_and_self.mpr fun husable => ?_
    rintro rfl
    exact hout ((hmem 0).mpr ⟨hlt, husable⟩)
  have hin : 0 ∈ q.freeSet := by
    -- a bit that is clear has been cleared, so the frame is tracked
    by_contra hout
    have hkept : 0 ∉ (map.usableRegions.flatMap (trackedFrames (framesOfMap map))).toFinset :=
      hclr hout
    exact hzero ((hbit 0 hkept).trans (bitmapTest_allUsed (by decide)))
  refine ⟨fun f => ?_, ?_, hrefcount, htot, hcounts.reserve hin⟩
  · rw [freeSet_reserve, mem_erase, hmem]
    tauto
  · rw [freeSet_reserve]
    exact notMem_erase 0 _

end Pmm

end Indominus.Memory
