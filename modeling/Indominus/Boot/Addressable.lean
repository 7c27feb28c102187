import Indominus.Boot.KernelPages
import Indominus.Memory.PmmRuns

/-!
# Which frames the kernel can reach

The identity map, through which the kernel accesses frames, ends at 4 GiB; the allocator tracks 16
GiB.
-/

namespace Indominus.Boot

open Lib Lib.Radix Memory

variable {M : Mapper} {map : MemoryMap} {ram : PhysMem} {physStart physEnd T f : Nat}
  {s s' : Machine}

/-- The allocator when `kernel_main` calls `init_kernel_page_tables`: the memory of the kernel has
been reserved. -/
def bootPmm (map : MemoryMap) (physStart physEnd : Nat) : Pmm :=
  (Pmm.bss.init map).markRegionUsed physStart physEnd

def physToVirt (phys : Nat) : Except Panic Nat := virtAddrNew phys

def Addressable (m : PhysMem) (T f : Nat) : Prop :=
  ∃ va e, physToVirt (f * PAGE_SIZE) = .ok va ∧ pteAt m 3 T (pathOf va) = some e ∧ Pte.addr e = f ∧
    Pte.isWritable e = true

lemma totalFrames_bootPmm : (bootPmm map physStart physEnd).totalFrames ≤ MAX_FRAMES := by
  rw [bootPmm, (Pmm.markRegionUsed_marked _ _ _).total, Pmm.totalFrames_init]
  exact Nat.min_le_right _ _

lemma physToVirt_frame (hf : f < MAX_FRAMES) :
    physToVirt (f * PAGE_SIZE) = .ok (f * PAGE_SIZE) := by
  refine virtAddrNew_eq_ok.mpr ⟨?_, rfl⟩
  have hlow : f * PAGE_SIZE < 2 ^ 47 := by
    unfold MAX_FRAMES at hf
    unfold PAGE_SIZE
    omega
  rw [isCanonical, decide_eq_true hlow, Bool.true_or]

lemma Booted.addressable_iff (h : Booted physStart physEnd s s' T) (hstart : physStart < 2 ^ 64)
    (hf : f < MAX_FRAMES) : Addressable s'.ram T f ↔ f < 2 ^ 20 := by
  have hvirt := physToVirt_frame hf
  constructor
  · rintro ⟨va, e, hva, hpte, -⟩
    by_contra hhigh
    cases hvirt.symm.trans hva
    rw [h.unmapped hstart (not_lt.mp hhigh) (lt_trans hf (by decide))] at hpte
    cases hpte
  intro hlow
  refine ⟨_, _, hvirt, h.identity hstart hlow,
    Pte.addr_setAddr (lt_trans hlow (by decide)) isFlags_kernelFlags, ?_⟩
  rw [Pte.isWritable_setAddr]
  decide

lemma Booted.left_below_iff (h : Booted physStart physEnd s s' T) :
    (∀ f ∈ s'.pmm.available, f < 2 ^ 20) ↔
      (∀ f ∈ s.pmm.available, f < 2 ^ 20) ∨ s.pmm.framesLeft = bootFrames physStart physEnd := by
  obtain ⟨l, hal, hlen⟩ := h.alloc
  obtain ⟨hspl, hbel⟩ := hal.lowest
  have hleft := hal.framesLeft
  constructor
  · intro hlow
    rcases Finset.eq_empty_or_nonempty s'.pmm.available with hemp | ⟨g, hg⟩
    · right
      rw [Pmm.framesLeft, hemp, Finset.card_empty] at hleft
      omega
    -- the frames that have been taken lie below one that is left
    left
    intro f hf
    rcases (hspl f).mp hf with hf | hf
    · exact (hbel f hf g hg).trans (hlow g hg)
    · exact hlow f hf
  rintro (hlow | hall) f hf
  · exact hlow f ((hspl f).mpr (.inr hf))
  have hemp : s'.pmm.available = ∅ := by
    rw [← Finset.card_eq_zero, ← Pmm.framesLeft]
    omega
  rw [hemp] at hf
  exact absurd hf (Finset.notMem_empty f)

lemma totalFrames_of_allocates {p p' : Pmm} {l : List Nat} (h : Allocates p l p') :
    p'.totalFrames = p.totalFrames := by
  induction h with
  | nil => rfl
  | cons hall _ ih =>
    obtain ⟨-, -, -, -, rfl⟩ := Pmm.allocFrame_eq_some hall
    exact ih

lemma Booted.lt_maxFrames (h : Booted physStart physEnd s s' T)
    (hsize : s.pmm.totalFrames ≤ MAX_FRAMES) (hf : f ∈ s'.pmm.available) : f < MAX_FRAMES := by
  obtain ⟨l, hal, -⟩ := h.alloc
  have hlt := (Pmm.mem_available.mp hf).1.2
  rw [totalFrames_of_allocates hal] at hlt
  exact hlt.trans_le hsize

/-- **Every frame that is allocated after the boot can be reached** exactly if none above 4 GiB was
free when the page tables were built, or if building them took all frames. -/
theorem frames_addressable_iff (hM : M.Everywhere) (hstart : physStart < 2 ^ 64)
    (hok : initKernelPageTables M physStart physEnd
      ⟨bootPmm map physStart physEnd, ram⟩ = .ok (T, s)) :
    (∀ h p f, PmmRun s.pmm (fun _ _ => True) h p → h.HandedOut f → Addressable s.ram T f) ↔
      (∀ f ∈ (bootPmm map physStart physEnd).available, f < 2 ^ 20) ∨
        (bootPmm map physStart physEnd).framesLeft = bootFrames physStart physEnd := by
  have hboot := init_installed hM totalFrames_bootPmm hok
  rw [← hboot.left_below_iff]
  have hsm : ∀ f ∈ s.pmm.available, f < MAX_FRAMES :=
    fun f hf => hboot.lt_maxFrames totalFrames_bootPmm hf
  constructor
  · intro hall f hf
    obtain ⟨h, p, hrun, hout⟩ := exists_handedOut .start hf
    exact (hboot.addressable_iff hstart (hsm f hf)).mp (hall h p f hrun hout)
  intro hlow h p f hrun hout
  have hf := hrun.available.2 f hout
  exact (hboot.addressable_iff hstart (hsm f hf)).mpr (hlow f hf)

/-! ## Two machines -/

lemma mem_available_bootPmm (hmap : map.WellFormed) :
    f ∈ (bootPmm map physStart physEnd).available ↔
    (f < Pmm.framesOfMap map ∧ f ≠ 0 ∧ map.Usable f) ∧ f ∉ Pmm.markedFrames physStart physEnd := by
  have hinit := Pmm.init_initialised hmap Pmm.bss
  by_cases hzero : f = 0
  · subst hzero
    exact iff_of_false (fun h => absurd (Pmm.mem_available.mp h).1.1 (lt_irrefl 0))
      fun h => h.1.2.1 rfl
  · rw [mem_available_iff hzero, bootPmm, (Pmm.markRegionUsed_marked _ _ _).free,
      Finset.mem_sdiff, hinit.free, List.mem_toFinset]

lemma usable_lowMap {length : Nat} : (lowMap length).Usable f ↔ f * PAGE_SIZE < length := by
  have hreg : (lowMap length).usableRegions = [⟨0, length, .usable⟩] := rfl
  rw [MemoryMap.Usable, hreg]
  simp [MemoryRegion.Has]

lemma framesOfMap_lowMap {length : Nat} (hbound : length < 2 ^ 52) :
    Pmm.framesOfMap (lowMap length) = min ((length + (PAGE_SIZE - 1)) / PAGE_SIZE) MAX_FRAMES := by
  have hmax : (lowMap length).maxAddr = length := by
    have hents : (lowMap length).entries = [⟨0, length, .usable⟩] := rfl
    have hstop : (⟨0, length, .usable⟩ : MemoryRegion).stop = length := by
      show (0 + length) % 2 ^ 64 = length
      omega
    rw [MemoryMap.maxAddr, hents, List.foldl_cons, List.foldl_nil]
    split_ifs <;> omega
  have hrd : (length + (PAGE_SIZE - 1)) % 2 ^ 64 = length + (PAGE_SIZE - 1) := by
    unfold PAGE_SIZE
    omega
  rw [Pmm.framesOfMap, hmax, framesUpTo, hrd]

section Machines

variable {length : Nat} (hlength : 2 ^ 32 ≤ length) (hbound : length < 2 ^ 52)
  (hclear : 20000 * PAGE_SIZE ≤ physStart)
  (hend : physEnd ≤ 2 ^ 32)

include hlength hbound hclear

lemma framesLeft_bootPmm : 19999 ≤ (bootPmm (lowMap length) physStart physEnd).framesLeft := by
  have hfree : Finset.Ico 1 20000 ⊆ (bootPmm (lowMap length) physStart physEnd).available := by
    intro f hf
    obtain ⟨hpos, hlt⟩ := Finset.mem_Ico.mp hf
    have hmk : f ∉ Pmm.markedFrames physStart physEnd := by
      rw [Pmm.markedFrames, List.mem_range'_1]
      unfold PAGE_SIZE at hclear ⊢
      omega
    rw [mem_available_bootPmm (lowMap_wellFormed hbound), usable_lowMap, framesOfMap_lowMap hbound]
    refine ⟨⟨?_, by omega, ?_⟩, hmk⟩
    · unfold PAGE_SIZE MAX_FRAMES
      omega
    · unfold PAGE_SIZE
      omega
  have hcard := Finset.card_le_card hfree
  rwa [Nat.card_Ico] at hcard

variable (hstart : physStart < 2 ^ 64) (hfits : physEnd ≤ physStart + 2 ^ 30)

include hstart hfits

lemma bootFrames_lt :
    bootFrames physStart physEnd < (bootPmm (lowMap length) physStart physEnd).framesLeft := by
  have hneeded := bootFrames_le hstart hfits
  have hroom : 19999 ≤ (bootPmm (lowMap length) physStart physEnd).framesLeft :=
    framesLeft_bootPmm hlength hbound hclear
  omega

include hend

lemma exists_booted (ram : PhysMem) : ∃ T s, initKernelPageTables referenceMapper physStart physEnd
    ⟨bootPmm (lowMap length) physStart physEnd, ram⟩ = .ok (T, s) := by
  have hroom := bootFrames_lt hlength hbound hclear hstart hfits
  exact init_ok referenceMapper_everywhere totalFrames_bootPmm hstart hfits
    (hend.trans (by decide)) hroom.le

/-- With 16 GiB of memory a frame is handed out that cannot be reached. -/
lemma exists_unreachable (hlarge : 2 ^ 34 ≤ length) (ram : PhysMem) :
    ∃ T s h p f, initKernelPageTables referenceMapper physStart physEnd
        ⟨bootPmm (lowMap length) physStart physEnd, ram⟩ = .ok (T, s) ∧
      PmmRun s.pmm (fun _ _ => True) h p ∧ h.HandedOut f ∧ ¬ Addressable s.ram T f := by
  obtain ⟨T, s, hok⟩ := exists_booted hlength hbound hclear hend hstart hfits ram
  have hboot := init_installed referenceMapper_everywhere totalFrames_bootPmm hok
  have hlast : 2 ^ 22 - 1 ∈ (bootPmm (lowMap length) physStart physEnd).available := by
    have hmk : 2 ^ 22 - 1 ∉ Pmm.markedFrames physStart physEnd := by
      rw [Pmm.markedFrames, List.mem_range'_1, framesUpTo]
      unfold PAGE_SIZE
      omega
    rw [mem_available_bootPmm (lowMap_wellFormed hbound), framesOfMap_lowMap hbound, usable_lowMap]
    refine ⟨⟨?_, by decide, ?_⟩, hmk⟩
    · unfold PAGE_SIZE MAX_FRAMES
      omega
    · unfold PAGE_SIZE
      omega
  obtain ⟨f, hf, hhigh⟩ : ∃ f ∈ s.pmm.available, 2 ^ 20 ≤ f := by
    by_contra hnone
    have hbelow : ∀ f ∈ s.pmm.available, f < 2 ^ 20 :=
      fun f hf => not_le.mp fun hhigh => hnone ⟨f, hf, hhigh⟩
    rcases hboot.left_below_iff.mp hbelow with hlow | hall
    · exact absurd (hlow _ hlast) (by decide)
    · exact (bootFrames_lt hlength hbound hclear hstart hfits).ne hall.symm
  obtain ⟨h, p, hrun, hout⟩ := exists_handedOut .start hf
  refine ⟨T, s, h, p, f, hok, hrun, hout, fun haddr => ?_⟩
  exact absurd ((hboot.addressable_iff hstart (hboot.lt_maxFrames totalFrames_bootPmm hf)).mp haddr)
    (not_lt.mpr hhigh)

end Machines

/-- A kernel of 1 MiB on a machine with 4 GiB of memory: every frame can be reached. -/
theorem frames_addressable_iff_four :
    ∃ T s, initKernelPageTables referenceMapper 0x10000000 0x10100000
      ⟨bootPmm (lowMap (2 ^ 32)) 0x10000000 0x10100000, Store.const (Store.const 0)⟩ = .ok (T, s) ∧
    ∀ h p f, PmmRun s.pmm (fun _ _ => True) h p → h.HandedOut f → Addressable s.ram T f := by
  obtain ⟨T, s, hok⟩ :=
    exists_booted (le_refl (2 ^ 32)) (by decide) (show 20000 * PAGE_SIZE ≤ 0x10000000 by decide)
    (show 0x10100000 ≤ 2 ^ 32 by decide) (by decide) (by decide) (Store.const (Store.const 0))
  refine ⟨T, s, hok, ?_⟩
  refine (frames_addressable_iff referenceMapper_everywhere (by decide) hok).mpr ?_
  refine .inl fun f hf => ?_
  rw [mem_available_bootPmm (lowMap_wellFormed (by decide))] at hf
  exact hf.1.1.trans_le (Nat.min_le_left _ _)

/-- On a machine with 16 GiB of memory a frame is allocated that cannot be reached. -/
theorem unreachable_frame_allocated :
    ∃ T s h p f, initKernelPageTables referenceMapper 0x10000000 0x10100000
      ⟨bootPmm (lowMap (2 ^ 34)) 0x10000000 0x10100000, Store.const (Store.const 0)⟩ = .ok (T, s) ∧
    PmmRun s.pmm (fun _ _ => True) h p ∧ h.HandedOut f ∧ ¬ Addressable s.ram T f :=
  exists_unreachable (by decide) (by decide) (by decide) (by decide) (by decide) (by decide)
    (le_refl (2 ^ 34)) _

end Indominus.Boot
