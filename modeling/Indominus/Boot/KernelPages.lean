import Indominus.Boot.KernelMap

/-! # The pages that `init_kernel_page_tables` leaves behind -/

namespace Indominus.Boot

open Lib Lib.Radix Memory List

variable {M : Mapper} {s s' : Machine} {T va : Nat} {r : Request} {rs : List Request}

variable {physStart physEnd : Nat}

/-- The frames that `init_kernel_page_tables` takes: for the PML4, for the pages of the heap and for
the other tables. -/
def bootFrames (physStart physEnd : Nat) : Nat :=
  1 + (allParents (bootRequests physStart physEnd)).card + KERNEL_HEAP_INITIAL_SIZE / PAGE_SIZE

/-- The PML4 `T` maps the pages of the kernel and nothing else. -/
structure Booted (physStart physEnd : Nat) (s s' : Machine) (T : Nat) : Prop where
  tables : KernelTables s' T
  apart : ((bootRequests physStart physEnd).map fun r => pathOf r.va).Nodup
  mapped : ∀ r ∈ bootRequests physStart physEnd, ∃ frame,
    (∀ phys, r.phys = some phys → frame = phys / PAGE_SIZE) ∧
    pteAt s'.ram 3 T (pathOf r.va) = some (Pte.setAddr frame kernelFlags)
  other : ∀ p, PagePath p → (∀ r ∈ bootRequests physStart physEnd, p ≠ pathOf r.va) →
    pteAt s'.ram 3 T p = none
  alloc : ∃ l, Allocates s.pmm l s'.pmm ∧ l.length = bootFrames physStart physEnd

lemma countP_bootRequests : (bootRequests physStart physEnd).countP (fun r => r.phys.isNone) =
    KERNEL_HEAP_INITIAL_SIZE / PAGE_SIZE := by
  have hrg :
      ∀ offset last addr, (rangeRequests offset last addr).countP (fun r => r.phys.isNone) = 0 := by
    intro offset last addr
    rw [rangeRequests, countP_map, countP_eq_zero]
    exact fun _ _ => Bool.noConfusion
  have hheap : ∀ is, (heapRequests is).countP (fun r => r.phys.isNone) = is.length := by
    intro is
    rw [heapRequests, countP_map]
    exact countP_eq_length.mpr fun _ _ => rfl
  simp only [bootRequests, countP_append, hrg, hheap, length_range, countP_singleton]
  rfl

lemma missingFor_of_empty (hnone : ∀ q, q ≠ [] → tableOf s.ram T q = none) :
    missingFor s.ram T rs = allParents rs := by
  refine Finset.filter_true_of_mem fun q hq => hnone q ?_
  obtain ⟨r, -, hr⟩ := Finset.mem_biUnion.mp hq
  rintro rfl
  simp [parents, pathOf] at hr

lemma init_installed (hM : M.Everywhere) (hsize : s.pmm.totalFrames ≤ MAX_FRAMES)
    (hok : initKernelPageTables M physStart physEnd s = .ok (T, s')) :
    Booted physStart physEnd s s' T := by
  rw [initKernelPageTables_eq] at hok
  obtain ⟨⟨pml4, s1⟩, hcr, hrest⟩ := bind_eq_ok.mp hok
  obtain ⟨s2, hrun, hret⟩ := bind_eq_ok.mp hrest
  cases hret
  obtain ⟨htbs, hal, hnone, hemp⟩ := KernelTables.of_createEmptyPml4 (mapError_eq_ok.mp hcr) hsize
  have hinst := requests_installed hM htbs hrun
  refine ⟨hinst.tables, hinst.apart, hinst.mapped,
    fun p hp hnot => (hinst.other p hp hnot).trans (hemp p hp), ?_⟩
  obtain ⟨l, hal', hlen⟩ := hinst.alloc
  refine ⟨_, hal.append hal', ?_⟩
  rw [length_append, hlen, missingFor_of_empty hnone, countP_bootRequests, bootFrames,
    length_singleton]
  omega

/-! ## The addresses -/

def pageNumber (p : List Nat) : Nat := p.foldl (fun n i => n * 512 + i) 0

lemma pageNumber_pathOf (va : Nat) : pageNumber (pathOf va) = va / 2 ^ 12 % 2 ^ 36 := by
  simp only [pageNumber, pathOf, foldl_cons, foldl_nil, pml4Index, pdptIndex, pdIndex, ptIndex]
  omega

abbrev imageRequests (physStart physEnd : Nat) : List Request :=
  rangeRequests ((KERNEL_VIRT_BASE + 2 ^ 64 - physStart) % 2 ^ 64) physEnd physStart

lemma mem_imageRequests (hst : physStart < 2 ^ 64) : r ∈ imageRequests physStart physEnd ↔
    ∃ i, physStart + i * PAGE_SIZE < physEnd ∧
      r = ⟨(KERNEL_VIRT_BASE + i * PAGE_SIZE) % 2 ^ 64, some (physStart + i * PAGE_SIZE)⟩ := by
  have hva :
      ∀ i, (physStart + i * PAGE_SIZE + (KERNEL_VIRT_BASE + 2 ^ 64 - physStart) % 2 ^ 64) % 2 ^ 64 =
      (KERNEL_VIRT_BASE + i * PAGE_SIZE) % 2 ^ 64 := by
    intro i
    omega
  simp only [rangeRequests, mem_map, mem_range, hva]
  refine exists_congr fun i => and_congr ?_ eq_comm
  unfold PAGE_SIZE
  omega

lemma mem_heapRequests : r ∈ heapRequests (range (KERNEL_HEAP_INITIAL_SIZE / PAGE_SIZE)) ↔
    ∃ i < 4096, r = ⟨KERNEL_HEAP_BASE + i * PAGE_SIZE, none⟩ := by
  simp only [heapRequests, mem_map, mem_range]
  exact exists_congr fun i => and_congr_right fun _ => eq_comm

lemma mem_identityRequests :
    r ∈ rangeRequests 0 IDENTITY_END 0 ↔ ∃ i < 2 ^ 20, r = ⟨i * PAGE_SIZE,
      some (i * PAGE_SIZE)⟩ := by
  simp only [rangeRequests, mem_map, mem_range]
  refine exists_congr fun i => ?_
  have hcnt : i < (IDENTITY_END - 0 + (PAGE_SIZE - 1)) / PAGE_SIZE ↔ i < 2 ^ 20 := by
    unfold IDENTITY_END PAGE_SIZE
    omega
  refine and_congr_right fun hi => ?_
  have hva : (0 + i * PAGE_SIZE + 0) % 2 ^ 64 = i * PAGE_SIZE := by
    unfold PAGE_SIZE
    omega
  rw [hva, Nat.zero_add, eq_comm]

lemma mem_bootRequests (hst : physStart < 2 ^ 64) : r ∈ bootRequests physStart physEnd ↔
    (∃ i, physStart + i * PAGE_SIZE < physEnd ∧
      r = ⟨(KERNEL_VIRT_BASE + i * PAGE_SIZE) % 2 ^ 64, some (physStart + i * PAGE_SIZE)⟩) ∨
    (∃ i < 4096, r = ⟨KERNEL_HEAP_BASE + i * PAGE_SIZE, none⟩) ∨
    (∃ i < 2 ^ 20, r = ⟨i * PAGE_SIZE, some (i * PAGE_SIZE)⟩) ∨
      r = ⟨LAPIC_VIRT, some LAPIC_PHYS⟩ := by
  rw [bootRequests, mem_append, mem_append, mem_append, mem_imageRequests hst, mem_heapRequests,
    mem_identityRequests, mem_singleton]

/-- The number of the page that is requested, as the tables see it. -/
def Request.number (r : Request) : Nat := r.va / 2 ^ 12 % 2 ^ 36

lemma nodup_paths (h : (rs.map Request.number).Nodup) : (rs.map fun r => pathOf r.va).Nodup := by
  refine List.Nodup.of_map pageNumber ?_
  rw [map_map]
  have heq : (pageNumber ∘ fun r : Request => pathOf r.va) = Request.number := by
    funext r
    rw [Function.comp_apply, pageNumber_pathOf, Request.number]
  rw [heq]
  exact h

lemma nodup_range {n : Nat} {f : Nat → Request}
    (h : ∀ i < n, ∀ j < n, (f i).number = (f j).number → i = j) :
    (((range n).map f).map Request.number).Nodup := by
  rw [map_map]
  refine List.nodup_range.map_on fun i hi j hj heq => ?_
  exact h i (List.mem_range.mp hi) j (List.mem_range.mp hj) heq

/-- Image, heap, identity map and APIC are on different pages. -/
lemma nodup_bootRequests (hst : physStart < 2 ^ 64) (hfits : physEnd ≤ physStart + 2 ^ 30) :
    ((bootRequests physStart physEnd).map fun r => pathOf r.va).Nodup := by
  have hnum : ∀ va phys, (⟨va, phys⟩ : Request).number = va / 2 ^ 12 % 2 ^ 36 := fun _ _ => rfl
  refine nodup_paths ?_
  rw [bootRequests, map_append, map_append, map_append]
  refine nodup_append.mpr ⟨?_, nodup_append.mpr ⟨?_, nodup_append.mpr ⟨?_, nodup_singleton _,
    ?_⟩, ?_⟩, ?_⟩
  · refine nodup_range fun i hi j hj heq => ?_
    simp only [hnum, KERNEL_VIRT_BASE, PAGE_SIZE] at hi hj heq
    omega
  · refine nodup_range fun i hi j hj heq => ?_
    simp only [hnum, KERNEL_HEAP_BASE, KERNEL_HEAP_INITIAL_SIZE, PAGE_SIZE] at hi hj heq
    omega
  · refine nodup_range fun i hi j hj heq => ?_
    simp only [hnum, IDENTITY_END, PAGE_SIZE] at hi hj heq
    omega
  · simp only [mem_map, mem_singleton]
    rintro _ ⟨r, hr, rfl⟩ _ ⟨r', rfl, rfl⟩
    obtain ⟨i, hi, rfl⟩ := mem_identityRequests.mp hr
    simp only [hnum, LAPIC_VIRT, PAGE_SIZE]
    omega
  · simp only [← map_append, mem_map, mem_append, mem_singleton]
    rintro _ ⟨r, hr, rfl⟩ _ ⟨r', hr', rfl⟩
    obtain ⟨i, hi, rfl⟩ := mem_heapRequests.mp hr
    rcases hr' with hr' | rfl
    · obtain ⟨j, hj, rfl⟩ := mem_identityRequests.mp hr'
      simp only [hnum, KERNEL_HEAP_BASE, PAGE_SIZE]
      omega
    · simp only [hnum, KERNEL_HEAP_BASE, LAPIC_VIRT, PAGE_SIZE]
      omega
  simp only [← map_append, mem_map, mem_append, mem_singleton]
  rintro _ ⟨r, hr, rfl⟩ _ ⟨r', hr', rfl⟩
  obtain ⟨i, hi, rfl⟩ := (mem_imageRequests hst).mp hr
  rcases hr' with hr' | hr' | rfl
  · obtain ⟨j, hj, rfl⟩ := mem_heapRequests.mp hr'
    simp only [hnum, KERNEL_HEAP_BASE, KERNEL_VIRT_BASE, PAGE_SIZE] at hi ⊢
    omega
  · obtain ⟨j, hj, rfl⟩ := mem_identityRequests.mp hr'
    simp only [hnum, KERNEL_VIRT_BASE, PAGE_SIZE] at hi ⊢
    omega
  · simp only [hnum, KERNEL_VIRT_BASE, LAPIC_VIRT, PAGE_SIZE] at hi ⊢
    omega

namespace Booted

section

variable (h : Booted physStart physEnd s s' T) (hst : physStart < 2 ^ 64)

include h hst

lemma image_fits : physEnd ≤ physStart + 2 ^ 30 := by
  by_contra hlong
  -- otherwise a page of the image is the first page of the heap
  have himg : (⟨KERNEL_HEAP_BASE, some (physStart + 2 ^ 30)⟩ : Request) ∈
    imageRequests physStart physEnd :=
    (mem_imageRequests hst).mpr ⟨2 ^ 18, not_le.mp hlong, rfl⟩
  have hheap : (⟨KERNEL_HEAP_BASE, none⟩ : Request) ∈
    heapRequests (range (KERNEL_HEAP_INITIAL_SIZE / PAGE_SIZE)) :=
    mem_heapRequests.mpr ⟨0, by decide, rfl⟩
  have hap := h.apart
  rw [bootRequests, map_append, nodup_append] at hap
  exact hap.2.2 _ (mem_map_of_mem himg) _ (mem_map_of_mem (mem_append_left _ hheap)) rfl

lemma identity {n : Nat} (hn : n < 2 ^ 20) :
    pteAt s'.ram 3 T (pathOf (n * PAGE_SIZE)) = some (Pte.setAddr n kernelFlags) := by
  obtain ⟨frame, hfrm, hmap⟩ :=
    h.mapped _ ((mem_bootRequests hst).mpr (.inr (.inr (.inl ⟨n, hn, rfl⟩))))
  have heq := hfrm _ rfl
  rw [Nat.mul_div_cancel n (by decide)] at heq
  rw [hmap, heq]

lemma unmapped {n : Nat} (hn : 2 ^ 20 ≤ n) (hlt : n < 2 ^ 35) :
    pteAt s'.ram 3 T (pathOf (n * PAGE_SIZE)) = none := by
  have hfits := h.image_fits hst
  refine h.other _ (pagePath_pathOf _) fun r hr heq => ?_
  have hnum := congrArg pageNumber heq
  rw [pageNumber_pathOf, pageNumber_pathOf] at hnum
  rcases (mem_bootRequests hst).mp hr with ⟨i, hi, rfl⟩ | ⟨i, hi, rfl⟩ | ⟨i, hi, rfl⟩ | rfl
  · simp only [KERNEL_VIRT_BASE, PAGE_SIZE] at hnum hi
    omega
  · simp only [KERNEL_HEAP_BASE, PAGE_SIZE] at hnum
    omega
  · simp only [PAGE_SIZE] at hnum
    omega
  · simp only [LAPIC_VIRT, PAGE_SIZE] at hnum
    omega

end

end Booted

/-! ## Success -/

lemma isCanonical_of_high (h : 2 ^ 64 - 2 ^ 47 ≤ va) : isCanonical va = true := by
  rw [isCanonical, Bool.or_eq_true, decide_eq_true_eq, decide_eq_true_eq]
  exact .inr h

lemma fits_of_mem (hst : physStart < 2 ^ 64) (hfits : physEnd ≤ physStart + 2 ^ 30)
    (hend : physEnd ≤ 2 ^ 52) (hr : r ∈ bootRequests physStart physEnd) : r.Fits := by
  rcases (mem_bootRequests hst).mp hr with ⟨i, hi, rfl⟩ | ⟨i, hi, rfl⟩ | ⟨i, hi, rfl⟩ | rfl
  · refine ⟨?_, ?_⟩
    · refine isCanonical_of_high ?_
      simp only [KERNEL_VIRT_BASE, PAGE_SIZE] at hi ⊢
      omega
    · rintro _ ⟨⟩
      omega
  · refine ⟨?_, fun _ hphys => ?_⟩
    · refine isCanonical_of_high ?_
      simp only [KERNEL_HEAP_BASE, PAGE_SIZE]
      omega
    · cases hphys
  · refine ⟨?_, ?_⟩
    · rw [isCanonical, Bool.or_eq_true, decide_eq_true_eq]
      left
      show i * PAGE_SIZE < 2 ^ 47
      unfold PAGE_SIZE
      omega
    rintro _ ⟨⟩
    unfold PAGE_SIZE
    omega
  refine ⟨by decide, ?_⟩
  rintro _ ⟨⟩
  decide

lemma init_ok (hM : M.Everywhere) (hsize : s.pmm.totalFrames ≤ MAX_FRAMES)
    (hst : physStart < 2 ^ 64) (hfits : physEnd ≤ physStart + 2 ^ 30) (hend : physEnd ≤ 2 ^ 52)
    (hroom : bootFrames physStart physEnd ≤ s.pmm.framesLeft) :
    ∃ T s', initKernelPageTables M physStart physEnd s = .ok (T, s') := by
  obtain ⟨T, s1, hcr⟩ : ∃ T s1, createEmptyPml4 s = .ok (T, s1) := by
    rw [createEmptyPml4, Machine.allocateFrame, Machine.allocFrame]
    cases hall : s.pmm.allocFrame with
    | none =>
      rw [Pmm.allocFrame_eq_none_iff] at hall
      rw [hall, bootFrames, Nat.add_assoc] at hroom
      exact absurd hroom (Nat.not_le.mpr (Nat.add_pos_left Nat.one_pos _))
    | some o => exact ⟨_, _, rfl⟩
  obtain ⟨htbs, hal, hnone, hemp⟩ := KernelTables.of_createEmptyPml4 hcr hsize
  have hleft := hal.framesLeft
  have hrest : (missingFor s1.ram T (bootRequests physStart physEnd)).card +
      (bootRequests physStart physEnd).countP (fun r => r.phys.isNone) ≤ s1.pmm.framesLeft := by
    rw [missingFor_of_empty hnone, countP_bootRequests]
    rw [length_singleton] at hleft
    unfold bootFrames at hroom
    omega
  obtain ⟨s', hrun⟩ := requests_ok hM htbs (fun r hr => fits_of_mem hst hfits hend hr)
    (fun r _ => hemp _ (pagePath_pathOf r.va)) (nodup_bootRequests hst hfits) hrest
  refine ⟨T, s', ?_⟩
  rw [initKernelPageTables_eq, hcr]
  show ((bootRequests physStart physEnd).foldlM (Request.run M T) s1).bind _ = _
  rw [hrun]
  rfl

def blocks (rs : List Request) : Finset Nat := rs.toFinset.image fun r => r.number / 512

lemma card_allParents_le : (allParents rs).card ≤ 3 * (blocks rs).card := by
  have hsub : allParents rs ⊆ (blocks rs).biUnion fun b => parents [b / 2 ^ 18, b / 512 % 512,
    b % 512] := by
    intro q hq
    obtain ⟨r, hr, hq⟩ := Finset.mem_biUnion.mp hq
    refine Finset.mem_biUnion.mpr ⟨r.number / 512, Finset.mem_image_of_mem _ hr, ?_⟩
    have hpml4 : pml4Index r.va = r.number / 512 / 2 ^ 18 := by
      unfold pml4Index Request.number
      omega
    have hpdpt : pdptIndex r.va = r.number / 512 / 512 % 512 := by
      unfold pdptIndex Request.number
      omega
    have hpd : pdIndex r.va = r.number / 512 % 512 := by
      unfold pdIndex Request.number
      omega
    rw [pathOf, hpml4, hpdpt, hpd] at hq
    exact hq
  calc (allParents rs).card ≤ _ := Finset.card_le_card hsub
    _ ≤ (blocks rs).card * 3 := Finset.card_biUnion_le_card_mul _ _ _ fun b _ =>
      Finset.card_le_three
    _ = 3 * (blocks rs).card := Nat.mul_comm _ _

lemma bootFrames_le (hst : physStart < 2 ^ 64) (hfits : physEnd ≤ physStart + 2 ^ 30) :
    bootFrames physStart physEnd ≤ 11804 := by
  have hsub : blocks (bootRequests physStart physEnd) ⊆
      Finset.Ico 0x7FFFC00 (0x7FFFC00 + 512) ∪
        (Finset.Ico 0x7FFFE00 (0x7FFFE00 + 8) ∪ (Finset.range 2048 ∪ {0x7FFFFF7})) := by
    intro b hb
    obtain ⟨r, hr, rfl⟩ := Finset.mem_image.mp hb
    simp only [Finset.mem_union, Finset.mem_Ico, Finset.mem_range, Finset.mem_singleton]
    rcases (mem_bootRequests hst).mp (mem_toFinset.mp hr) with ⟨i, hi, rfl⟩ | ⟨i, hi, rfl⟩ | ⟨i,
      hi, rfl⟩ | rfl
    · left
      simp only [Request.number, KERNEL_VIRT_BASE, PAGE_SIZE] at hi ⊢
      omega
    · right; left
      simp only [Request.number, KERNEL_HEAP_BASE, PAGE_SIZE]
      omega
    · right; right; left
      simp only [Request.number, PAGE_SIZE]
      omega
    · right; right; right
      rfl
  have hcard : (blocks (bootRequests physStart physEnd)).card ≤ 2569 := by
    refine (Finset.card_le_card hsub).trans ?_
    refine (Finset.card_union_le _ _).trans ?_
    have h1 :=
      Finset.card_union_le (Finset.Ico 0x7FFFE00 (0x7FFFE00 + 8)) (Finset.range 2048 ∪ {0x7FFFFF7})
    have h2 := Finset.card_union_le (Finset.range 2048) {0x7FFFFF7}
    rw [Nat.card_Ico] at h1 ⊢
    rw [Finset.card_range, Finset.card_singleton] at h2
    omega
  have hpars : (allParents (bootRequests physStart physEnd)).card ≤ _ := card_allParents_le
  unfold bootFrames KERNEL_HEAP_INITIAL_SIZE PAGE_SIZE
  omega

end Indominus.Boot
