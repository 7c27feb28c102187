import Indominus.Boot.LoadElf
import Indominus.Memory.KernelTables
import Indominus.Memory.PageFill

/-!
# The kernel's page tables (`memory/vmm.rs`)

`init_kernel_page_tables` maps the image, the heap, the first 4 GiB at their own addresses and the
LAPIC.
-/

namespace Indominus.Boot

open Lib Lib.Radix Memory List

/-! ## The source -/

def KERNEL_HEAP_BASE : Nat := 0xFFFFFFFFC0000000

/-- `KERNEL_HEAP_INITIAL_SIZE`: 16 MiB. -/
def KERNEL_HEAP_INITIAL_SIZE : Nat := 16 * 1024 * 1024

def IDENTITY_END : Nat := 0x100000000

def LAPIC_PHYS : Nat := 0xFEE00000

def LAPIC_VIRT : Nat := 0xFFFFFFFFFEE00000

/-- `PRESENT | WRITABLE`. -/
def kernelFlags : Word := Pte.PRESENT ||| Pte.WRITABLE

/-- Where `init_kernel_page_tables` stops. -/
inductive InitPanic
  | panic (e : Panic)
  | outOfMemoryForHeapPages
  | invalidPhysAddr (addr : Nat)
  deriving DecidableEq

def expect {α : Type} (o : Option α) (e : InitPanic) : Except InitPanic α := o.elim (.error e) .ok

/-- `map_page(pml4, VirtAddr::new(va), phys, PRESENT | WRITABLE)`. -/
def mapAt (M : Mapper) (pml4 va phys : Nat) (s : Machine) : Except InitPanic Machine := do
  let va ← (virtAddrNew va).mapError .panic
  if 2 ^ 52 ≤ phys then .error (.invalidPhysAddr phys)
  else (mapPage M s pml4 va (phys / PAGE_SIZE) kernelFlags).mapError .panic

/-- `while addr < last`: the page of `addr` is mapped at `addr + offset`. -/
def mapRange (M : Mapper) (pml4 offset last addr : Nat) (s : Machine) : Except InitPanic Machine :=
  if addr < last then do
    let s ← mapAt M pml4 ((addr + offset) % 2 ^ 64) addr s
    mapRange M pml4 offset last (addr + PAGE_SIZE) s
  else .ok s
termination_by last - addr
decreasing_by
  unfold PAGE_SIZE
  omega

/-- The kernel's physical pages at their virtual addresses. -/
def mapImage (M : Mapper) (pml4 physStart physEnd : Nat) : Machine → Except InitPanic Machine :=
  mapRange M pml4 ((KERNEL_VIRT_BASE + 2 ^ 64 - physStart) % 2 ^ 64) physEnd physStart

def mapIdentity (M : Mapper) (pml4 : Nat) : Machine → Except InitPanic Machine :=
  mapRange M pml4 0 IDENTITY_END 0

/-- The kernel heap: `for i in 0..heap_pages`. -/
def mapHeap (M : Mapper) (pml4 : Nat) : List Nat → Machine → Except InitPanic Machine
  | [], s => .ok s
  | i :: is, s => do
    let r ← expect s.allocFrame .outOfMemoryForHeapPages
    let s ← mapAt M pml4 (KERNEL_HEAP_BASE + i * PAGE_SIZE) (r.1 * PAGE_SIZE) r.2
    mapHeap M pml4 is s

def initKernelPageTables (M : Mapper) (physStart physEnd : Nat) (s : Machine) :
    Except InitPanic (Nat × Machine) := do
  let r ← (createEmptyPml4 s).mapError .panic
  let s ← mapImage M r.1 physStart physEnd r.2
  let s ← mapHeap M r.1 (List.range (KERNEL_HEAP_INITIAL_SIZE / PAGE_SIZE)) s
  let s ← mapIdentity M r.1 s
  let s ← mapAt M r.1 LAPIC_VIRT LAPIC_PHYS s
  return (r.1, s)

/-! ## One list of requests -/

/-- A page to be mapped, to the frame of a physical address or to a new one. -/
structure Request where
  va : Nat
  phys : Option Nat
  deriving DecidableEq

variable {M : Mapper} {s s' s1 : Machine} {T va phys : Nat} {r : Request} {rs rs' : List Request}
  {q : List Nat}

def Request.run (M : Mapper) (T : Nat) (s : Machine) (r : Request) : Except InitPanic Machine :=
  r.phys.elim
    (do
      let r' ← expect s.allocFrame .outOfMemoryForHeapPages
      mapAt M T r.va (r'.1 * PAGE_SIZE) r'.2)
    fun phys => mapAt M T r.va phys s

/-- The requests of `mapRange`. -/
def rangeRequests (offset last addr : Nat) : List Request :=
  (List.range ((last - addr + (PAGE_SIZE - 1)) / PAGE_SIZE)).map fun i =>
    ⟨(addr + i * PAGE_SIZE + offset) % 2 ^ 64, some (addr + i * PAGE_SIZE)⟩

/-- The requests of `mapHeap`. -/
def heapRequests (is : List Nat) : List Request :=
  is.map fun i => ⟨KERNEL_HEAP_BASE + i * PAGE_SIZE, none⟩

variable {offset last addr : Nat}

lemma rangeRequests_of_lt (h : addr < last) : rangeRequests offset last addr =
    ⟨(addr + offset) % 2 ^ 64, some addr⟩ :: rangeRequests offset last (addr + PAGE_SIZE) := by
  have hcnt : (last - addr + (PAGE_SIZE - 1)) / PAGE_SIZE =
    (last - (addr + PAGE_SIZE) + (PAGE_SIZE - 1)) / PAGE_SIZE + 1 := by
    unfold PAGE_SIZE
    omega
  have hnext : ∀ i, addr + (i + 1) * PAGE_SIZE = addr + PAGE_SIZE + i * PAGE_SIZE :=
    fun i => by ring
  rw [rangeRequests, hcnt, range_succ_eq_map, map_cons, map_map, rangeRequests]
  simp [hnext]

lemma rangeRequests_of_le (h : last ≤ addr) : rangeRequests offset last addr = [] := by
  have hcnt : (last - addr + (PAGE_SIZE - 1)) / PAGE_SIZE = 0 := by
    unfold PAGE_SIZE
    omega
  rw [rangeRequests, hcnt]
  rfl

lemma mapRange_eq :
    mapRange M T offset last addr s =
      (rangeRequests offset last addr).foldlM (Request.run M T) s := by
  induction h : last - addr using Nat.strong_induction_on generalizing addr s with
  | _ n ih =>
    rw [mapRange]
    split_ifs with hlt
    · rw [rangeRequests_of_lt hlt, foldlM_cons]
      congr 1
      funext s
      exact ih _ (by unfold PAGE_SIZE; omega) rfl
    · rw [rangeRequests_of_le (not_lt.mp hlt)]
      rfl

lemma mapHeap_eq {is : List Nat} :
    mapHeap M T is s = (heapRequests is).foldlM (Request.run M T) s := by
  induction is generalizing s with
  | nil => rfl
  | cons i is ih =>
    rw [mapHeap, heapRequests, map_cons, foldlM_cons]
    simp only [Request.run, Option.elim_none, bind_assoc]
    congr 1
    funext r
    congr 1
    funext s
    exact ih

/-- All requests of `init_kernel_page_tables`. -/
def bootRequests (physStart physEnd : Nat) : List Request :=
  rangeRequests ((KERNEL_VIRT_BASE + 2 ^ 64 - physStart) % 2 ^ 64) physEnd physStart ++
    (heapRequests (List.range (KERNEL_HEAP_INITIAL_SIZE / PAGE_SIZE)) ++
      (rangeRequests 0 IDENTITY_END 0 ++ [⟨LAPIC_VIRT, some LAPIC_PHYS⟩]))

lemma initKernelPageTables_eq {physStart physEnd : Nat} :
    initKernelPageTables M physStart physEnd s = do
    let r ← (createEmptyPml4 s).mapError .panic
    let s ← (bootRequests physStart physEnd).foldlM (Request.run M r.1) r.2
    return (r.1, s) := by
  rw [initKernelPageTables]
  congr 1
  funext r
  simp only [bootRequests, foldlM_append, foldlM_cons, foldlM_nil, mapImage, mapIdentity,
    mapRange_eq, mapHeap_eq, bind_assoc]
  rfl

/-! ## What a list of requests does -/

def allParents (rs : List Request) : Finset (List Nat) :=
  rs.toFinset.biUnion fun r => parents (pathOf r.va)

def missingFor (m : PhysMem) (T : Nat) (rs : List Request) : Finset (List Nat) :=
  (allParents rs).filter fun q => tableOf m T q = none

/-- The requests have been met, and nothing else has changed. -/
structure Installed (s s' : Machine) (T : Nat) (rs : List Request) : Prop where
  tables : KernelTables s' T
  empty : ∀ r ∈ rs, pteAt s.ram 3 T (pathOf r.va) = none
  apart : (rs.map fun r => pathOf r.va).Nodup
  mapped : ∀ r ∈ rs, ∃ frame, (∀ phys, r.phys = some phys → frame = phys / PAGE_SIZE) ∧
    pteAt s'.ram 3 T (pathOf r.va) = some (Pte.setAddr frame kernelFlags)
  other : ∀ p, PagePath p → (∀ r ∈ rs, p ≠ pathOf r.va) → pteAt s'.ram 3 T p = pteAt s.ram 3 T p
  alloc : ∃ l, Allocates s.pmm l s'.pmm ∧ l.length = (missingFor s.ram T rs).card + rs.countP
    fun r => r.phys.isNone
  nodes : ∀ q, Indexed IsIndex q → (tableOf s'.ram T q = none ↔ tableOf s.ram T q = none ∧
    q ∉ allParents rs)

lemma indexed_of_mem_allParents (hq : q ∈ allParents rs) : Indexed IsIndex q := by
  obtain ⟨r, -, hr⟩ := Finset.mem_biUnion.mp hq
  refine (pagePath_pathOf r.va).indexed.of_initial ?_
  simp only [parents, Finset.mem_insert, Finset.mem_singleton] at hr
  rcases hr with rfl | rfl | rfl <;> exact take_prefix _ _

lemma allParents_append : allParents (rs ++ rs') = allParents rs ∪ allParents rs' := by
  rw [allParents, toFinset_append, Finset.union_biUnion]
  rfl

namespace Installed

lemma refl (h : KernelTables s T) : Installed s s T [] := by
  refine ⟨h, by simp, by simp, by simp, fun _ _ _ => rfl, ⟨[], .nil _, rfl⟩, fun q _ => ?_⟩
  exact (and_iff_left (Finset.notMem_empty q)).symm

lemma missing_append (h : Installed s s1 T rs) :
    (missingFor s.ram T (rs ++ rs')).card = (missingFor s.ram T rs).card +
      (missingFor s1.ram T rs').card := by
  have hunion :
      missingFor s.ram T (rs ++ rs') = missingFor s.ram T rs ∪ missingFor s1.ram T rs' := by
    ext q
    simp only [missingFor, allParents_append, Finset.mem_union, Finset.mem_filter]
    constructor
    · rintro ⟨hq | hq, hnone⟩
      · exact .inl ⟨hq, hnone⟩
      by_cases hin : q ∈ allParents rs
      · exact .inl ⟨hin, hnone⟩
      · exact .inr ⟨hq, (h.nodes q (indexed_of_mem_allParents hq)).mpr ⟨hnone, hin⟩⟩
    rintro (⟨hq, hnone⟩ | ⟨hq, hnone⟩)
    · exact ⟨.inl hq, hnone⟩
    · exact ⟨.inr hq, ((h.nodes q (indexed_of_mem_allParents hq)).mp hnone).1⟩
  rw [hunion, Finset.card_union_of_disjoint]
  rw [Finset.disjoint_left]
  intro q hq hq'
  have hnone := (Finset.mem_filter.mp hq').2
  exact ((h.nodes q (indexed_of_mem_allParents (Finset.mem_filter.mp hq).1)).mp hnone).2
    (Finset.mem_filter.mp hq).1

lemma append (h : Installed s s1 T rs) (h' : Installed s1 s' T rs') :
    Installed s s' T (rs ++ rs') := by
  -- a page of the first list is mapped when the second list is begun
  have hnew : ∀ r ∈ rs, ∀ r' ∈ rs', pathOf r.va ≠ pathOf r'.va := by
    intro r hr r' hr' heq
    obtain ⟨frame, -, hmap⟩ := h.mapped r hr
    rw [heq, h'.empty r' hr'] at hmap
    cases hmap
  constructor
  case tables => exact h'.tables
  case empty =>
    intro r hr
    rcases mem_append.mp hr with hr | hr
    · exact h.empty r hr
    · rw [← h.other _ (pagePath_pathOf _) fun r' hr' heq => hnew r' hr' r hr heq.symm]
      exact h'.empty r hr
  case apart =>
    rw [map_append, nodup_append]
    refine ⟨h.apart, h'.apart, ?_⟩
    simp only [mem_map]
    rintro _ ⟨r, hr, rfl⟩ _ ⟨r', hr', rfl⟩
    exact hnew r hr r' hr'
  case mapped =>
    intro r hr
    rcases mem_append.mp hr with hr | hr
    · obtain ⟨frame, hfrm, hmap⟩ := h.mapped r hr
      exact ⟨frame, hfrm,
        (h'.other _ (pagePath_pathOf _) fun r' hr' => hnew r hr r' hr').trans hmap⟩
    · exact h'.mapped r hr
  case other =>
    intro p hp hnot
    rw [h'.other p hp fun r hr => hnot r (mem_append_right _ hr),
      h.other p hp fun r hr => hnot r (mem_append_left _ hr)]
  case alloc =>
    obtain ⟨l, hal, hlen⟩ := h.alloc
    obtain ⟨l', hal', hlen'⟩ := h'.alloc
    refine ⟨l ++ l', hal.append hal', ?_⟩
    rw [length_append, h.missing_append, countP_append]
    omega
  case nodes =>
    intro q hq
    rw [h'.nodes q hq, h.nodes q hq, allParents_append, Finset.mem_union]
    tauto

lemma of_mappedAt {frame : Nat} {l : List Nat}
    (hm : MappedAt s1 s' T (pathOf r.va) (Pte.setAddr frame kernelFlags))
    (hfrm : ∀ phys, r.phys = some phys → frame = phys / PAGE_SIZE) (hram : s1.ram = s.ram)
    (hal : Allocates s.pmm l s1.pmm) (hlen : l.length = [r].countP fun r => r.phys.isNone) :
    Installed s s' T [r] := by
  have hpars : allParents [r] = parents (pathOf r.va) := by simp [allParents]
  have hemp := hm.empty
  have hleaf := hm.leaf
  have hns := hm.nodes
  obtain ⟨l', hal', hlen'⟩ := hm.alloc
  rw [hram] at hemp hleaf hns hlen'
  constructor
  case tables => exact hm.tables
  case empty => simpa using hemp
  case apart => simp
  case mapped =>
    intro r' hr'
    obtain rfl := mem_singleton.mp hr'
    exact ⟨frame, hfrm, by rw [hleaf _ (pagePath_pathOf _), if_pos rfl]⟩
  case other =>
    intro p hp hnot
    rw [hleaf p hp, if_neg (hnot r (mem_singleton_self r))]
  case alloc =>
    refine ⟨l ++ l', hal.append hal', ?_⟩
    rw [length_append, hlen', missingFor, hpars, missingTables]
    omega
  case nodes =>
    intro q hq
    rw [hns q hq, hpars]

end Installed

lemma virtAddrNew_eq_ok {va' : Nat} :
    virtAddrNew va = .ok va' ↔ isCanonical va = true ∧ va' = va := by
  unfold virtAddrNew
  split_ifs with h <;> simp [h, eq_comm]

lemma isFlags_kernelFlags : Pte.IsFlags kernelFlags := by decide

lemma isPresent_kernelFlags : Pte.isPresent kernelFlags = true := by decide

lemma mapAt_eq_ok : mapAt M T va phys s = .ok s' ↔
    isCanonical va = true ∧ phys < 2 ^ 52 ∧
      M.mapTo s T va (phys / PAGE_SIZE) kernelFlags = .ok s' := by
  have hrun : mapAt M T va phys s = ((virtAddrNew va).mapError .panic).bind fun va =>
      if 2 ^ 52 ≤ phys then .error (.invalidPhysAddr phys)
      else (mapPage M s T va (phys / PAGE_SIZE) kernelFlags).mapError .panic := rfl
  rw [hrun, bind_eq_ok]
  simp only [mapError_eq_ok, virtAddrNew_eq_ok]
  constructor
  · rintro ⟨_, ⟨hva, rfl⟩, hmap⟩
    split_ifs at hmap with hphys
    exact ⟨hva, not_le.mp hphys, mapPage_eq_ok.mp (mapError_eq_ok.mp hmap)⟩
  rintro ⟨hva, hphys, hmap⟩
  refine ⟨va, ⟨hva, rfl⟩, ?_⟩
  rw [if_neg (not_le.mpr hphys)]
  exact mapError_eq_ok.mpr (mapPage_eq_ok.mpr hmap)

def Request.Fits (r : Request) : Prop :=
  isCanonical r.va = true ∧ ∀ phys, r.phys = some phys → phys < 2 ^ 52

section Requests

variable (hM : M.Everywhere)

include hM

lemma Request.run_installed (h : KernelTables s T) (hok : r.run M T s = .ok s') :
    Installed s s' T [r] := by
  obtain ⟨va, phys⟩ := r
  cases phys with
  | some phys =>
    obtain ⟨-, hphys, hmap⟩ := mapAt_eq_ok.mp hok
    have hfrm : phys / PAGE_SIZE < 2 ^ 40 := by
      unfold PAGE_SIZE
      omega
    refine .of_mappedAt (hM.mapTo h hfrm isFlags_kernelFlags isPresent_kernelFlags hmap) ?_ rfl
      (.nil _) rfl
    rintro _ ⟨⟩
    rfl
  | none =>
    cases hall : s.pmm.allocFrame with
    | none =>
      rw [Request.run, Machine.allocFrame, hall] at hok
      cases hok
    | some o =>
      obtain ⟨f, p⟩ := o
      rw [Request.run, Machine.allocFrame, hall] at hok
      obtain ⟨-, -, hmap⟩ :=
        mapAt_eq_ok.mp (show mapAt M T va (f * PAGE_SIZE) ⟨p, s.ram⟩ = .ok s' from hok)
      rw [Nat.mul_div_cancel f (by decide)] at hmap
      have hfrm : f < 2 ^ 40 := by
        have hmax := h.size
        obtain ⟨-, hlt, -⟩ := Pmm.allocFrame_eq_some hall
        unfold MAX_FRAMES at hmax
        omega
      refine .of_mappedAt
        (hM.mapTo (h.of_allocFrame hall) hfrm isFlags_kernelFlags isPresent_kernelFlags hmap) ?_ rfl
        (.cons hall (.nil _)) rfl
      rintro _ ⟨⟩

lemma requests_installed (h : KernelTables s T) (hok : rs.foldlM (Request.run M T) s = .ok s') :
    Installed s s' T rs := by
  induction rs generalizing s with
  | nil =>
    cases hok
    exact .refl h
  | cons r rs ih =>
    rw [foldlM_cons] at hok
    cases hrun : r.run M T s with
    | error e =>
      rw [hrun] at hok
      cases hok
    | ok s1 =>
      rw [hrun] at hok
      have hstep := Request.run_installed hM h hrun
      exact hstep.append (ih hstep.tables hok)

lemma Request.run_ok (h : KernelTables s T) (hfits : r.Fits)
    (hfree : pteAt s.ram 3 T (pathOf r.va) = none)
    (hroom : (missingFor s.ram T [r]).card + [r].countP (fun r => r.phys.isNone) ≤
      s.pmm.framesLeft) :
    ∃ s', r.run M T s = .ok s' := by
  have hpars : missingFor s.ram T [r] = missingTables s.ram T (pathOf r.va) := by
    simp [missingFor, missingTables, allParents]
  rw [hpars] at hroom
  obtain ⟨va, phys⟩ := r
  cases phys with
  | some phys =>
    obtain ⟨s', hmap⟩ : ∃ s', M.mapTo s T va (phys / PAGE_SIZE) kernelFlags = .ok s' :=
      hM.maps h isPresent_kernelFlags hfree (Nat.le_of_add_right_le hroom)
    exact ⟨s', mapAt_eq_ok.mpr ⟨hfits.1, hfits.2 phys rfl, hmap⟩⟩
  | none =>
    have hcnt : (missingTables s.ram T (pathOf va)).card + 1 ≤ s.pmm.framesLeft := hroom
    cases hall : s.pmm.allocFrame with
    | none =>
      rw [Pmm.allocFrame_eq_none_iff] at hall
      omega
    | some o =>
      obtain ⟨f, p⟩ := o
      have hleft := Pmm.framesLeft_of_allocFrame hall
      have hsm : f * PAGE_SIZE < 2 ^ 52 := by
        have hmax := h.size
        obtain ⟨-, hlt, -⟩ := Pmm.allocFrame_eq_some hall
        unfold MAX_FRAMES at hmax
        unfold PAGE_SIZE
        omega
      obtain ⟨s', hmap⟩ :
          ∃ s', M.mapTo ⟨p, s.ram⟩ T va (f * PAGE_SIZE / PAGE_SIZE) kernelFlags = .ok s' :=
        hM.maps (h.of_allocFrame hall) isPresent_kernelFlags hfree
          (show (missingTables s.ram T (pathOf va)).card ≤ p.framesLeft by omega)
      refine ⟨s', ?_⟩
      rw [Request.run, Machine.allocFrame, hall]
      exact mapAt_eq_ok.mpr ⟨hfits.1, hsm, hmap⟩

/-- Distinct free pages are all mapped while the frames last. -/
lemma requests_ok (h : KernelTables s T) (hfits : ∀ r ∈ rs, r.Fits)
    (hfree : ∀ r ∈ rs, pteAt s.ram 3 T (pathOf r.va) = none)
    (hap : (rs.map fun r => pathOf r.va).Nodup)
    (hroom : (missingFor s.ram T rs).card + rs.countP (fun r => r.phys.isNone) ≤ s.pmm.framesLeft) :
    ∃ s', rs.foldlM (Request.run M T) s = .ok s' := by
  induction rs generalizing s with
  | nil => exact ⟨s, rfl⟩
  | cons r rs ih =>
    have hspl : r :: rs = [r] ++ rs := rfl
    rw [map_cons, nodup_cons] at hap
    have hfst : (missingFor s.ram T [r]).card + [r].countP (fun r => r.phys.isNone) ≤
      s.pmm.framesLeft := by
      refine le_trans (Nat.add_le_add (Finset.card_le_card ?_) ?_) hroom
      · rw [missingFor, missingFor, hspl, allParents_append]
        exact Finset.filter_subset_filter _ Finset.subset_union_left
      · rw [hspl, countP_append]
        exact Nat.le_add_right _ _
    obtain ⟨s1, hrun⟩ := Request.run_ok hM h (hfits r mem_cons_self) (hfree r mem_cons_self) hfst
    have hstep := Request.run_installed hM h hrun
    have hrest : (missingFor s1.ram T rs).card + rs.countP (fun r => r.phys.isNone) ≤
      s1.pmm.framesLeft := by
      obtain ⟨l, hal, hlen⟩ := hstep.alloc
      have hleft := hal.framesLeft
      rw [hspl, hstep.missing_append, countP_append] at hroom
      omega
    have hfree' : ∀ r' ∈ rs, pteAt s1.ram 3 T (pathOf r'.va) = none := by
      intro r' hr'
      rw [hstep.other _ (pagePath_pathOf _)]
      · exact hfree r' (mem_cons_of_mem _ hr')
      intro r'' hr'' heq
      obtain rfl := mem_singleton.mp hr''
      exact hap.1 (mem_map.mpr ⟨r', hr', heq⟩)
    obtain ⟨s', hs'⟩ :=
      ih hstep.tables (fun r' hr' => hfits r' (mem_cons_of_mem _ hr')) hfree' hap.2 hrest
    exact ⟨s', by rw [foldlM_cons, hrun]; exact hs'⟩

end Requests

end Indominus.Boot
