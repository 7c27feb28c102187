import Indominus.Sys.MmapLengths

/-!
# Unmapping (`sys_munmap`)

The whole recorded region goes, whatever part of it was asked for.
-/

namespace Indominus.Sys

open Lib Lib.Radix Memory

variable {M : Mapper} {K : Nat → Prop} {exact : Prop} {R : Multiset Nat} {Z : Claims Nat}
  {s s' s0 : Machine} {T lo hi base n : Nat}

/-! ## The loop -/

variable {p' : Pmm} {f : Nat} {r : Nat × Nat}

lemma decref_refcount {p : Pmm} (h : p.decref f = .ok p') (g : Nat) :
    p'.refcount g = if g = f then p.refcount f - 1 else p.refcount g := by
  rw [Pmm.decref] at h
  split_ifs at h with h1 h2 h3 h4
  · rw [← Except.ok.inj h, Pmm.release_refcount, h4]
  · rw [← Except.ok.inj h, Pmm.setRefcount_refcount]

lemma decref_pos {p : Pmm} (h : p.decref f = .ok p') : p.refcount f ≠ 0 := by
  rw [Pmm.decref] at h
  split_ifs at h with h1 h2 h3 h4 <;> exact h3

/-- The pages from `lo` to `hi` are not mapped any more and have lost one reference each; everything
else is as before. -/
structure RegionGone (K : Nat → Prop) (exact : Prop) (T : Nat) (R : Multiset Nat) (Z : Claims Nat)
    (lo hi : Nat) (s s' : Machine) : Prop where
  family : Family K exact s' (T ::ₘ R) Z
  leaf : ∀ a < USER_SPACE_END,
    pteAt s'.ram 3 T (pathOf a) = if lo ≤ a ∧ a < hi then none else pteAt s.ram 3 T (pathOf a)
  lost : ∀ a e, lo ≤ a → a < hi → pteAt s.ram 3 T (pathOf a) = some e →
    s'.pmm.refcount (Pte.addr e) + 1 = s.pmm.refcount (Pte.addr e)
  kept : ∀ f, (∀ a e, lo ≤ a → a < hi → pteAt s.ram 3 T (pathOf a) = some e → Pte.addr e ≠ f) →
    s'.pmm.refcount f = s.pmm.refcount f

lemma RegionGone.empty (hfam : Family K exact s (T ::ₘ R) Z) :
    RegionGone K exact T R Z lo lo s s where
  family := hfam
  leaf a _ := by rw [if_neg (by omega)]
  lost a e hlo hhi := by omega
  kept _ _ := rfl

lemma RegionGone.extend (h : RegionGone K exact T R Z lo hi s0 s)
    (hfam0 : Family K exact s0 (T ::ₘ R) Z) (hle : lo ≤ hi) (hal : hi % PAGE_SIZE = 0)
    (huser : hi + PAGE_SIZE ≤ USER_SPACE_END) {e : Word}
    (he : pteAt s0.ram 3 T (pathOf hi) = some e) (hgone : PageGone K exact T R Z hi s s')
    (hdec : s.pmm.decref (Pte.addr e) = .ok s'.pmm) :
    RegionGone K exact T R Z lo (hi + PAGE_SIZE) s0 s' := by
  have hhi : hi < USER_SPACE_END := by
    unfold PAGE_SIZE at huser
    omega
  have hpage : ∀ a < USER_SPACE_END, pathOf a = pathOf hi ↔ hi ≤ a ∧ a < hi + PAGE_SIZE := by
    intro a ha
    rw [pathOf_eq_iff ha hhi]
    unfold PAGE_SIZE at hal ⊢
    omega
  -- another page of the region has another frame
  have hoth : ∀ a e', lo ≤ a → a < hi → pteAt s0.ram 3 T (pathOf a) = some e' →
    Pte.addr e' ≠ Pte.addr e := by
    intro a e' hlo hlt he' heq
    have hpage :=
      page_eq_of_frame hhi (by omega) he he' heq (hfam0.linear T (Multiset.mem_cons_self _ _) _)
    unfold PAGE_SIZE at hal hpage
    omega
  have hcnt := decref_refcount hdec
  have hpos := decref_pos hdec
  refine ⟨hgone.family, fun a ha => ?_, fun a e' hlo hlt he' => ?_, fun f hf => ?_⟩
  · rw [hgone.leaf _ (inUser_pathOf ha), h.leaf a ha]
    by_cases hin : pathOf a = pathOf hi
    · have hin' := (hpage a ha).mp hin
      rw [if_pos hin, if_pos (by omega)]
    have hout := mt (hpage a ha).mpr hin
    rw [if_neg hin]
    by_cases hlow : lo ≤ a ∧ a < hi
    · rw [if_pos hlow, if_pos (by omega)]
    · rw [if_neg hlow, if_neg (by omega)]
  · by_cases hlow : a < hi
    · rw [hcnt, if_neg (hoth a e' hlo hlow he')]
      exact h.lost a e' hlo hlow he'
    have hin : pathOf a = pathOf hi := (hpage a (by omega)).mpr ⟨by omega, hlt⟩
    rw [hin, he, Option.some.injEq] at he'
    subst he'
    have hsame := h.kept (Pte.addr e) fun a' e' hlo' hhi' he' => hoth a' e' hlo' hhi' he'
    rw [hcnt, if_pos rfl]
    omega
  have hne : f ≠ Pte.addr e := (hf hi e hle (by unfold PAGE_SIZE; omega) he).symm
  rw [hcnt, if_neg hne]
  exact h.kept f fun a e' hlo hlt he' => hf a e' hlo (by omega) he'

lemma unmapRegion_gone (hM : M.Exact) {i : Nat} (hbase : base % PAGE_SIZE = 0)
    (htop : base + (i + n) * PAGE_SIZE ≤ USER_SPACE_END) (hfam0 : Family K exact s0 (T ::ₘ R) Z)
    (hmap : ∀ j < i + n, (pteAt s0.ram 3 T (pathOf (base + j * PAGE_SIZE))).isSome = true)
    (h : RegionGone K exact T R Z base (base + i * PAGE_SIZE) s0 s) :
    ∃ s', unmapRegion M T base n i s = .ok s' ∧
      RegionGone K exact T R Z base (base + (i + n) * PAGE_SIZE) s0 s' := by
  induction n generalizing i s with
  | zero => exact ⟨s, rfl, h⟩
  | succ n ih =>
    obtain ⟨hal, huser, hnext⟩ := page_of_region hbase (show i < i + (n + 1) by omega) htop
    have hlow : base + i * PAGE_SIZE < 2 ^ 47 := huser
    obtain ⟨e, he⟩ := Option.isSome_iff_exists.mp (hmap i (by omega))
    have hstill : pteAt s.ram 3 T (pathOf (base + i * PAGE_SIZE)) = some e := by
      rw [h.leaf _ huser, if_neg (by omega), he]
    obtain ⟨s1, hdrop, hgone, hdec⟩ := dropPage_decref hM h.family huser hstill
    have hmore := h.extend hfam0 (Nat.le_add_right _ _) hal hnext he hgone hdec
    rw [← add_succ_mul_page] at hmore
    have hcnt : i + 1 + n = i + (n + 1) := by omega
    obtain ⟨s', hs', hend⟩ :=
      ih (i := i + 1) (by rw [hcnt]; exact htop) (fun j hj => hmap j (by omega)) hmore
    rw [hcnt] at hend
    refine ⟨s', ?_, hend⟩
    rw [unmapRegion, wadd_wmul_of_lt (hlow.trans (by decide)), withVirt_of_lt hlow, hdrop]
    exact hs'

/-! ## The call -/

def Recorded (regions : List (Nat × Nat)) (a : Nat) : Prop :=
  ∃ r ∈ regions, r.1 ≤ a ∧ a < regionEnd r

def Separate (regions : List (Nat × Nat)) : Prop :=
  regions.Pairwise fun r r' => ∀ a, ¬ ((r.1 ≤ a ∧ a < regionEnd r) ∧ r'.1 ≤ a ∧ a < regionEnd r')

lemma findContaining_eq {regions : List (Nat × Nat)} {addr top j : Nat}
    (hreg : ∀ r ∈ regions, UserRegion r) (hsep : Separate regions) (hr : r ∈ regions)
    (hlo : r.1 ≤ addr) (hhi : top ≤ regionEnd r) (hlt : addr < top) :
    ∃ i, findContaining addr top regions j = some (j + i, r) ∧
      ∀ a, Recorded (regions.eraseIdx i) a ↔ Recorded regions a ∧
        ¬ (r.1 ≤ a ∧ a < regionEnd r) := by
  induction regions generalizing j with
  | nil => cases hr
  | cons r0 rs ih =>
    obtain ⟨hfst, hrest⟩ := List.pairwise_cons.mp hsep
    have hwadd := (hreg r0 List.mem_cons_self).wadd_eq
    rw [findContaining, hwadd]
    by_cases hhere : r0.1 ≤ addr ∧ top ≤ regionEnd r0
    · -- a region further on would share the address
      obtain rfl : r = r0 := by
        rcases List.mem_cons.mp hr with rfl | hmem
        · rfl
        · exact absurd ⟨⟨hhere.1, by omega⟩, hlo, by omega⟩ (hfst r hmem addr)
      refine ⟨0, by rw [if_pos hhere, Nat.add_zero], fun a => ?_⟩
      constructor
      · rintro ⟨r', hr', hin⟩
        exact ⟨⟨r', List.mem_cons_of_mem _ hr', hin⟩, fun hin' => hfst r' hr' a ⟨hin', hin⟩⟩
      rintro ⟨⟨r', hr', hin⟩, hout⟩
      rcases List.mem_cons.mp hr' with rfl | hmem
      · exact absurd hin hout
      · exact ⟨r', hmem, hin⟩
    have hmem : r ∈ rs := by
      rcases List.mem_cons.mp hr with rfl | hmem
      · exact absurd ⟨hlo, hhi⟩ hhere
      · exact hmem
    obtain ⟨i, hfind, hcover⟩ :=
      ih (j := j + 1) (fun r' hr' => hreg r' (List.mem_cons_of_mem _ hr')) hrest hmem
    refine ⟨i + 1, by rw [if_neg hhere, hfind, Nat.add_right_comm, Nat.add_assoc], fun a => ?_⟩
    rw [List.eraseIdx_cons_succ]
    have hspl : ∀ l : List (Nat × Nat), Recorded (r0 :: l) a ↔ (r0.1 ≤ a ∧ a < regionEnd r0) ∨
      Recorded l a := by
      intro l
      simp [Recorded]
    rw [hspl, hspl, hcover]
    constructor
    · rintro (hin | hin)
      · exact ⟨.inl hin, fun hin' => hfst r hmem a ⟨hin, hin'⟩⟩
      · exact ⟨.inr hin.1, hin.2⟩
    rintro ⟨hin | hin, hout⟩
    · exact .inl hin
    · exact .inr ⟨hin, hout⟩

namespace Kernel

variable {k k' : Kernel} {pid : Pid} {p : Process} {addr length : Nat}

/-- The call has removed exactly what was asked for. -/
structure MunmapExact (k k' : Kernel) (pid : Pid) (p : Process) (addr length : Nat) : Prop where
  removed : ∀ a, addr ≤ a → a < addr + length → pteAt k'.machine.ram 3 p.pml4Phys (pathOf a) = none
  lost : ∀ a e, addr ≤ a → a < addr + length →
    pteAt k.machine.ram 3 p.pml4Phys (pathOf a) = some e →
    k'.machine.pmm.refcount (Pte.addr e) + 1 = k.machine.pmm.refcount (Pte.addr e)
  kept : ∀ a < USER_SPACE_END, ¬ (addr ≤ a ∧ a < addr + length) →
    pteAt k'.machine.ram 3 p.pml4Phys (pathOf a) = pteAt k.machine.ram 3 p.pml4Phys (pathOf a)
  others : ∀ f, (∀ a e, addr ≤ a → a < addr + length →
    pteAt k.machine.ram 3 p.pml4Phys (pathOf a) = some e →
    Pte.addr e ≠ f) → k'.machine.pmm.refcount f = k.machine.pmm.refcount f
  recorded : ∃ p', k'.current = some (pid, p') ∧ p'.pml4Phys = p.pml4Phys ∧
    ∀ a, Recorded p'.mmapRegions a ↔
      Recorded p.mmapRegions a ∧ (pteAt k'.machine.ram 3 p.pml4Phys (pathOf a)).isSome = true

lemma pagesFor_of_aligned (hal : length % PAGE_SIZE = 0) (hlen : length < 2 ^ 47) :
    pagesFor length * PAGE_SIZE = length := by
  have hwadd : wadd length (PAGE_SIZE - 1) = length + (PAGE_SIZE - 1) := by
    unfold wadd PAGE_SIZE
    omega
  rw [pagesFor, hwadd]
  unfold PAGE_SIZE at hal ⊢
  omega

lemma sysMunmap_gone (hM : M.Exact) (hcur : k.current = some (pid, p))
    (hfam : Family K exact k.machine (p.pml4Phys ::ₘ R) Z)
    (hreg : ∀ r ∈ p.mmapRegions, BelowStack r) (hsep : Separate p.mmapRegions)
    (hmap : ∀ a, Recorded p.mmapRegions a →
      (pteAt k.machine.ram 3 p.pml4Phys (pathOf a)).isSome = true)
    (hr : r ∈ p.mmapRegions) (hlo : r.1 ≤ addr) (hhi : addr + length ≤ regionEnd r)
    (hal : length % PAGE_SIZE = 0) (haddr : addr ≠ 0) (hlen : length ≠ 0) :
    ∃ s' i, k.sysMunmap M addr length = .ok (.ok 0, { k with machine := s' }.setProc pid
        (some { p with mmapRegions := p.mmapRegions.eraseIdx i })) ∧
      RegionGone K exact p.pml4Phys R Z r.1 (regionEnd r) k.machine s' ∧
      ∀ a, Recorded (p.mmapRegions.eraseIdx i) a ↔ Recorded p.mmapRegions a ∧
        ¬ (r.1 ≤ a ∧ a < regionEnd r) := by
  have huser := (hreg r hr).user
  have hend : regionEnd r ≤ USER_SPACE_END := huser.2
  have hpgs := pagesFor_of_aligned hal (by have := huser.2; omega)
  have htop : wadd addr (wmul (pagesFor length) PAGE_SIZE) = addr + length := by
    rw [wadd_wmul_of_lt, hpgs]
    rw [hpgs]
    exact lt_of_le_of_lt (hhi.trans huser.2) (by decide)
  obtain ⟨i, hfind, hcover⟩ :=
    findContaining_eq (j := 0) (fun r hr => (hreg r hr).user) hsep hr hlo hhi (by omega)
  rw [Nat.zero_add] at hfind
  have hall : ∀ j < 0 + r.2,
      (pteAt k.machine.ram 3 p.pml4Phys (pathOf (r.1 + j * PAGE_SIZE))).isSome = true := by
    intro j hj
    refine hmap _ ⟨r, hr, Nat.le_add_right _ _, ?_⟩
    rw [regionEnd]
    have hlt : j * PAGE_SIZE < r.2 * PAGE_SIZE := Nat.mul_lt_mul_of_pos_right (by omega) (by decide)
    omega
  have hst : RegionGone K exact p.pml4Phys R Z r.1 (r.1 + 0 * PAGE_SIZE) k.machine k.machine := by
    exact .empty hfam
  obtain ⟨s', hs', hgone⟩ :=
    unmapRegion_gone hM huser.1 (by rw [Nat.zero_add]; exact hend) hfam hall hst
  rw [Nat.zero_add] at hgone
  refine ⟨s', i, ?_, hgone, hcover⟩
  rw [sysMunmap, if_neg (by omega)]
  simp only [hcur, htop, hfind, hs']

lemma not_munmapExact {a : Nat} {q : Process}
    (hgone : RegionGone K exact p.pml4Phys R Z r.1 (regionEnd r) k.machine s')
    (hmap : (pteAt k.machine.ram 3 p.pml4Phys (pathOf a)).isSome = true)
    (huser : a < USER_SPACE_END) (hin : r.1 ≤ a ∧ a < regionEnd r)
    (hout : ¬ (addr ≤ a ∧ a < addr + length)) :
    ¬ MunmapExact k ({ k with machine := s' }.setProc pid (some q)) pid p addr length := by
  intro h
  have hkept : pteAt s'.ram 3 p.pml4Phys (pathOf a) = pteAt k.machine.ram 3 p.pml4Phys (pathOf a) :=
    h.kept a huser hout
  rw [hgone.leaf a huser, if_pos hin] at hkept
  rw [← hkept] at hmap
  cases hmap

/-- **Which requests lose exactly what they name**: those for a whole region, and those declined
because of a zero. -/
theorem sysMunmap_exact_iff (hM : M.Exact) (hcur : k.current = some (pid, p))
    (hfam : Family K exact k.machine (p.pml4Phys ::ₘ R) Z)
    (hregions : ∀ r ∈ p.mmapRegions, BelowStack r) (hsep : Separate p.mmapRegions)
    (hmapped : ∀ a, Recorded p.mmapRegions a →
      (pteAt k.machine.ram 3 p.pml4Phys (pathOf a)).isSome = true)
    (haligned : addr % PAGE_SIZE = 0 ∧ length % PAGE_SIZE = 0)
    (hinside : ∃ r ∈ p.mmapRegions, r.1 ≤ addr ∧ addr + length ≤ regionEnd r) :
    (∀ k', k.sysMunmap M addr length = .ok (.ok 0, k') → MunmapExact k k' pid p addr length) ↔
      addr = 0 ∨ length = 0 ∨ (addr, length / PAGE_SIZE) ∈ p.mmapRegions := by
  by_cases hzero : length = 0 ∨ addr = 0
  · refine iff_of_true (fun k' hok => ?_) (hzero.elim (fun h => .inr (.inl h)) .inl)
    rw [sysMunmap, if_pos hzero] at hok
    cases hok
  obtain ⟨hlen, haddr⟩ := not_or.mp hzero
  constructor
  · -- a request for a part of the region leaves an address out
    intro h
    refine .inr (.inr ?_)
    obtain ⟨r, hr, hlo, hhi⟩ := hinside
    have hend : regionEnd r ≤ USER_SPACE_END := (hregions r hr).user.2
    obtain ⟨s', i, hok, hgone, -⟩ :=
      sysMunmap_gone hM hcur hfam hregions hsep hmapped hr hlo hhi haligned.2 haddr hlen
    have hex := h _ hok
    have hall : ∀ a, r.1 ≤ a → a < regionEnd r → addr ≤ a ∧ a < addr + length := by
      intro a hlo' hhi'
      by_contra hout
      exact not_munmapExact hgone (hmapped a ⟨r, hr, hlo', hhi'⟩) (by omega) ⟨hlo', hhi'⟩ hout hex
    have hfst := hall r.1 le_rfl (by omega)
    have hlast := hall (regionEnd r - 1) (by omega) (by omega)
    have hpgs : r.2 = length / PAGE_SIZE := by
      have hsize : r.2 * PAGE_SIZE = length := by
        rw [regionEnd] at hhi hlast
        omega
      rw [← hsize, Nat.mul_div_cancel _ (by decide)]
    rw [← hpgs, show addr = r.1 by omega]
    exact hr
  rintro (h | h | hwh) k' hok
  · exact absurd h haddr
  · exact absurd h hlen
  have hsize : regionEnd (addr, length / PAGE_SIZE) = addr + length := by
    rw [regionEnd, Nat.div_mul_cancel (Nat.dvd_of_mod_eq_zero haligned.2)]
  obtain ⟨s', i, hok', hgone, hcover⟩ :=
    sysMunmap_gone hM hcur hfam hregions hsep hmapped hwh le_rfl hsize.ge haligned.2 haddr hlen
  rw [hsize] at hgone hcover
  obtain rfl : _ = k' := (Prod.mk.inj (Except.ok.inj (hok'.symm.trans hok))).2
  have huser : ∀ a, Recorded p.mmapRegions a → a < USER_SPACE_END := by
    rintro a ⟨r, hr, -, hlt⟩
    exact lt_of_lt_of_le hlt (hregions r hr).user.2
  refine ⟨fun a hlo hhi => ?_, hgone.lost, fun a ha hout => ?_, hgone.kept,
    { p with mmapRegions := p.mmapRegions.eraseIdx i },
    current_eq_some.mpr ⟨(current_eq_some.mp hcur).1, Function.update_self ..⟩, rfl, fun a => ?_⟩
  · exact (hgone.leaf a (huser a ⟨_, hwh, hlo, by rwa [hsize]⟩)).trans (if_pos ⟨hlo, hhi⟩)
  · exact (hgone.leaf a ha).trans (if_neg hout)
  refine (hcover a).trans (and_congr_right fun hrec => ?_)
  have hleaf : pteAt s'.ram 3 p.pml4Phys (pathOf a) = _ := hgone.leaf a (huser a hrec)
  change _ ↔ (pteAt s'.ram 3 p.pml4Phys (pathOf a)).isSome = true
  rw [hleaf]
  split_ifs with hin
  · exact iff_of_false (fun h => h hin) (by simp)
  · exact iff_of_true hin (hmapped a hrec)

/-- The process of the small system with one recorded region of two pages. -/
def mmapProcess : Process := { loneUser with mmapRegions := [(USER_MMAP_BASE, 2)] }

def mmapKernel (s : Machine) : Kernel :=
  { loneProcess with
    machine := s
    procs := fun pid => if pid = initSlot then some mmapProcess else none }

lemma mmapKernel_mapped :
    ∃ s, RegionMapped (fun f => f = 1 ∨ f = 2) False firstSpace.1 0 0 USER_MMAP_BASE
    (regionEnd (USER_MMAP_BASE, 2)) firstSpace.2 s := by
  have hdone : (Budget.spend firstSpace.2.pmm.framesLeft (hasNode firstSpace.2.ram firstSpace.1)
      (regionPaths USER_MMAP_BASE 2 0)).2 = .done := by
    decide +kernel
  have hfree : ∀ j < 0 + 2, pteAt firstSpace.2.ram 3 firstSpace.1
    (pathOf (USER_MMAP_BASE + j * PAGE_SIZE)) = none := by
    decide +kernel
  have hst : RegionMapped (fun f => f = 1 ∨ f = 2) False firstSpace.1 0 0 USER_MMAP_BASE
      (USER_MMAP_BASE + 0 * PAGE_SIZE) firstSpace.2 firstSpace.2 := by
    exact .empty firstSpace_family
  have hends :=
    mapRegion_ends referenceMapper_exact (by decide) (by decide) hfree hst loneProcess_tidy
  rw [hdone] at hends
  generalize mapRegion referenceMapper firstSpace.1 USER_MMAP_BASE 2 0 firstSpace.2 = r at hends
  cases hends with
  | mapped hmap => exact ⟨_, hmap⟩

lemma mmapProcess_recorded (h : RegionMapped (fun f => f = 1 ∨ f = 2) False firstSpace.1 0 0
    USER_MMAP_BASE (regionEnd (USER_MMAP_BASE, 2)) firstSpace.2 s) (a : Nat)
    (ha : Recorded mmapProcess.mmapRegions a) :
    (pteAt (mmapKernel s).machine.ram 3 mmapProcess.pml4Phys (pathOf a)).isSome = true := by
  obtain ⟨r, hr, hlo, hhi⟩ := ha
  obtain rfl := List.mem_singleton.mp hr
  obtain ⟨e, he, -⟩ := h.inside a hlo hhi
  exact Option.isSome_of_eq_some he

lemma mmapProcess_separate : Separate mmapProcess.mmapRegions := List.pairwise_singleton _ _

lemma mmapProcess_belowStack : ∀ r ∈ mmapProcess.mmapRegions, BelowStack r := by decide +kernel

/-- The whole region. -/
theorem sysMunmap_exact_iff_whole : ∃ k k', k.current = some (initSlot, mmapProcess) ∧
    k.sysMunmap referenceMapper USER_MMAP_BASE (2 * PAGE_SIZE) = .ok (.ok 0, k') ∧
    MunmapExact k k' initSlot mmapProcess USER_MMAP_BASE (2 * PAGE_SIZE) := by
  obtain ⟨s, hs⟩ := mmapKernel_mapped
  have hrec := mmapProcess_recorded hs
  have hcur : (mmapKernel s).current = some (initSlot, mmapProcess) := rfl
  have hmem : (USER_MMAP_BASE, 2) ∈ mmapProcess.mmapRegions := List.mem_singleton.mpr rfl
  obtain ⟨s', i, hok, -, -⟩ :=
    sysMunmap_gone referenceMapper_exact hcur hs.family mmapProcess_belowStack
    mmapProcess_separate hrec hmem (le_refl USER_MMAP_BASE)
    (show USER_MMAP_BASE + 2 * PAGE_SIZE ≤ regionEnd (USER_MMAP_BASE, 2) from le_rfl) (by decide)
      (by decide) (by decide)
  exact ⟨_, _, hcur, hok,
    (sysMunmap_exact_iff referenceMapper_exact hcur hs.family mmapProcess_belowStack
    mmapProcess_separate hrec (by decide) ⟨_, hmem, le_rfl, le_rfl⟩).mpr (.inr (.inr hmem)) _ hok⟩

/-- The first of the two pages: the second one is lost as well. -/
theorem sysMunmap_takes_all : ∃ k k', k.current = some (initSlot, mmapProcess) ∧
    k.sysMunmap referenceMapper USER_MMAP_BASE PAGE_SIZE = .ok (.ok 0, k') ∧
    (pteAt k.machine.ram 3 firstSpace.1 (pathOf (USER_MMAP_BASE + PAGE_SIZE))).isSome = true ∧
    ¬ MunmapExact k k' initSlot mmapProcess USER_MMAP_BASE PAGE_SIZE := by
  obtain ⟨s, hs⟩ := mmapKernel_mapped
  have hrec := mmapProcess_recorded hs
  have hcur : (mmapKernel s).current = some (initSlot, mmapProcess) := rfl
  have hmem : (USER_MMAP_BASE, 2) ∈ mmapProcess.mmapRegions := List.mem_singleton.mpr rfl
  have hin : (USER_MMAP_BASE, 2).1 ≤ USER_MMAP_BASE + PAGE_SIZE ∧
      USER_MMAP_BASE + PAGE_SIZE < regionEnd (USER_MMAP_BASE, 2) := by decide
  have hsec := hrec _ ⟨_, hmem, hin⟩
  obtain ⟨s', i, hok, hgone, -⟩ :=
    sysMunmap_gone referenceMapper_exact hcur hs.family mmapProcess_belowStack
    mmapProcess_separate hrec hmem (le_refl USER_MMAP_BASE)
    (show USER_MMAP_BASE + PAGE_SIZE ≤ regionEnd (USER_MMAP_BASE, 2) by decide) (by decide)
      (by decide) (by decide)
  exact ⟨_, _, hcur, hok, hsec, not_munmapExact hgone hsec (by decide) hin (by decide)⟩

end Kernel

end Indominus.Sys
