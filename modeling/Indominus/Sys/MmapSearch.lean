import Indominus.Lib.Climb
import Indominus.Sys.HeapPages
import Indominus.Sys.Run

/-! # The search of `sys_mmap` -/

namespace Indominus.Sys

open Lib Memory

variable {M : Mapper} {s : Machine} {pml4 n base : Nat} {regions : List (Nat × Nat)}

/-! ## One round -/

/-- The bottom of the stack area, where the search ends. -/
def searchLimit : Nat := USER_STACK_TOP - 5 * PAGE_SIZE

def searchRound (M : Mapper) (s : Machine) (pml4 numPages : Nat) (regions : List (Nat × Nat))
    (base : Nat) : Nat ⊕ Except Panic (Option Nat) :=
  match overlapEnd base numPages regions with
  | some existingEnd => .inl existingEnd
  | none =>
    if wadd base (wmul numPages PAGE_SIZE) > searchLimit then .inr (.ok none)
    else
      match firstMapped M s pml4 base numPages 0 with
      | .error e => .inr (.error e)
      | .ok none => .inr (.ok (some base))
      | .ok (some i) => .inl (wadd base (wmul (i + 1) PAGE_SIZE))

lemma findRegion_eq_climb (fuel : Nat) : findRegion M s pml4 n regions fuel base =
    climb (searchRound M s pml4 n regions) (.error .halt) fuel base := by
  induction fuel generalizing base with
  | zero => rfl
  | succ fuel ih =>
    rw [findRegion, climb, searchRound]
    cases overlapEnd base n regions with
    | some existingEnd => exact ih
    | none =>
      by_cases hlim : wadd base (wmul n PAGE_SIZE) > searchLimit
      · rw [if_pos hlim]
        exact if_pos hlim
      rw [if_neg hlim]
      refine (if_neg hlim).trans ?_
      cases firstMapped M s pml4 base n 0 with
      | error e => rfl
      | ok found =>
        cases found with
        | none => rfl
        | some i => exact ih

/-! ## Pages -/

lemma wadd_wmul_of_lt {i : Nat} (h : base + i * PAGE_SIZE < 2 ^ 64) :
    wadd base (wmul i PAGE_SIZE) = base + i * PAGE_SIZE := by
  have hmul : i * PAGE_SIZE < 2 ^ 64 := by omega
  rw [wadd, wmul, Nat.mod_eq_of_lt hmul, Nat.mod_eq_of_lt h]

def isMapped (M : Mapper) (s : Machine) (pml4 va : Nat) : Bool := (translateAddr M s pml4 va).isSome

lemma firstMapped_eq {i : Nat} (h : base + (i + n) * PAGE_SIZE ≤ 2 ^ 47) :
    ∃ found, firstMapped M s pml4 base n i = .ok found ∧
      (found = none → ∀ j, i ≤ j → j < i + n → isMapped M s pml4 (base + j * PAGE_SIZE) = false) ∧
      ∀ j, found = some j → i ≤ j ∧ j < i + n ∧
        isMapped M s pml4 (base + j * PAGE_SIZE) = true := by
  induction n generalizing i with
  | zero =>
    refine ⟨none, rfl, fun _ j hlo hhi => by omega, fun j hj => (nomatch hj)⟩
  | succ n ih =>
    have hpage : base + i * PAGE_SIZE < 2 ^ 47 := by
      unfold PAGE_SIZE at *
      omega
    rw [firstMapped, wadd_wmul_of_lt (by omega), withVirt_of_lt hpage, ← isMapped]
    by_cases hmap : isMapped M s pml4 (base + i * PAGE_SIZE) = true
    · rw [if_pos hmap]
      refine ⟨some i, rfl, fun hnone => (nomatch hnone), fun j hj => ?_⟩
      cases hj
      exact ⟨le_refl _, by omega, hmap⟩
    rw [if_neg hmap]
    have hrest : base + (i + 1 + n) * PAGE_SIZE ≤ 2 ^ 47 := by
      rw [show i + 1 + n = i + (n + 1) by omega]
      exact h
    obtain ⟨found, hfd, hnone, hsome⟩ := ih hrest
    refine ⟨found, hfd, fun hn j hlo hhi => ?_, fun j hj => ?_⟩
    · rcases Nat.eq_or_lt_of_le hlo with rfl | hlt
      · exact Bool.eq_false_iff.mpr hmap
      · exact hnone hn j hlt (by omega)
    · obtain ⟨hlo, hhi, hj⟩ := hsome j hj
      exact ⟨by omega, by omega, hj⟩

/-! ## Regions -/

def regionEnd (r : Nat × Nat) : Nat := r.1 + r.2 * PAGE_SIZE

/-- The test of the source: does a candidate of `n` pages run into the region? -/
def Clashes (base n : Nat) (r : Nat × Nat) : Prop := base < regionEnd r ∧ r.1 < base + n * PAGE_SIZE

/-- A region that starts on a page boundary and lies in the user half. -/
def UserRegion (r : Nat × Nat) : Prop := r.1 % PAGE_SIZE = 0 ∧ regionEnd r ≤ 2 ^ 47

variable {r : Nat × Nat} {b length : Nat}

lemma UserRegion.end_aligned (h : UserRegion r) : regionEnd r % PAGE_SIZE = 0 := by
  rw [regionEnd, Nat.add_mul_mod_self_right, h.1]

lemma UserRegion.wadd_eq (h : UserRegion r) : wadd r.1 (wmul r.2 PAGE_SIZE) = regionEnd r := by
  have hend := h.2
  rw [regionEnd] at hend
  exact wadd_wmul_of_lt (by omega)

lemma overlapEnd_eq (hreg : ∀ r ∈ regions, UserRegion r) : (overlapEnd base n regions = none ∧
        ∀ r ∈ regions, ¬ (base < regionEnd r ∧ r.1 < wadd base (wmul n PAGE_SIZE))) ∨
      ∃ r ∈ regions, overlapEnd base n regions = some (regionEnd r) ∧
        base < regionEnd r ∧ r.1 < wadd base (wmul n PAGE_SIZE) := by
  induction regions with
  | nil => exact .inl ⟨rfl, by simp⟩
  | cons r rs ih =>
    rw [overlapEnd, (hreg r (by simp)).wadd_eq]
    by_cases hcsh : base < regionEnd r ∧ r.1 < wadd base (wmul n PAGE_SIZE)
    · exact .inr ⟨r, by simp, if_pos hcsh, hcsh⟩
    rw [if_neg hcsh]
    obtain ⟨hnone, hclr⟩ | ⟨r', hr', hsome, hcsh'⟩ := ih fun r' hr' => hreg r' (by simp [hr'])
    · refine .inl ⟨hnone, fun r' hr' => ?_⟩
      rcases List.mem_cons.mp hr' with rfl | hr'
      · exact hcsh
      · exact hclr r' hr'
    · exact .inr ⟨r', by simp [hr'], hsome, hcsh'⟩

lemma overlapEnd_cases (hreg : ∀ r ∈ regions, UserRegion r)
    (hbase : base + n * PAGE_SIZE < 2 ^ 64) :
    (overlapEnd base n regions = none ∧ ∀ r ∈ regions, ¬ Clashes base n r) ∨
      ∃ r ∈ regions, overlapEnd base n regions = some (regionEnd r) ∧ Clashes base n r := by
  have hcas := @overlapEnd_eq n base regions hreg
  rwa [wadd_wmul_of_lt hbase] at hcas

/-! ## The least address that fits -/

/-- The aligned addresses from `start` on at which `n` pages fit below the stack. -/
def fitting (M : Mapper) (s : Machine) (pml4 n : Nat) (regions : List (Nat × Nat))
    (start : Nat) : Set Nat :=
  {b | b % PAGE_SIZE = 0 ∧ start ≤ b ∧ b + n * PAGE_SIZE ≤ searchLimit ∧
    (∀ r ∈ regions, ¬ Clashes b n r) ∧
    ∀ i < n, isMapped M s pml4 (b + i * PAGE_SIZE) = false}

/-- The candidates of a search in which no sum wraps. -/
structure Candidate (n base : Nat) : Prop where
  aligned : base % PAGE_SIZE = 0
  user : base ≤ 2 ^ 47
  fits : base + n * PAGE_SIZE < 2 ^ 64

lemma searchRound_cases (hreg : ∀ r ∈ regions, UserRegion r) (hbase : Candidate n base) :
    (∃ r ∈ regions, Clashes base n r ∧ searchRound M s pml4 n regions base = .inl (regionEnd r)) ∨
      ((∀ r ∈ regions, ¬ Clashes base n r) ∧
        ((searchLimit < base + n * PAGE_SIZE ∧
        searchRound M s pml4 n regions base = .inr (.ok none)) ∨
          (base + n * PAGE_SIZE ≤ searchLimit ∧
            (((∀ i < n, isMapped M s pml4 (base + i * PAGE_SIZE) = false) ∧
                searchRound M s pml4 n regions base = .inr (.ok (some base))) ∨
              ∃ i < n, isMapped M s pml4 (base + i * PAGE_SIZE) = true ∧
                searchRound M s pml4 n regions base = .inl (base + (i + 1) * PAGE_SIZE))))) := by
  obtain ⟨hnone, hclr⟩ | ⟨r, hr, hsome, hcsh⟩ := overlapEnd_cases hreg hbase.fits
  · refine .inr ⟨hclr, ?_⟩
    simp only [searchRound, hnone, wadd_wmul_of_lt hbase.fits]
    by_cases hlim : searchLimit < base + n * PAGE_SIZE
    · exact .inl ⟨hlim, if_pos hlim⟩
    have hle : base + n * PAGE_SIZE ≤ searchLimit := Nat.le_of_not_lt hlim
    have hlow : searchLimit ≤ 2 ^ 47 := by decide
    refine .inr ⟨hle, ?_⟩
    rw [if_neg hlim]
    obtain ⟨found, hfd, hfree, hmap⟩ :=
      @firstMapped_eq M s pml4 n base 0 (by rw [Nat.zero_add]; omega)
    simp only [hfd]
    cases found with
    | none => exact .inl ⟨fun i hi => hfree rfl i (Nat.zero_le _) (by omega), rfl⟩
    | some i =>
      obtain ⟨-, hi, hi'⟩ := hmap i rfl
      have hnext : base + (i + 1) * PAGE_SIZE ≤ base + n * PAGE_SIZE :=
        Nat.add_le_add_left (Nat.mul_le_mul_right _ (by omega)) _
      exact .inr ⟨i, by omega, hi', congrArg Sum.inl (wadd_wmul_of_lt (by omega))⟩
  · refine .inl ⟨r, hr, hcsh, ?_⟩
    simp only [searchRound, hsome]

lemma exists_page_between {c : Nat} (hb : b % PAGE_SIZE = 0) (hc : c % PAGE_SIZE = 0)
    (hle : b ≤ c) : ∃ j, c = b + j * PAGE_SIZE := by
  refine ⟨(c - b) / PAGE_SIZE, ?_⟩
  unfold PAGE_SIZE at *
  omega

/-- The search climbs past every obstacle and skips no place that fits. -/
lemma findRegion_least {start fuel : Nat} (hreg : ∀ r ∈ regions, UserRegion r)
    (hends : ∀ r ∈ regions, regionEnd r + n * PAGE_SIZE < 2 ^ 64) (hst : Candidate n start)
    (hfuel : 2 ^ 47 < start + fuel) :
    ∃ found, findRegion M s pml4 n regions fuel start = .ok found ∧
      FindsLeast (fitting M s pml4 n regions start) found := by
  rw [findRegion_eq_climb]
  refine climb_least (I := fun b => Candidate n b ∧ start ≤ b) (fun b hb => hb.1.user) ?_ ?_
    ⟨hst, le_refl _⟩ (fun c hc => hc.2.1) hfuel
  · -- a jump passes only over addresses that clash with the same region, or contain the same page
    rintro b b' ⟨hb, hle⟩ hrd
    obtain ⟨r, hr, hcsh, heq⟩ | ⟨-, ⟨-, heq⟩ | ⟨hlim, ⟨-, heq⟩ | ⟨i, hi, hmap, heq⟩⟩⟩ :=
      @searchRound_cases M s pml4 n b regions hreg hb
    · obtain rfl := Sum.inl.inj (hrd.symm.trans heq)
      have huser := hreg r hr
      refine ⟨hcsh.1, ⟨⟨huser.end_aligned, huser.2, hends r hr⟩, le_trans hle hcsh.1.le⟩,
        fun c hc hbc => ?_⟩
      by_contra hlt
      exact hc.2.2.2.1 r hr ⟨by omega, lt_of_lt_of_le hcsh.2 (Nat.add_le_add_right hbc _)⟩
    · cases hrd.symm.trans heq
    · cases hrd.symm.trans heq
    obtain rfl := Sum.inl.inj (hrd.symm.trans heq)
    have hlow : searchLimit ≤ 2 ^ 47 := by decide
    have hnext : b + (i + 1) * PAGE_SIZE ≤ b + n * PAGE_SIZE :=
      Nat.add_le_add_left (Nat.mul_le_mul_right _ hi) _
    have hup : b < b + (i + 1) * PAGE_SIZE :=
      Nat.lt_add_of_pos_right (Nat.mul_pos (by omega) (by decide))
    have hal : (b + (i + 1) * PAGE_SIZE) % PAGE_SIZE = 0 := by
      rw [Nat.add_mul_mod_self_right, hb.aligned]
    refine ⟨hup, ⟨⟨hal, by omega, by omega⟩, by omega⟩, fun c hc hbc => ?_⟩
    by_contra hlt
    obtain ⟨j, rfl⟩ := exists_page_between hb.aligned hc.1 hbc
    have hji : j ≤ i := by
      rw [not_le, Nat.add_lt_add_iff_left, Nat.mul_lt_mul_right (by decide)] at hlt
      omega
    have hfree := hc.2.2.2.2 (i - j) (by omega)
    rw [Nat.add_assoc, ← Nat.add_mul, Nat.add_sub_cancel' hji, hmap] at hfree
    cases hfree
  rintro b a ⟨hb, hle⟩ hrd
  obtain ⟨r, hr, hcsh, heq⟩ | ⟨hclr, ⟨hlim, heq⟩ | ⟨hlim, ⟨hfree, heq⟩ | ⟨i, hi, hmap, heq⟩⟩⟩ :=
    @searchRound_cases M s pml4 n b regions hreg hb
  · cases hrd.symm.trans heq
  · obtain rfl := Sum.inr.inj (hrd.symm.trans heq)
    refine .inr ⟨rfl, fun c hc hbc => ?_⟩
    have := hc.2.2.1
    omega
  · obtain rfl := Sum.inr.inj (hrd.symm.trans heq)
    exact .inl ⟨rfl, hb.aligned, hle, hlim, hclr, hfree⟩
  · cases hrd.symm.trans heq

/-! ## The search of a call -/

lemma randomizeMmapBase_start (k : Kernel) :
    k.randomizeMmapBase.1 % PAGE_SIZE = 0 ∧ USER_MMAP_BASE ≤ k.randomizeMmapBase.1 ∧
      k.randomizeMmapBase.1 < USER_MMAP_BASE + 32 * PAGE_SIZE := by
  simp only [Kernel.randomizeMmapBase, Kernel.randomPageOffset]
  unfold USER_MMAP_BASE PAGE_SIZE
  omega

lemma pagesFor_of_lt (h : length + (PAGE_SIZE - 1) < 2 ^ 64) :
    pagesFor length = (length + PAGE_SIZE - 1) / PAGE_SIZE := by
  rw [pagesFor, wadd, Nat.mod_eq_of_lt h]
  rfl

/-- Do `length` bytes fit at `b`, below the stack and clear of regions and mapped pages? -/
def Fits (M : Mapper) (s : Machine) (pml4 : Nat) (regions : List (Nat × Nat))
    (start length b : Nat) : Prop :=
  b % PAGE_SIZE = 0 ∧ start ≤ b ∧
    b + (length + PAGE_SIZE - 1) / PAGE_SIZE * PAGE_SIZE ≤ USER_STACK_TOP - 5 * PAGE_SIZE ∧
    ∀ i < (length + PAGE_SIZE - 1) / PAGE_SIZE, translateAddr M s pml4 (b + i * PAGE_SIZE) = none ∧
      ∀ r ∈ regions, ¬ (r.1 ≤ b + i * PAGE_SIZE ∧ b + i * PAGE_SIZE < r.1 + r.2 * PAGE_SIZE)

lemma clashes_iff (hb : b % PAGE_SIZE = 0) (hr : r.1 % PAGE_SIZE = 0) (hpgs : 0 < r.2)
    (hn : 0 < n) :
    Clashes b n r ↔ ∃ i < n, r.1 ≤ b + i * PAGE_SIZE ∧ b + i * PAGE_SIZE < regionEnd r := by
  constructor
  · intro ⟨hlow, hhigh⟩
    by_cases hle : r.1 ≤ b
    · exact ⟨0, hn, by omega, by omega⟩
    -- the region starts inside the candidate
    obtain ⟨j, hj⟩ := exists_page_between hb hr (by omega)
    rw [hj, Nat.add_lt_add_iff_left, Nat.mul_lt_mul_right (by decide)] at hhigh
    refine ⟨j, hhigh, le_of_eq hj, ?_⟩
    rw [← hj]
    exact Nat.lt_add_of_pos_right (Nat.mul_pos hpgs (by decide))
  rintro ⟨i, hi, hlow, hhigh⟩
  have hpage : b + i * PAGE_SIZE < b + n * PAGE_SIZE :=
    Nat.add_lt_add_left (Nat.mul_lt_mul_of_pos_right hi (by decide)) _
  exact ⟨by omega, by omega⟩

lemma mem_fitting_iff {start : Nat} (hlen : 1 ≤ length)
    (hreg : ∀ r ∈ regions, r.1 % PAGE_SIZE = 0 ∧ 0 < r.2) :
    b ∈ fitting M s pml4 ((length + PAGE_SIZE - 1) / PAGE_SIZE) regions start ↔
      Fits M s pml4 regions start length b := by
  have hpos : 0 < (length + PAGE_SIZE - 1) / PAGE_SIZE :=
    Nat.div_pos (by unfold PAGE_SIZE; omega) (by decide)
  refine and_congr_right fun hb => and_congr_right fun _ => and_congr_right fun _ => ?_
  constructor
  · intro ⟨hclr, hfree⟩ i hi
    refine ⟨Option.isSome_eq_false_iff.mp (hfree i hi) |> Option.isNone_iff_eq_none.mp,
      fun r hr hin => ?_⟩
    obtain ⟨hal, hpgs⟩ := hreg r hr
    exact hclr r hr ((clashes_iff hb hal hpgs hpos).mpr ⟨i, hi, hin⟩)
  intro h
  refine ⟨fun r hr hcsh => ?_, fun i hi => by rw [isMapped, (h i hi).1, Option.isSome_none]⟩
  obtain ⟨hal, hpgs⟩ := hreg r hr
  obtain ⟨i, hi, hin⟩ := (clashes_iff hb hal hpgs hpos).mp hcsh
  exact (h i hi).2 r hr hin

/-- **The placement of `sys_mmap`.**  For page-aligned regions below 2^47 and lengths up to 2^46 the
search finds, in at most 2^47 rounds, the least address that fits, or none fits. -/
theorem mmap_first_fit (M : Mapper) (s : Machine) (pml4 : Nat) (regions : List (Nat × Nat))
    (length : Nat) (k : Kernel)
    (hregions : ∀ r ∈ regions, r.1 % PAGE_SIZE = 0 ∧ 0 < r.2 ∧ r.1 + r.2 * PAGE_SIZE ≤ 2 ^ 47)
    (hlength : 1 ≤ length ∧ length ≤ 2 ^ 46) : ∃ found, (∀ fuel, 2 ^ 47 ≤ fuel →
        findRegion M s pml4 (pagesFor length) regions fuel k.randomizeMmapBase.1 = .ok found) ∧
      (found.isSome = true ↔ ∃ b, Fits M s pml4 regions k.randomizeMmapBase.1 length b) ∧
      ∀ b, found = some b →
        IsLeast {b | Fits M s pml4 regions k.randomizeMmapBase.1 length b} b := by
  obtain ⟨hal, hlow, hhigh⟩ := randomizeMmapBase_start k
  obtain ⟨start, hst⟩ : ∃ start, start = k.randomizeMmapBase.1 := ⟨_, rfl⟩
  rw [← hst] at hal hlow hhigh ⊢
  obtain ⟨n, hn⟩ : ∃ n, n = (length + PAGE_SIZE - 1) / PAGE_SIZE := ⟨_, rfl⟩
  have hpgs : pagesFor length = n := by
    rw [hn]
    exact pagesFor_of_lt (by unfold PAGE_SIZE; omega)
  have huser : ∀ r ∈ regions, UserRegion r := fun r hr => ⟨(hregions r hr).1, (hregions r hr).2.2⟩
  have hends : ∀ r ∈ regions, regionEnd r + n * PAGE_SIZE < 2 ^ 64 := by
    intro r hr
    have hend := (huser r hr).2
    unfold PAGE_SIZE at *
    omega
  have hcandidate : Candidate n start := by
    unfold USER_MMAP_BASE PAGE_SIZE at *
    exact ⟨hal, by omega, by unfold PAGE_SIZE; omega⟩
  have hfits : fitting M s pml4 n regions start = {b | Fits M s pml4 regions start length b} := by
    ext b
    rw [hn]
    exact mem_fitting_iff hlength.1 fun r hr => ⟨(hregions r hr).1, (hregions r hr).2.1⟩
  have hpos : 0 < start := by
    unfold USER_MMAP_BASE at hlow
    omega
  obtain ⟨found, -, hlst⟩ := @findRegion_least M s pml4 n regions start _ huser hends hcandidate
    (show 2 ^ 47 < start + 2 ^ 47 by omega)
  refine ⟨found, fun fuel hfuel => ?_, ?_, fun b hb => ?_⟩
  · obtain ⟨found', hfd', hlst'⟩ :=
      @findRegion_least M s pml4 n regions start _ huser hends hcandidate
      (show 2 ^ 47 < start + fuel by omega)
    rw [hpgs, hfd', hlst'.unique hlst]
  · rw [hlst.isSome_iff, hfits]
    rfl
  · rw [← hfits]
    exact hlst.1 b hb

/-- A kernel that has just booted, with a page on record at the start of the area, and 5000 bytes
wanted. -/
theorem mmap_first_fit_boot : ∃ found, (∀ fuel, 2 ^ 47 ≤ fuel →
      findRegion referenceMapper Kernel.bootMachine 1 (pagesFor 5000) [(USER_MMAP_BASE, 1)] fuel
        Kernel.bootKernel.randomizeMmapBase.1 = .ok found) ∧
    (found.isSome = true ↔ ∃ b, Fits referenceMapper Kernel.bootMachine 1 [(USER_MMAP_BASE, 1)]
      Kernel.bootKernel.randomizeMmapBase.1 5000 b) ∧
    ∀ b, found = some b →
      IsLeast {b | Fits referenceMapper Kernel.bootMachine 1 [(USER_MMAP_BASE, 1)]
      Kernel.bootKernel.randomizeMmapBase.1 5000 b} b :=
  mmap_first_fit referenceMapper Kernel.bootMachine 1 [(USER_MMAP_BASE, 1)] 5000
    Kernel.bootKernel (by decide) (by decide)

end Indominus.Sys
