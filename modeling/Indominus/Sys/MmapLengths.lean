import Indominus.Memory.LoadSafety
import Indominus.Sys.ExecStack
import Indominus.Sys.MmapSearch

/-!
# Every length of `sys_mmap`

The length is rounded up and added to the candidate in wrapping arithmetic, before anything is
compared.
-/

namespace Indominus.Sys

open Lib Lib.Radix Lib.Budget Memory Option

variable {M : Mapper} {s : Machine} {pml4 n base : Nat} {regions : List (Nat × Nat)}

/-! ## The search for a huge region -/

/-- A region that starts on a page boundary and ends below the stack. -/
def BelowStack (r : Nat × Nat) : Prop := r.1 % PAGE_SIZE = 0 ∧ regionEnd r ≤ searchLimit

instance (r : Nat × Nat) : Decidable (BelowStack r) := inferInstanceAs (Decidable (_ ∧ _))

lemma BelowStack.user {r : Nat × Nat} (h : BelowStack r) : UserRegion r :=
  ⟨h.1, le_trans h.2 (by decide)⟩

structure MappedPage (M : Mapper) (s : Machine) (pml4 page : Nat) : Prop where
  aligned : page % PAGE_SIZE = 0
  user : page < 2 ^ 47
  mapped : isMapped M s pml4 page = true

lemma MappedPage.next_le {page : Nat} (h : MappedPage M s pml4 page) :
    page + PAGE_SIZE ≤ 2 ^ 47 := by
  have hal := h.aligned
  have huser := h.user
  unfold PAGE_SIZE at *
  omega

lemma add_succ_mul_page (base i : Nat) :
    base + (i + 1) * PAGE_SIZE = base + i * PAGE_SIZE + PAGE_SIZE := by
  rw [Nat.succ_mul, Nat.add_assoc]

lemma firstMapped_past {i : Nat} (hbase : base % PAGE_SIZE = 0)
    (hlow : base + i * PAGE_SIZE ≤ 2 ^ 47) (hpast : 2 ^ 47 < base + (i + n) * PAGE_SIZE) :
    (∃ j, i ≤ j ∧ MappedPage M s pml4 (base + j * PAGE_SIZE) ∧
      firstMapped M s pml4 base n i = .ok (some j)) ∨
      ((∀ j, i ≤ j → ¬ MappedPage M s pml4 (base + j * PAGE_SIZE)) ∧
        ∃ e, firstMapped M s pml4 base n i = .error e) := by
  induction n generalizing i with
  | zero =>
    rw [Nat.add_zero] at hpast
    omega
  | succ n ih =>
    rw [firstMapped, wadd_wmul_of_lt (by omega)]
    by_cases hpage : base + i * PAGE_SIZE < 2 ^ 47
    · rw [withVirt_of_lt hpage, ← isMapped]
      have hal : (base + i * PAGE_SIZE) % PAGE_SIZE = 0 := by
        rw [Nat.add_mul_mod_self_right, hbase]
      by_cases hmapped : isMapped M s pml4 (base + i * PAGE_SIZE) = true
      · exact .inl ⟨i, le_refl _, ⟨hal, hpage, hmapped⟩, if_pos hmapped⟩
      rw [if_neg hmapped]
      have hnext : base + (i + 1) * PAGE_SIZE ≤ 2 ^ 47 := by
        unfold PAGE_SIZE at hal hpage ⊢
        omega
      rw [show i + (n + 1) = i + 1 + n by omega] at hpast
      obtain ⟨j, hj, hfd⟩ | ⟨hnone, herr⟩ := ih hnext hpast
      · exact .inl ⟨j, by omega, hfd⟩
      refine .inr ⟨fun j hj hmap => ?_, herr⟩
      rcases Nat.eq_or_lt_of_le hj with rfl | hlt
      · exact hmapped hmap.mapped
      · exact hnone j hlt hmap
    -- the first address past the user half is not canonical
    have hedge : base + i * PAGE_SIZE = 2 ^ 47 := by omega
    refine .inr ⟨fun j hj hmap => ?_, ?_⟩
    · have hle : base + i * PAGE_SIZE ≤ base + j * PAGE_SIZE :=
        Nat.add_le_add_left (Nat.mul_le_mul_right _ hj) _
      exact absurd hmap.user (by omega)
    · rw [hedge]
      exact ⟨_, rfl⟩

def NoWrap (n start : Nat) (regions : List (Nat × Nat)) : Prop :=
  start + n * PAGE_SIZE < 2 ^ 64 ∧ ∀ r ∈ regions, regionEnd r + n * PAGE_SIZE < 2 ^ 64

/-- A mapped page that is so high that the wrapped end of the candidate after it lies above the
stack. -/
def StopPage (M : Mapper) (s : Machine) (pml4 n page : Nat) : Prop :=
  MappedPage M s pml4 page ∧ searchLimit + 2 ^ 64 ≤ page + n * PAGE_SIZE

/-- A region that is longer than half of the 64-bit numbers, whose length in bytes is one of
them. -/
def Huge (n : Nat) : Prop := 2 ^ 63 ≤ n * PAGE_SIZE ∧ n * PAGE_SIZE < 2 ^ 64

inductive HugeRound (M : Mapper) (s : Machine) (pml4 n : Nat) (regions : List (Nat × Nat))
    (base : Nat) : Nat ⊕ Except Panic (Option Nat) → Prop
  | region {r : Nat × Nat} (hr : r ∈ regions) (hlt : base < regionEnd r) :
      HugeRound M s pml4 n regions base (.inl (regionEnd r))
  | page {page : Nat} (hpage : MappedPage M s pml4 page) (hle : base ≤ page)
      (hwrap : 2 ^ 64 ≤ base + n * PAGE_SIZE) :
      HugeRound M s pml4 n regions base (.inl (page + PAGE_SIZE))
  | full (hfull : (base + n * PAGE_SIZE < 2 ^ 64 ∧ ∀ r ∈ regions, regionEnd r ≤ base) ∨
        searchLimit + 2 ^ 64 < base + n * PAGE_SIZE) :
      HugeRound M s pml4 n regions base (.inr (.ok none))
  | panic {e : Panic} (hwrap : 2 ^ 64 ≤ base + n * PAGE_SIZE)
      (hlimit : base + n * PAGE_SIZE ≤ searchLimit + 2 ^ 64)
      (hnone : ∀ page, base ≤ page → ¬ MappedPage M s pml4 page) :
      HugeRound M s pml4 n regions base (.inr (.error e))

lemma searchRound_huge (hregions : ∀ r ∈ regions, BelowStack r) (hn : Huge n)
    (hal : base % PAGE_SIZE = 0) (huser : base ≤ 2 ^ 47) :
    HugeRound M s pml4 n regions base (searchRound M s pml4 n regions base) := by
  obtain ⟨hbig, hsm⟩ := hn
  have hmul : wmul n PAGE_SIZE = n * PAGE_SIZE := Nat.mod_eq_of_lt hsm
  have hlim : searchLimit < 2 ^ 47 := by decide
  rw [searchRound]
  obtain ⟨hnone, hclr⟩ | ⟨r, hr, hsome, hlt, -⟩ :=
    @overlapEnd_eq n base regions fun r hr => (hregions r hr).user
  · simp only [hnone]
    by_cases hwrap : base + n * PAGE_SIZE < 2 ^ 64
    · have hsum : wadd base (wmul n PAGE_SIZE) = base + n * PAGE_SIZE := wadd_wmul_of_lt hwrap
      rw [if_pos (by omega)]
      refine .full (.inl ⟨hwrap, fun r hr => Nat.le_of_not_lt fun hlt => hclr r hr ⟨hlt, ?_⟩⟩)
      have hend := (hregions r hr).2
      rw [regionEnd] at hend
      omega
    have hsum : wadd base (wmul n PAGE_SIZE) = base + n * PAGE_SIZE - 2 ^ 64 := by
      rw [wadd]
      omega
    rw [hsum]
    by_cases hover : base + n * PAGE_SIZE - 2 ^ 64 > searchLimit
    · rw [if_pos hover]
      exact .full (.inr (Nat.lt_sub_iff_add_lt.mp hover))
    rw [if_neg hover]
    obtain ⟨j, -, hpage, hfd⟩ | ⟨hfree, e, herr⟩ :=
      @firstMapped_past M s pml4 n base 0 hal (by omega) (by rw [Nat.zero_add]; omega)
    · simp only [hfd]
      have hnext : wadd base (wmul (j + 1) PAGE_SIZE) = base + j * PAGE_SIZE + PAGE_SIZE := by
        rw [← add_succ_mul_page]
        refine wadd_wmul_of_lt (lt_of_le_of_lt ?_ (show 2 ^ 47 < 2 ^ 64 by decide))
        rw [add_succ_mul_page]
        exact hpage.next_le
      rw [hnext]
      exact .page hpage (Nat.le_add_right _ _) (by omega)
    simp only [herr]
    refine .panic (by omega) (by omega) fun page hle hpage => ?_
    obtain ⟨j, rfl⟩ := exists_page_between hal hpage.aligned hle
    exact hfree j (Nat.zero_le _) hpage
  · simp only [hsome]
    exact .region hr hlt

/-- The candidates of the search for such a region. -/
structure HugeCandidate (M : Mapper) (s : Machine) (pml4 n : Nat) (regions : List (Nat × Nat))
    (start b : Nat) : Prop where
  aligned : b % PAGE_SIZE = 0
  user : b ≤ 2 ^ 47
  le : start ≤ b
  above : searchLimit < b → ∃ page, MappedPage M s pml4 page ∧ b = page + PAGE_SIZE
  fits : NoWrap n start regions → b + n * PAGE_SIZE < 2 ^ 64

/-- A huge length is refused, unless the arithmetic overflows first. -/
lemma findRegion_huge {start fuel : Nat} (hregions : ∀ r ∈ regions, BelowStack r) (hn : Huge n)
    (hst : start % PAGE_SIZE = 0) (hlimit : start ≤ searchLimit) (hfuel : 2 ^ 47 < start + fuel) :
    (findRegion M s pml4 n regions fuel start = .ok none ∧
        (NoWrap n start regions ∨ ∃ page, StopPage M s pml4 n page)) ∨
      ((∃ e, findRegion M s pml4 n regions fuel start = .error e) ∧
        ¬ (NoWrap n start regions ∨ ∃ page, StopPage M s pml4 n page)) := by
  rw [findRegion_eq_climb]
  have hlow : searchLimit < 2 ^ 47 := by decide
  refine climb_rule (I := HugeCandidate M s pml4 n regions start)
    (Q := fun a : Except Panic (Option Nat) => (a = .ok none ∧
      (NoWrap n start regions ∨ ∃ page, StopPage M s pml4 n page)) ∨
      ((∃ e, a = .error e) ∧ ¬ (NoWrap n start regions ∨ ∃ page, StopPage M s pml4 n page)))
    (fun b hb => hb.user) ?_ ?_
    ⟨hst, by omega, le_refl _, fun h => absurd h (by omega), fun h => h.1⟩ hfuel
  · intro b b' hb hrd
    have hcas := @searchRound_huge M s pml4 n b regions hregions hn hb.aligned hb.user
    rw [hrd] at hcas
    have hle := hb.le
    cases hcas with
    | region hr hlt =>
      have hend := hregions _ hr
      exact ⟨hlt, ⟨hend.user.end_aligned, hend.user.2,
        by omega, fun h => absurd h (not_lt.mpr hend.2), fun h => h.2 _ hr⟩⟩
    | @page page hpage hle' hwrap =>
      have hup : b < page + PAGE_SIZE := lt_of_le_of_lt hle' (Nat.lt_add_of_pos_right (by decide))
      refine ⟨hup, ⟨?_, hpage.next_le, by omega, fun _ => ⟨page, hpage, rfl⟩, fun h => ?_⟩⟩
      · rw [Nat.add_mod_right, hpage.aligned]
      · -- the candidate before this one wrapped already
        exact absurd (hb.fits h) (by omega)
  intro b a hb hrd
  have hcas := @searchRound_huge M s pml4 n b regions hregions hn hb.aligned hb.user
  rw [hrd] at hcas
  have hle := hb.le
  cases hcas with
  | full hfull =>
    refine .inl ⟨rfl, ?_⟩
    rcases hfull with ⟨hwrap, hends⟩ | hover
    · refine .inl ⟨by omega, fun r hr => ?_⟩
      have hend := hends r hr
      omega
    obtain ⟨page, hpage, rfl⟩ := hb.above
      (Nat.lt_of_add_lt_add_right (hover.trans (Nat.add_lt_add_left hn.2 b)))
    refine .inr ⟨page, hpage, ?_⟩
    have hal := hpage.aligned
    unfold searchLimit USER_STACK_TOP PAGE_SIZE at *
    omega
  | panic hwrap hlim hnone =>
    refine .inr ⟨⟨_, rfl⟩, ?_⟩
    rintro (hfits | ⟨page, hpage, hstop⟩)
    · exact absurd (hb.fits hfits) (by omega)
    · exact hnone page (by omega) hpage

lemma findRegion_belowStack {start fuel : Nat} (hregions : ∀ r ∈ regions, BelowStack r)
    (hn : n * PAGE_SIZE < 2 ^ 64) (hst : start % PAGE_SIZE = 0) (hlim : start ≤ searchLimit)
    (hfuel : 2 ^ 47 < start + fuel)
    (hfind : findRegion M s pml4 n regions fuel start = .ok (some base)) :
    BelowStack (base, n) := by
  have hlow : searchLimit < 2 ^ 47 := by decide
  by_cases hbig : 2 ^ 63 ≤ n * PAGE_SIZE
  · obtain ⟨hnone, -⟩ | ⟨⟨e, herr⟩, -⟩ :=
      @findRegion_huge M s pml4 n regions start fuel hregions ⟨hbig, hn⟩ hst hlim hfuel
    · cases hfind.symm.trans hnone
    · cases hfind.symm.trans herr
  obtain ⟨found, hfd, hlst⟩ := @findRegion_least M s pml4 n regions start fuel
    (fun r hr => (hregions r hr).user) (fun r hr => by have hend := (hregions r hr).2; omega)
    ⟨hst, by omega, by omega⟩ hfuel
  obtain ⟨hal, -, htop, -⟩ := (hlst.1 base (Except.ok.inj (hfd.symm.trans hfind))).1
  exact ⟨hal, htop⟩

/-! ## Mapping the region -/

section Mapping

variable {K : Nat → Prop} {exact : Prop} {R : Multiset Nat} {Z : Claims Nat} {s0 s' : Machine}
  {T lo hi i f : Nat} {content : Nat → Byte}

/-- An address is mapped as before, with the same contents. -/
def SameAt (T : Nat) (s s' : Machine) (a : Nat) : Prop :=
  pteAt s'.ram 3 T (pathOf a) = pteAt s.ram 3 T (pathOf a) ∧ view s'.ram T a = view s.ram T a

/-- The pages from `lo` to `hi` have been added to the address space, and can be written. -/
structure RegionMapped (K : Nat → Prop) (exact : Prop) (T : Nat) (R : Multiset Nat) (Z : Claims Nat)
    (lo hi : Nat) (s s' : Machine) : Prop where
  family : Family K exact s' (T ::ₘ R) Z
  inside : ∀ a, lo ≤ a → a < hi → ∃ e, pteAt s'.ram 3 T (pathOf a) = some e ∧
    Pte.isWritable e = true
  outside : ∀ a < USER_SPACE_END, ¬ (lo ≤ a ∧ a < hi) → SameAt T s s' a

namespace RegionMapped

lemma empty (hfam : Family K exact s (T ::ₘ R) Z) : RegionMapped K exact T R Z lo lo s s :=
  ⟨hfam, fun a hlo hhi => absurd hhi (by omega), fun _ _ _ => ⟨rfl, rfl⟩⟩

lemma extend (h : RegionMapped K exact T R Z lo hi s0 s) (hle : lo ≤ hi) (hal : hi % PAGE_SIZE = 0)
    (huser : hi + PAGE_SIZE ≤ USER_SPACE_END)
    (hfill : PageFilled K exact T R Z hi f userPageFlags content s s') :
    RegionMapped K exact T R Z lo (hi + PAGE_SIZE) s0 s' := by
  have hhi : hi < USER_SPACE_END := lt_of_lt_of_le (Nat.lt_add_of_pos_right (by decide)) huser
  refine ⟨hfill.family, fun a hlo hlt => ?_, fun a ha hout => ?_⟩
  · have ha : a < USER_SPACE_END := by omega
    rw [hfill.leaf _ (inUser_pathOf ha)]
    split_ifs with hpath
    · refine ⟨_, rfl, ?_⟩
      rw [Pte.isWritable_setAddr]
      rfl
    · rw [pathOf_eq_iff_page hhi ha hal] at hpath
      exact h.inside a hlo (by omega)
  have hpath : pathOf a ≠ pathOf hi := by
    rw [Ne, pathOf_eq_iff_page hhi ha hal]
    omega
  obtain ⟨hpte, hview⟩ := h.outside a ha (by omega)
  refine ⟨?_, ?_⟩
  · rw [hfill.leaf _ (inUser_pathOf ha), if_neg hpath, hpte]
  · rw [hfill.view h.family ha, if_neg hpath, hview]

lemma shrink (h : RegionMapped K exact T R Z lo hi s0 s) (hal : lo % PAGE_SIZE = 0)
    (hlo : lo < USER_SPACE_END) (hhi : hi ≤ USER_SPACE_END)
    (hfree : pteAt s0.ram 3 T (pathOf lo) = none) (hgone : PageGone K exact T R Z lo s s') :
    RegionMapped K exact T R Z (lo + PAGE_SIZE) hi s0 s' := by
  refine ⟨hgone.family, fun a hle hlt => ?_, fun a ha hout => ?_⟩
  · have ha : a < USER_SPACE_END := by omega
    have hpath : pathOf a ≠ pathOf lo := by
      rw [Ne, pathOf_eq_iff_page hlo ha hal]
      omega
    rw [hgone.leaf _ (inUser_pathOf ha), if_neg hpath]
    exact h.inside a (by omega) hlt
  by_cases hpath : pathOf a = pathOf lo
  · refine ⟨?_, ?_⟩
    · rw [hgone.leaf _ (inUser_pathOf ha), if_pos hpath, hpath, hfree]
    · rw [hgone.view a ha, if_pos hpath, view, hpath, hfree, map_none]
  obtain ⟨hpte, hview⟩ := h.outside a ha fun hin => hpath (by
    rw [pathOf_eq_iff_page hlo ha hal]
    omega)
  refine ⟨?_, ?_⟩
  · rw [hgone.leaf _ (inUser_pathOf ha), if_neg hpath, hpte]
  · rw [hgone.view a ha, if_neg hpath, hview]

end RegionMapped

lemma page_of_region {j top : Nat} (hbase : base % PAGE_SIZE = 0) (hj : j < top)
    (htop : base + top * PAGE_SIZE ≤ USER_SPACE_END) :
    (base + j * PAGE_SIZE) % PAGE_SIZE = 0 ∧ base + j * PAGE_SIZE < USER_SPACE_END ∧
      base + j * PAGE_SIZE + PAGE_SIZE ≤ USER_SPACE_END := by
  have hnext : base + (j + 1) * PAGE_SIZE ≤ base + top * PAGE_SIZE :=
    Nat.add_le_add_left (Nat.mul_le_mul_right _ hj) _
  rw [add_succ_mul_page] at hnext
  have hpos : 0 < PAGE_SIZE := by decide
  exact ⟨by rw [Nat.add_mul_mod_self_right, hbase], by omega, by omega⟩

lemma unmapMapped_restores (hM : M.Exact) (hbase : base % PAGE_SIZE = 0)
    (htop : base + (i + n) * PAGE_SIZE ≤ USER_SPACE_END)
    (hfree : ∀ j < i + n, pteAt s0.ram 3 T (pathOf (base + j * PAGE_SIZE)) = none)
    (h : RegionMapped K exact T R Z (base + i * PAGE_SIZE) (base + (i + n) * PAGE_SIZE) s0 s) :
    ∃ s', unmapMapped M T base n i s = .ok s' ∧ ∀ a < USER_SPACE_END, SameAt T s0 s' a := by
  induction n generalizing i s with
  | zero => exact ⟨s, rfl, fun a ha => h.outside a ha (by rw [Nat.add_zero]; omega)⟩
  | succ n ih =>
    obtain ⟨hal, huser, -⟩ := page_of_region hbase (show i < i + (n + 1) by omega) htop
    have hin : base + i * PAGE_SIZE < base + (i + (n + 1)) * PAGE_SIZE :=
      Nat.add_lt_add_left (Nat.mul_lt_mul_of_pos_right (by omega) (by decide)) _
    have hwide : USER_SPACE_END ≤ 2 ^ 47 := by decide
    rw [unmapMapped, wadd_wmul_of_lt (by omega), withVirt_of_lt (by omega)]
    obtain ⟨s1, hs1⟩ := dropPage_ok hM h.family huser fun e he => by
      obtain ⟨e', he', hwritable⟩ := h.inside _ (le_refl _) hin
      rwa [some.inj (he.symm.trans he')]
    simp only [hs1]
    have hrest := h.shrink hal huser htop (hfree i (by omega))
      (dropPage_gone hM.toDocumented h.family huser hs1)
    rw [← add_succ_mul_page] at hrest
    rw [show i + (n + 1) = i + 1 + n by omega] at hrest htop hfree
    exact ih htop hfree hrest

/-- The paths of the pages of a region, from the page with index `i` on. -/
def regionPaths (base n i : Nat) : List (List Nat) :=
  (List.range' i n).map fun j => pathOf (base + j * PAGE_SIZE)

/-- How the mapping loop ends: everything is mapped, or everything is as it was, or the kernel is
lost. -/
inductive RegionEnds (K : Nat → Prop) (exact : Prop) (T : Nat) (R : Multiset Nat) (Z : Claims Nat)
    (base top : Nat) (s : Machine) : Budget.Ending → Except Panic (Bool × Machine) → Prop
  | mapped {s' : Machine} (h : RegionMapped K exact T R Z base top s s') :
      RegionEnds K exact T R Z base top s .done (.ok (true, s'))
  | restored {s' : Machine} (h : ∀ a < USER_SPACE_END, SameAt T s s' a) :
      RegionEnds K exact T R Z base top s .dry (.ok (false, s'))
  | panics {e : Panic} : RegionEnds K exact T R Z base top s .short (.error e)

lemma mapRegion_ends (hM : M.Exact) (hbase : base % PAGE_SIZE = 0)
    (htop : base + (i + n) * PAGE_SIZE ≤ USER_SPACE_END)
    (hfree : ∀ j < i + n, pteAt s0.ram 3 T (pathOf (base + j * PAGE_SIZE)) = none)
    (h : RegionMapped K exact T R Z base (base + i * PAGE_SIZE) s0 s)
    (htidy : TidyTables s.ram 3 T) :
    RegionEnds K exact T R Z base (base + (i + n) * PAGE_SIZE) s0
      (spend s.pmm.framesLeft (hasNode s.ram T) (regionPaths base n i)).2
        (mapRegion M T base n i s) := by
  induction n generalizing i s with
  | zero =>
    have hdone : (spend s.pmm.framesLeft (hasNode s.ram T) (regionPaths base 0 i)).2 = .done := by
      cases s.pmm.framesLeft <;> rfl
    exact .mapped h
  | succ n ih =>
    obtain ⟨hal, huser, hnext⟩ := page_of_region hbase (show i < i + (n + 1) by omega) htop
    have hwide : USER_SPACE_END ≤ 2 ^ 47 := by decide
    have hpaths : regionPaths base (n + 1) i = pathOf (base + i * PAGE_SIZE) ::
      regionPaths base n (i + 1) := by
      rw [regionPaths, List.range'_succ, List.map_cons, regionPaths]
    have hnode : hasNode s.ram T (pathOf (base + i * PAGE_SIZE)) = false := by
      rw [hasNode_pathOf _ _ huser, (h.outside _ huser (by omega)).1, hfree i (by omega),
        isSome_none]
    rw [mapRegion, wadd_wmul_of_lt (by omega), withVirt_of_lt (by omega), hpaths]
    have hpage := mapFreshPage_foreseen hM h.family htidy huser hnode
    generalize hresult : mapFreshPage M s T (base + i * PAGE_SIZE) = result at hpage
    cases hpage with
    | dry hun =>
      obtain ⟨s', hs', hsame⟩ := unmapMapped_restores (i := 0) (n := i) hM hbase
        (by rw [Nat.zero_add]; omega) (fun j hj => hfree j (by omega)) (by simpa using h)
      rw [hun]
      simp only [hs']
      exact .restored hsame
    | short hun hsh =>
      rw [spend_short hun hnode hsh]
      exact .panics
    | @mapped f content s1 hfill htkn =>
      have hns : ∀ p ∈ regionPaths base n (i + 1), ∀ q, q <+: p →
          grown (hasNode s.ram T) (pathOf (base + i * PAGE_SIZE)) q = hasNode s1.ram T q := by
        intro p hp q hq
        obtain ⟨j, hj, rfl⟩ := List.mem_map.mp hp
        rw [List.mem_range'_1] at hj
        obtain ⟨-, huser', -⟩ := page_of_region hbase (show j < i + (n + 1) by omega) htop
        exact (htkn.nodes q (userPrefix_of_pathOf huser' hq)).symm
      rw [spend_step hnode htkn.units, spend_congr hns]
      have hrest := h.extend (Nat.le_add_right _ _) hal hnext hfill
      rw [← add_succ_mul_page] at hrest
      rw [show i + (n + 1) = i + 1 + n by omega] at htop hfree ⊢
      exact ih htop hfree hrest htkn.tidy

end Mapping

/-! ## The call -/

namespace Kernel

variable {k k1 : Kernel} {pid : Pid} {p : Process} {length start : Nat}

/-- The call does what it should: it fails and changes nothing, or it maps and records `length`
bytes. -/
def MmapHonours (M : Mapper) (k : Kernel) (pid : Pid) (p : Process) (length : Nat) : Prop :=
  (∃ e k', k.sysMmap M length = .ok (.error e, k') ∧ k'.current = some (pid, p) ∧
      ∀ a < USER_SPACE_END, SameAt p.pml4Phys k.machine k'.machine a) ∨
    ∃ base k' p' pages, k.sysMmap M length = .ok (.ok base, k') ∧ base % PAGE_SIZE = 0 ∧
      (∀ a, base ≤ a → a < base + length → (view k'.machine.ram p.pml4Phys a).isSome = true) ∧
      k'.current = some (pid, p') ∧ (base, pages) ∈ p'.mmapRegions ∧ length ≤ pages * PAGE_SIZE

/-- The length can be rounded up, the search stays in the user half, and frames do not run out in
the middle of a page. -/
structure Serviceable (M : Mapper) (k : Kernel) (p : Process) (length : Nat) : Prop where
  rounds : length + (PAGE_SIZE - 1) < 2 ^ 64
  ends : NoWrap (pagesFor length) k.randomizeMmapBase.1 p.mmapRegions ∨
    ∃ page, StopPage M k.machine p.pml4Phys (pagesFor length) page
  frames : ∀ b, IsLeast
    (fitting M k.machine p.pml4Phys (pagesFor length) p.mmapRegions k.randomizeMmapBase.1) b →
    (spend k.machine.pmm.framesLeft (hasNode k.machine.ram p.pml4Phys)
      (regionPaths b (pagesFor length) 0)).2 ≠ .short

lemma sysMmap_declines (hcur : k.current = some (pid, p))
    (h : length = 0 ∨ p.pml4Phys = 0 ∨ MAX_MMAP_REGIONS ≤ p.mmapRegions.length) :
    ∃ e, k.sysMmap M length = .ok (.error e, k) := by
  by_cases hpos : length = 0
  · exact ⟨.EINVAL, by rw [sysMmap, if_pos hpos]⟩
  by_cases hspace : p.pml4Phys = 0
  · exact ⟨.ESRCH, by simp only [sysMmap, if_neg hpos, hcur, if_pos hspace]⟩
  · have hfull := (h.resolve_left hpos).resolve_left hspace
    exact ⟨.ENOMEM, by simp only [sysMmap, if_neg hpos, hcur, if_neg hspace, if_pos hfull]⟩

def mmapResult (k : Kernel) (pid : Pid) (p : Process) (base numPages : Nat) (r : Bool × Machine) :
    SysResult × Kernel :=
  bif r.1 then
    (.ok base, { k with machine := r.2 }.setProc pid
      (some { p with mmapRegions := p.mmapRegions ++ [(base, numPages)] }))
  else (.error .ENOMEM, { k with machine := r.2 })

lemma sysMmap_eq (hcur : k.current = some (pid, p)) (hlen : length ≠ 0) (hspace : p.pml4Phys ≠ 0)
    (hroom : ¬ MAX_MMAP_REGIONS ≤ p.mmapRegions.length) : k.sysMmap M length =
    (findRegion M k.machine p.pml4Phys
      (pagesFor length) p.mmapRegions searchFuel k.randomizeMmapBase.1).bind
      fun found => found.elim (.ok (.error .ENOMEM, k.randomizeMmapBase.2)) fun base =>
        (mapRegion M p.pml4Phys base (pagesFor length) 0 k.machine).map
          (mmapResult k.randomizeMmapBase.2 pid p base (pagesFor length)) := by
  have hmac : k.randomizeMmapBase.2.machine = k.machine := rfl
  simp only [sysMmap, hcur, if_neg hlen, if_neg hspace, if_neg hroom, hmac]
  cases findRegion M k.machine p.pml4Phys
    (pagesFor length) p.mmapRegions searchFuel k.randomizeMmapBase.1 with
  | error e => rfl
  | ok found =>
    cases found with
    | none => rfl
    | some base =>
      simp only [Except.bind, elim_some]
      cases mapRegion M p.pml4Phys base (pagesFor length) 0 k.machine with
      | error e => rfl
      | ok r =>
        obtain ⟨b, s⟩ := r
        cases b <;> rfl

/-! ## Which lengths are honoured -/

lemma not_honours_of_error {e : Panic} (h : k.sysMmap M length = .error e) :
    ¬ MmapHonours M k pid p length := by
  rintro (⟨_, _, hok, -⟩ | ⟨_, _, _, _, hok, -⟩)
  · cases h.symm.trans hok
  · cases h.symm.trans hok

lemma honours_of_fail {e : Errno} {k' : Kernel} (h : k.sysMmap M length = .ok (.error e, k'))
    (hcur : k'.current = some (pid, p))
    (hsame : ∀ a < USER_SPACE_END, SameAt p.pml4Phys k.machine k'.machine a) :
    MmapHonours M k pid p length :=
  .inl ⟨e, k', h, hcur, hsame⟩

lemma start_le_limit (k : Kernel) : k.randomizeMmapBase.1 ≤ searchLimit ∧
    2 ^ 47 < k.randomizeMmapBase.1 + searchFuel := by
  obtain ⟨-, hlow, hhigh⟩ := randomizeMmapBase_start k
  have hlim : USER_MMAP_BASE + 32 * PAGE_SIZE ≤ searchLimit := by decide
  have hfuel : 2 ^ 47 < searchFuel := by decide
  omega

lemma current_mmapResult {numPages : Nat} {s : Machine} (hcur : k.current = some (pid, p)) :
    (mmapResult k.randomizeMmapBase.2 pid p base numPages (true, s)).2.current =
      some (pid, { p with mmapRegions := p.mmapRegions ++ [(base, numPages)] }) :=
  current_eq_some.mpr ⟨(current_eq_some.mp hcur).1, Function.update_self ..⟩

lemma pagesFor_bounds (hrds : length + (PAGE_SIZE - 1) < 2 ^ 64) :
    length ≤ pagesFor length * PAGE_SIZE ∧ pagesFor length * PAGE_SIZE < 2 ^ 64 := by
  rw [pagesFor_of_lt hrds]
  unfold PAGE_SIZE at *
  omega

lemma pagesFor_eq_zero (hlen : length < 2 ^ 64) (hrds : ¬ length + (PAGE_SIZE - 1) < 2 ^ 64) :
    pagesFor length = 0 := by
  rw [pagesFor, wadd]
  unfold PAGE_SIZE at *
  omega

lemma pagesFor_mul_lt (hlen : length < 2 ^ 64) : pagesFor length * PAGE_SIZE < 2 ^ 64 := by
  by_cases hrds : length + (PAGE_SIZE - 1) < 2 ^ 64
  · exact (pagesFor_bounds hrds).2
  · rw [pagesFor_eq_zero hlen hrds]
    decide

/-- **Regions stay below the stack** over every `sys_mmap`, whatever its length and result. -/
theorem sysMmap_belowStack {r : SysResult} {k' : Kernel} {p' : Process}
    (hcur : k.current = some (pid, p)) (hregions : ∀ r ∈ p.mmapRegions, BelowStack r)
    (hlen : length < 2 ^ 64) (hok : k.sysMmap M length = .ok (r, k'))
    (hcur' : k'.current = some (pid, p')) : ∀ r ∈ p'.mmapRegions, BelowStack r := by
  have hkeep : ∀ {e : Errno} {k2 : Kernel}, k.sysMmap M length = .ok (.error e, k2) →
      k2.current = some (pid, p) → ∀ r ∈ p'.mmapRegions, BelowStack r := by
    intro e k2 heq hk2
    rw [← (Prod.mk.inj (Except.ok.inj (hok.symm.trans heq))).2, hcur'] at hk2
    rwa [(Prod.mk.inj (some.inj hk2)).2]
  by_cases hdecline : length = 0 ∨ p.pml4Phys = 0 ∨ MAX_MMAP_REGIONS ≤ p.mmapRegions.length
  · obtain ⟨e, heq⟩ := @sysMmap_declines M k pid p length hcur hdecline
    exact hkeep heq hcur
  obtain ⟨hpos, hspace, hroom⟩ : length ≠ 0 ∧ p.pml4Phys ≠ 0 ∧
    ¬ MAX_MMAP_REGIONS ≤ p.mmapRegions.length := by
    simpa only [not_or] using hdecline
  have heq := @sysMmap_eq M k pid p length hcur hpos hspace hroom
  cases hfind : findRegion M k.machine p.pml4Phys (pagesFor length) p.mmapRegions searchFuel
      k.randomizeMmapBase.1 with
  | error e =>
    rw [hfind] at heq
    cases hok.symm.trans heq
  | ok found =>
    rw [hfind] at heq
    cases found with
    | none => exact hkeep heq hcur
    | some base =>
      dsimp only [Except.bind, elim_some] at heq
      cases hmap : mapRegion M p.pml4Phys base (pagesFor length) 0 k.machine with
      | error e =>
        rw [hmap] at heq
        cases hok.symm.trans heq
      | ok b =>
        obtain ⟨b, s⟩ := b
        rw [hmap] at heq
        cases b with
        | false => exact hkeep heq hcur
        | true =>
          obtain ⟨hlim, hfuel⟩ := start_le_limit k
          have hnew :=
            findRegion_belowStack hregions (pagesFor_mul_lt hlen) (randomizeMmapBase_start k).1 hlim
            hfuel hfind
          have hrec := @current_mmapResult base k pid p (pagesFor length) s hcur
          rw [← Except.ok.inj (hok.symm.trans heq), hcur', some.injEq, Prod.mk.injEq] at hrec
          rw [hrec.2]
          intro r hr
          rcases List.mem_append.mp hr with hold | hlast
          · exact hregions r hold
          · rwa [List.mem_singleton.mp hlast]

/-- The first region of a process, for one byte. -/
theorem sysMmap_belowStack_byte : ∃ r k p, loneProcess.sysMmap referenceMapper 1 = .ok (r, k) ∧
    k.current = some (initSlot, p) ∧ ∀ r ∈ p.mmapRegions, BelowStack r := by
  have hmap : meets (loneProcess.sysMmap referenceMapper 1)
      (fun x => x.2.current.any fun c => c.1 == initSlot) = true := by
    decide +kernel
  obtain ⟨⟨r, k⟩, hok, htest⟩ := exists_of_meets hmap
  obtain ⟨⟨pid, p⟩, hcur, hpid⟩ := (any_eq_true _ _).mp htest
  obtain rfl := beq_iff_eq.mp hpid
  exact ⟨r, k, p, hok, hcur, sysMmap_belowStack (p := loneUser) rfl
    (fun r hr => (nomatch hr)) (by decide) hok hcur⟩

section Call

variable (hcur : k.current = some (pid, p)) (hpos : length ≠ 0) (hspace : p.pml4Phys ≠ 0)
  (hroom : ¬ MAX_MMAP_REGIONS ≤ p.mmapRegions.length) (hregions : ∀ r ∈ p.mmapRegions, BelowStack r)

include hcur hpos hspace hroom hregions

lemma not_honours_of_wrap (hlen : length < 2 ^ 64) (hrds : ¬ length + (PAGE_SIZE - 1) < 2 ^ 64) :
    ¬ MmapHonours M k pid p length := by
  obtain ⟨hlim, hfuel⟩ := start_le_limit k
  have hlow : searchLimit < 2 ^ 47 := by decide
  have hpgs := pagesFor_eq_zero hlen hrds
  have hst : Candidate 0 k.randomizeMmapBase.1 :=
    ⟨(randomizeMmapBase_start k).1, by omega, by omega⟩
  obtain ⟨found, hfd, hlst⟩ := @findRegion_least M k.machine p.pml4Phys 0 p.mmapRegions _
    searchFuel (fun r hr => (hregions r hr).user)
    (fun r hr => by have hend := (hregions r hr).2; omega) hst hfuel
  have heq := sysMmap_eq (M := M) hcur hpos hspace hroom
  rw [hpgs, hfd] at heq
  cases found with
  | none =>
    -- the end of the area always fits
    have hemp := hlst.2 rfl
    have hmem :
        searchLimit ∈ fitting M k.machine p.pml4Phys 0 p.mmapRegions k.randomizeMmapBase.1 := by
      refine
        ⟨by decide, hlim, by omega, fun r hr hcsh => ?_, fun i hi => absurd hi (Nat.not_lt_zero i)⟩
      exact absurd (hregions r hr).2 (not_le.mpr hcsh.1)
    rw [hemp] at hmem
    exact hmem.elim
  | some base =>
    have hok : k.sysMmap M length =
      .ok (mmapResult k.randomizeMmapBase.2 pid p base 0 (true, k.machine)) := heq
    rintro (⟨e, k', hok', -⟩ | ⟨base', k', p', pages, hok', -, -, hcur', hmem, hle⟩)
    · cases hok.symm.trans hok'
    have hrec := @current_mmapResult base k pid p 0 k.machine hcur
    rw [Except.ok.inj (hok.symm.trans hok'), hcur', some.injEq, Prod.mk.injEq] at hrec
    rw [hrec.2, List.mem_append, List.mem_singleton] at hmem
    rcases hmem with hold | ⟨-, rfl⟩
    · have hend := (hregions _ hold).2
      rw [regionEnd] at hend
      unfold PAGE_SIZE at *
      omega
    · omega

lemma honours_iff_of_huge (hn : Huge (pagesFor length)) : MmapHonours M k pid p length ↔
    NoWrap (pagesFor length) k.randomizeMmapBase.1 p.mmapRegions ∨
      ∃ page, StopPage M k.machine p.pml4Phys (pagesFor length) page := by
  obtain ⟨hlim, hfuel⟩ := start_le_limit k
  have heq := sysMmap_eq (M := M) hcur hpos hspace hroom
  obtain ⟨hnone, hends⟩ | ⟨⟨e, herr⟩, hends⟩ := @findRegion_huge M k.machine p.pml4Phys _ _ _
    searchFuel hregions hn (randomizeMmapBase_start k).1 hlim hfuel
  · rw [hnone] at heq
    exact iff_of_true (honours_of_fail heq hcur fun _ _ => ⟨rfl, rfl⟩) hends
  · rw [herr] at heq
    exact iff_of_false (not_honours_of_error heq) hends

lemma honours_iff_of_small {K : Nat → Prop} {exact : Prop} {R : Multiset Nat} {Z : Claims Nat}
    (hM : M.Exact) (hfam : Family K exact k.machine (p.pml4Phys ::ₘ R) Z)
    (htidy : TidyTables k.machine.ram 3 p.pml4Phys) (hrds : length + (PAGE_SIZE - 1) < 2 ^ 64)
    (hwrap : NoWrap (pagesFor length) k.randomizeMmapBase.1 p.mmapRegions) :
    MmapHonours M k pid p length ↔
    ∀ b, IsLeast
      (fitting M k.machine p.pml4Phys (pagesFor length) p.mmapRegions k.randomizeMmapBase.1) b →
      (spend k.machine.pmm.framesLeft (hasNode k.machine.ram p.pml4Phys)
        (regionPaths b (pagesFor length) 0)).2 ≠
        .short := by
  obtain ⟨hlim, hfuel⟩ := start_le_limit k
  have hlow : searchLimit < 2 ^ 47 := by decide
  have heq := sysMmap_eq (M := M) hcur hpos hspace hroom
  obtain ⟨found, hfd, hlst⟩ := @findRegion_least M k.machine p.pml4Phys _ p.mmapRegions _
    searchFuel (fun r hr => (hregions r hr).user) hwrap.2
    ⟨(randomizeMmapBase_start k).1, by omega, hwrap.1⟩ hfuel
  rw [hfd] at heq
  cases found with
  | none =>
    refine iff_of_true (honours_of_fail heq hcur fun _ _ => ⟨rfl, rfl⟩) fun b hb => ?_
    have hmem := hb.1
    rw [hlst.2 rfl] at hmem
    exact hmem.elim
  | some base =>
    have hbase := hlst.1 base rfl
    obtain ⟨hal, -, htop, -, hfree⟩ := hbase.1
    have huser : searchLimit < USER_SPACE_END := by decide
    have hemp : ∀ j < 0 + pagesFor length,
        pteAt k.machine.ram 3 p.pml4Phys (pathOf (base + j * PAGE_SIZE)) = none := by
      intro j hj
      rw [Nat.zero_add] at hj
      obtain ⟨-, hj', -⟩ := page_of_region hal hj (le_trans htop huser.le)
      have hunmapped := hfree j hj
      rwa [isMapped, translateAddr, hM.translatePage hj', isSome_map, isSome_eq_false_iff,
        isNone_iff_eq_none] at hunmapped
    have hends :=
      mapRegion_ends (i := 0) (n := pagesFor length) hM hal (by rw [Nat.zero_add]; omega)
      hemp (.empty hfam) htidy
    rw [Nat.zero_add] at hends
    -- the search found the least place, so the condition is about that one
    have hiff : (∀ b, IsLeast (fitting M k.machine p.pml4Phys (pagesFor length) p.mmapRegions
          k.randomizeMmapBase.1) b →
          (spend k.machine.pmm.framesLeft (hasNode k.machine.ram p.pml4Phys)
            (regionPaths b (pagesFor length) 0)).2 ≠ .short) ↔
        (spend k.machine.pmm.framesLeft (hasNode k.machine.ram p.pml4Phys)
          (regionPaths base (pagesFor length) 0)).2 ≠ .short :=
      ⟨fun h => h base hbase, fun h b hb => by rwa [hb.unique hbase]⟩
    rw [hiff]
    dsimp only [Except.bind, elim_some] at heq
    generalize (spend k.machine.pmm.framesLeft (hasNode k.machine.ram p.pml4Phys)
      (regionPaths base (pagesFor length) 0)).2 = e at hends
    generalize mapRegion M p.pml4Phys base (pagesFor length) 0 k.machine = r at hends heq
    cases hends with
    | @mapped s' hmap =>
      obtain ⟨hle, -⟩ := pagesFor_bounds hrds
      refine iff_of_true (.inr ⟨base, _, _, pagesFor length, heq, hal, fun a hlo hhi => ?_,
        current_mmapResult hcur, by simp, hle⟩) (by simp)
      obtain ⟨e, he, -⟩ := hmap.inside a hlo (by omega)
      have hview : (view s'.ram p.pml4Phys a).isSome = true := by
        rw [view, he, map_some, isSome_some]
      exact hview
    | restored hsame => exact iff_of_true (honours_of_fail heq hcur hsame) (by simp)
    | panics => exact iff_of_false (not_honours_of_error heq) (not_not.mpr rfl)

end Call

/-- **Which calls are honoured.**  For every 64-bit length the call fails and changes nothing or
maps and records it, exactly if it has nothing to do or can be served. -/
theorem sysMmap_honours_iff {K : Nat → Prop} {exact : Prop} {R : Multiset Nat} {Z : Claims Nat}
    (hM : M.Exact) (hcur : k.current = some (pid, p))
    (hfam : p.pml4Phys ≠ 0 → Family K exact k.machine (p.pml4Phys ::ₘ R) Z)
    (htidy : p.pml4Phys ≠ 0 → TidyTables k.machine.ram 3 p.pml4Phys)
    (hregions : ∀ r ∈ p.mmapRegions, BelowStack r) (hlength : length < 2 ^ 64) :
    MmapHonours M k pid p length ↔
      length = 0 ∨ p.pml4Phys = 0 ∨ MAX_MMAP_REGIONS ≤ p.mmapRegions.length ∨
        Serviceable M k p length := by
  by_cases hdecline : length = 0 ∨ p.pml4Phys = 0 ∨ MAX_MMAP_REGIONS ≤ p.mmapRegions.length
  · obtain ⟨e, hfail⟩ := @sysMmap_declines M k pid p length hcur hdecline
    refine iff_of_true (honours_of_fail hfail hcur fun _ _ => ⟨rfl, rfl⟩) ?_
    rcases hdecline with h | h | h
    · exact .inl h
    · exact .inr (.inl h)
    · exact .inr (.inr (.inl h))
  obtain ⟨hpos, hspace, hroom⟩ : length ≠ 0 ∧ p.pml4Phys ≠ 0 ∧
    ¬ MAX_MMAP_REGIONS ≤ p.mmapRegions.length := by
    simpa only [not_or] using hdecline
  rw [or_iff_right hpos, or_iff_right hspace, or_iff_right hroom]
  by_cases hrds : length + (PAGE_SIZE - 1) < 2 ^ 64
  · obtain ⟨-, hsm⟩ := pagesFor_bounds hrds
    by_cases hbig : 2 ^ 63 ≤ pagesFor length * PAGE_SIZE
    · rw [honours_iff_of_huge hcur hpos hspace hroom hregions ⟨hbig, hsm⟩]
      refine ⟨fun hends => ⟨hrds, hends, fun b hb => ?_⟩, fun h => h.ends⟩
      -- nothing of this size fits
      have htop := hb.1.2.2.1
      have hlow : searchLimit < 2 ^ 47 := by decide
      omega
    have hwrap : NoWrap (pagesFor length) k.randomizeMmapBase.1 p.mmapRegions := by
      have hlow : searchLimit < 2 ^ 47 := by decide
      have hst := (start_le_limit k).1
      refine ⟨by omega, fun r hr => ?_⟩
      have hend := (hregions r hr).2
      omega
    rw [honours_iff_of_small hcur hpos hspace hroom hregions hM (hfam hspace)
      (htidy hspace) hrds hwrap]
    exact ⟨fun hframes => ⟨hrds, .inl hwrap, hframes⟩, fun h => h.frames⟩
  · exact iff_of_false (not_honours_of_wrap hcur hpos hspace hroom hregions hlength hrds)
      fun h => hrds h.rounds

lemma loneProcess_tidy :
    TidyTables loneProcess.machine.ram 3 loneUser.pml4Phys :=
  FreshPml4.tidy (by unfold FreshPml4; decide +kernel)

/-- One byte. -/
theorem sysMmap_honours_iff_byte : MmapHonours referenceMapper loneProcess initSlot
    loneUser 1 := by
  refine (sysMmap_honours_iff referenceMapper_exact rfl (fun _ => firstSpace_family)
    (fun _ => loneProcess_tidy)
    (fun r hr => (nomatch hr)) (by decide)).mpr
    (.inr (.inr (.inr ⟨by decide, .inl ?_, fun b hb => ?_⟩)))
  · exact ⟨by decide +kernel, fun r hr => (nomatch hr)⟩
  have hst : IsLeast (fitting referenceMapper loneProcess.machine firstSpace.1 (pagesFor 1) []
      loneProcess.randomizeMmapBase.1) loneProcess.randomizeMmapBase.1 := by
    refine
      ⟨⟨by decide +kernel, le_refl _, by decide +kernel, fun r hr => (nomatch hr), fun i hi => ?_⟩,
      fun c hc => hc.2.1⟩
    obtain rfl : i = 0 := Nat.lt_one_iff.mp hi
    decide +kernel
  rw [hb.unique hst]
  decide +kernel

/-- The last 64-bit length, in a kernel with one process: success, and nothing is mapped. -/
theorem sysMmap_maps_nothing : ¬ MmapHonours referenceMapper loneProcess initSlot
    loneUser (2 ^ 64 - 1) :=
  not_honours_of_wrap rfl (by decide) (by decide +kernel) (by decide)
    (fun r hr => (nomatch hr)) (by decide)
    (by decide)

end Kernel

end Indominus.Sys
