import Indominus.Memory.ExactRounds
import Indominus.Memory.LoadPlan

/-! # The pages that the loader fills -/

namespace Indominus.Memory

open Lib Lib.Radix Lib.Budget List

variable {K : Nat → Prop} {exact : Prop} {R : Multiset Nat} {Z : Claims Nat}

variable {M : Mapper} {s s' : Machine} {T : Nat}

variable {data : List Byte} {r : PageRound} {rs : List PageRound}

/-! ## Fills -/

structure Fill extends PageRound where
  frame : Nat
  deriving DecidableEq

namespace Fill

/-- `dest`: the first address that is written. -/
def dest (f : Fill) : Nat := f.frame * PAGE_SIZE + f.ph.pageOffset f.page

def bytes (f : Fill) (data : List Byte) : List Byte := f.ph.pageBytes data f.page

def Within (f : Fill) (data : List Byte) : Prop :=
  ∀ j < (f.bytes data).length, (f.dest + j) / PAGE_SIZE = f.frame

end Fill

/-- The fills of a walk through the pages: a round that fails has written nothing. -/
def fills (M : Mapper) (data : List Byte) (pml4 : Nat) : List PageRound → Machine → List Fill
  | [], _ => []
  | r :: rs, s =>
    match s.allocateFrame, loadPage M data pml4 r.ph r.idx s with
    | some (frame, _), .ok s' => { r with frame := frame } :: fills M data pml4 rs s'
    | _, _ => []

/-- The pages that `load_elf` has mapped and written when it returns. -/
def loadFills (M : Mapper) (data : List Byte) (pml4 : Nat) (s : Machine) : List Fill :=
  fills M data pml4 (plan data).1 s

def Fill.write (f : Fill) (data : List Byte) (s : Machine) : Machine :=
  { s with ram := s.ram.writeBytes f.dest (f.bytes data) }

section Rounds

variable {s1 s2 : Machine} {f : Nat}

lemma loadPage_of_none (hall : s.allocateFrame = none) :
    loadPage M data T r.ph r.idx s = .error (.fail .mapFailed s) := by
  simp only [loadPage, hall]

lemma loadPage_of_error {p : Panic} (hall : s.allocateFrame = some (f, s1))
    (hmap : mapPage M s1 T r.page f r.ph.pageFlags = .error p) :
    loadPage M data T r.ph r.idx s = .error (.panic p) := by
  rw [PageRound.page] at hmap
  simp only [loadPage, hall, hmap]

lemma loadPage_of_ok (hall : s.allocateFrame = some (f, s1))
    (hmap : mapPage M s1 T r.page f r.ph.pageFlags = .ok s2) :
    loadPage M data T r.ph r.idx s = .ok ((Fill.mk r f).write data s2) := by
  rw [PageRound.page] at hmap
  simp only [loadPage, hall, hmap]
  rfl

lemma loadPage_eq_ok (hok : loadPage M data T r.ph r.idx s = .ok s') :
    ∃ f s1 s2, s.allocateFrame = some (f, s1) ∧ mapPage M s1 T r.page f r.ph.pageFlags = .ok s2 ∧
      s' = (Fill.mk r f).write data s2 := by
  cases hall : s.allocateFrame with
  | none =>
    rw [loadPage_of_none hall] at hok
    cases hok
  | some a =>
    obtain ⟨f, s1⟩ := a
    cases hmap : mapPage M s1 T r.page f r.ph.pageFlags with
    | error p =>
      rw [loadPage_of_error hall hmap] at hok
      cases hok
    | ok s2 =>
      rw [loadPage_of_ok hall hmap] at hok
      exact ⟨f, s1, s2, rfl, hmap, (Except.ok.inj hok).symm⟩

lemma fills_of_error {e : LoadStop} (herr : loadPage M data T r.ph r.idx s = .error e) :
    fills M data T (r :: rs) s = [] := by
  rw [fills]
  cases s.allocateFrame <;> simp only [herr]

lemma fills_of_ok (hall : s.allocateFrame = some (f, s1))
    (hok : loadPage M data T r.ph r.idx s = .ok s') :
    fills M data T (r :: rs) s = Fill.mk r f :: fills M data T rs s' := by
  simp only [fills, hall, hok]

lemma fills_of_fillPages (hok : fillPages M data T rs s = .ok s') :
    (fills M data T rs s).map Fill.toPageRound = rs := by
  induction rs generalizing s with
  | nil => rfl
  | cons r rs ih =>
    obtain ⟨s1, hrd, hrest⟩ := bind_eq_ok.mp hok
    obtain ⟨f, s2, -, hall, -⟩ := loadPage_eq_ok hrd
    rw [fills_of_ok hall hrd, map_cons, ih hrest]

end Rounds

/-! ## The rounds -/

/-- The bytes of the page stay inside its frame: only the first page of a segment is in danger. -/
def PageRound.Within (r : PageRound) : Prop := r.idx = 0 → r.ph.Contained

instance (r : PageRound) : Decidable r.Within := inferInstanceAs (Decidable (_ → _))

/-- Every page that `load_elf` gets to stays inside its frame. -/
def LoadContained (M : Mapper) (data : List Byte) (pml4 : Nat) (s : Machine) : Prop :=
  ∀ f ∈ loadFills M data pml4 s, f.toPageRound.Within

lemma loadPage_maps (hend : r.ph.virtEnd < USER_SPACE_END) (hidx : r.idx < r.ph.numPages)
    (hwi : r.Within) (hok : loadPage M data T r.ph r.idx s = .ok s') : MapsPage M T s s' := by
  obtain ⟨f, s1, s2, hall, hmap, rfl⟩ := loadPage_eq_ok hok
  exact .of_allocateFrame hall hmap (Phdr.page_lt hend hidx) r.ph.isFlags_pageFlags
    r.ph.isPresent_pageFlags fun g hg =>
      PhysMem.page_writeBytes_within (Phdr.fits_of_contained hwi data) hg

/-- A round that fails without a panic has changed nothing. -/
lemma loadPage_fails {e : ElfError} (h : loadPage M data T r.ph r.idx s = .error (.fail e s')) :
    s' = s := by
  cases hall : s.allocateFrame with
  | none =>
    rw [loadPage_of_none hall] at h
    cases h
    rfl
  | some a =>
    cases hmap : mapPage M a.2 T r.page a.1 r.ph.pageFlags with
    | error p =>
      rw [loadPage_of_error hall hmap] at h
      cases h
    | ok s2 =>
      rw [loadPage_of_ok hall hmap] at h
      cases h

lemma fillPages_cases (hrs : ∀ r ∈ rs, r.ph.virtEnd < USER_SPACE_END ∧ r.idx < r.ph.numPages)
    (hin : ∀ f ∈ fills M data T rs s, f.toPageRound.Within) :
    Loads M T s id (fillPages M data T rs s) := by
  induction rs generalizing s with
  | nil => exact .of_ok rfl .refl
  | cons r rs ih =>
    rw [fillPages]
    cases hload : loadPage M data T r.ph r.idx s with
    | error stop =>
      refine .of_error rfl ?_
      rintro e s' rfl
      rw [loadPage_fails hload]
    | ok s1 =>
      obtain ⟨f, s2, -, hall, -⟩ := loadPage_eq_ok hload
      rw [fills_of_ok hall hload] at hin
      obtain ⟨hend, hidx⟩ := hrs r mem_cons_self
      have hhead := loadPage_maps hend hidx (hin _ mem_cons_self) hload
      refine (ih (fun r hr => hrs r (mem_cons_of_mem _ hr))
        fun f hf => hin f (mem_cons_of_mem _ hf)).mono (fun s' hs' => .head hhead hs') ?_
      exact fun stop hstop e s' heq => .head hhead (hstop e s' heq)

/-- What a load leaves behind, done or failed, is a sequence of newly mapped pages. -/
lemma loadElf_cases (hin : LoadContained M data T s) :
    Loads M T s Prod.snd (loadElf M data T s) := by
  have hwalk :=
    fillPages_cases (fun r hr => ⟨(mem_plan hr).1.accepted.virtEnd, (mem_plan hr).2⟩) hin
  rw [loadElf_eq]
  cases hfill : fillPages M data T (plan data).1 s with
  | error stop => exact .of_error rfl (hwalk.error _ hfill)
  | ok s1 =>
    have hpages := hwalk.ok _ hfill
    cases (plan data).2 with
    | error e =>
      refine .of_error rfl ?_
      rintro e s' ⟨⟩
      exact hpages
    | ok entry => exact .of_ok rfl hpages

/-! ## One page -/

/-- The byte that the loader means to put at an address of the segment. -/
def Phdr.loadedByte (ph : Phdr) (data : List Byte) (a : Nat) : Byte :=
  if ph.vaddr ≤ a ∧ a < ph.vaddr + min ph.memsz ph.filesz
    then data.getD (ph.offset + (a - ph.vaddr)) 0 else 0

namespace Phdr

variable {ph : Phdr} {page : Nat}

lemma length_pageBytes (h : ph.PageArithmetic data.length page) :
    (ph.pageBytes data page).length = ph.segDataEnd page - ph.segDataStart page := by
  have hsource := h.source
  rw [pageBytes, length_append, length_replicate, length_take, length_drop]
  unfold bssInPage Phdr.dataInPage at *
  split_ifs at * <;> omega

lemma getD_pageBytes (h : ph.PageArithmetic data.length page) (k : Nat) :
    (ph.pageBytes data page).getD k 0 =
    if k < ph.dataInPage page then data.getD (ph.offset + ph.segDataStart page + k) 0 else 0 := by
  have hsource := h.source
  have htake : ((data.drop (ph.offset + ph.segDataStart page)).take (ph.dataInPage page)).length =
      ph.dataInPage page := by
    rw [length_take, length_drop]
    omega
  rw [pageBytes]
  by_cases hk : k < ph.dataInPage page
  · rw [getD_append _ _ _ _ (by rw [htake]; exact hk)]
    simp only [getD_eq_getElem?_getD, getElem?_take, if_pos hk, getElem?_drop]
  rw [getD_append_right _ _ _ _ (by rw [htake]; omega), getD_eq_getElem?_getD,
    getElem?_replicate]
  split_ifs <;> rfl

end Phdr

namespace Fill

variable {f : Fill}

lemma within_iff_le :
    f.Within data ↔ f.ph.pageOffset f.page + (f.bytes data).length ≤ PAGE_SIZE := by
  have hoff : f.ph.pageOffset f.page ≤ PAGE_SIZE := by
    unfold Phdr.pageOffset PageRound.page Phdr.virtStart PAGE_SIZE
    split_ifs <;> omega
  unfold Within dest PAGE_SIZE at *
  constructor
  · intro h
    by_contra hover
    have hlast := h ((f.bytes data).length - 1) (by omega)
    omega
  · intro h j hj
    omega

lemma within_iff (h : f.ph.PageArithmetic data.length f.page) :
    f.Within data ↔ f.toPageRound.Within := by
  have hlen : (f.bytes data).length = _ := Phdr.length_pageBytes h
  rw [within_iff_le, hlen]
  unfold PageRound.Within Phdr.Contained Phdr.segDataEnd Phdr.segDataStart Phdr.pageOffset
    PageRound.page
    Phdr.virtStart PAGE_SIZE
  -- past the first page nothing is left of the offset
  rcases Nat.eq_zero_or_pos f.idx with hidx | hidx
  · split_ifs <;> omega
  · split_ifs <;> omega

lemma loadedByte_eq (h : f.ph.PageArithmetic data.length f.page)
    (hwi : f.toPageRound.Within) {j : Nat} (hj : j < PAGE_SIZE) :
    f.ph.loadedByte data (f.page + j) =
      if f.ph.pageOffset f.page ≤ j ∧ j < f.ph.pageOffset f.page + (f.bytes data).length then
        (f.bytes data).getD (j - f.ph.pageOffset f.page) 0 else 0 := by
  have hlen : (f.bytes data).length = _ := Phdr.length_pageBytes h
  have hle := within_iff_le.mp ((within_iff h).mpr hwi)
  rw [hlen] at hle ⊢
  rw [bytes, Phdr.getD_pageBytes h, Phdr.loadedByte]
  unfold Phdr.dataInPage Phdr.segDataEnd Phdr.segDataStart Phdr.pageOffset at *
  split_ifs <;> first | rfl | omega | (congr 1; omega)

end Fill

/-- What the checks of `load_elf` guarantee for a page. -/
structure PageRound.Checked (r : PageRound) (data : List Byte) : Prop where
  user : r.page < USER_SPACE_END
  aligned : r.page % PAGE_SIZE = 0
  arithmetic : r.ph.PageArithmetic data.length r.page

lemma checked_of_mem_plan (hlen : data.length < 2 ^ 63) (hr : r ∈ (plan data).1) :
    r.Checked data := by
  obtain ⟨hplanned, hidx⟩ := mem_plan hr
  refine ⟨Phdr.page_lt hplanned.accepted.virtEnd hidx, ?_,
    hplanned.accepted.pageArithmetic hlen hidx⟩
  unfold PageRound.page Phdr.virtStart PAGE_SIZE
  omega

lemma PageRound.Checked.address (hr : r.Checked data) {j : Nat} (hj : j < PAGE_SIZE) :
    r.page + j < USER_SPACE_END ∧ pathOf (r.page + j) = pathOf r.page ∧
      (r.page + j) % PAGE_SIZE = j := by
  obtain ⟨huser, hal, -⟩ := hr
  have hlt : r.page + j < USER_SPACE_END := by
    unfold USER_SPACE_END PAGE_SIZE at *
    omega
  refine ⟨hlt, (pathOf_eq_iff_page huser hlt hal).mpr ⟨by omega, by omega⟩, ?_⟩
  unfold PAGE_SIZE at *
  omega

lemma loadPage_filled (hfam : Family K exact s (T ::ₘ R) Z) (hM : M.Documented)
    (hr : r.Checked data) (hwi : r.Within) (hok : loadPage M data T r.ph r.idx s = .ok s') :
    ∃ f s1, s.allocateFrame = some (f, s1) ∧ PageFilled K exact T R Z r.page f r.ph.pageFlags
      (fun j => r.ph.loadedByte data (r.page + j)) s s' := by
  obtain ⟨f, s1, s2, hall, hmap, rfl⟩ := loadPage_eq_ok hok
  obtain ⟨s0, hs0, rfl⟩ := Machine.allocateFrame_eq_some hall
  have hle := Fill.within_iff_le.mp ((Fill.within_iff (f := ⟨r, f⟩) hr.arithmetic).mpr hwi)
  obtain ⟨hfill, hzero⟩ :=
    PageFilled.of_map hfam hM hs0 (fun g hg => PhysMem.page_zeroPage_of_ne hg) hr.user
    r.ph.isFlags_pageFlags r.ph.isPresent_pageFlags (mapPage_eq_ok.mp hmap)
    (fun g hg => PhysMem.page_writeBytes_within hle hg)
  refine ⟨f, _, hall, hfill.with_content fun j hj => ?_⟩
  -- the frame was cleared before it was mapped
  have hclrd : s2.ram.byte (f * PAGE_SIZE + j) = 0 := PhysMem.byte_of_cleared hzero hj
  rw [Fill.loadedByte_eq (f := ⟨r, f⟩) hr.arithmetic hwi hj, PhysMem.byte_writeBytes, hclrd]
  have hsub : f * PAGE_SIZE + j - (f * PAGE_SIZE + r.ph.pageOffset r.page) =
    j - r.ph.pageOffset r.page := by omega
  rw [hsub]
  exact if_congr (by omega) rfl rfl

/-! ## The whole walk -/

structure Filled (K : Nat → Prop) (exact : Prop) (T : Nat) (R : Multiset Nat) (Z : Claims Nat)
    (data : List Byte) (fs : List Fill) (s s' : Machine) : Prop where
  family : Family K exact s' (T ::ₘ R) Z
  unmapped : ∀ f ∈ fs, pteAt s.ram 3 T (pathOf f.page) = none
  once : fs.Pairwise fun f g => pathOf g.page ≠ pathOf f.page
  leaf : ∀ f ∈ fs, pteAt s'.ram 3 T (pathOf f.page) = some (Pte.setAddr f.frame f.ph.pageFlags)
  contents : ∀ f ∈ fs, ∀ j < PAGE_SIZE, view s'.ram T (f.page + j) =
    some (f.ph.loadedByte data (f.page + j))
  kept : ∀ q, InUser 3 q → (∀ f ∈ fs, pathOf f.page ≠ q) → pteAt s'.ram 3 T q = pteAt s.ram 3 T q
  keptView : ∀ va < USER_SPACE_END, (∀ f ∈ fs, pathOf f.page ≠ pathOf va) →
    view s'.ram T va = view s.ram T va

namespace Filled

variable {s1 : Machine} {fs : List Fill} {f : Nat}

lemma nil (hfam : Family K exact s (T ::ₘ R) Z) : Filled K exact T R Z data [] s s := by
  refine ⟨hfam, ?_, .nil, ?_, ?_, fun _ _ _ => rfl, fun _ _ _ => rfl⟩
  all_goals
    intro f hf
    cases hf

lemma cons (hfam : Family K exact s (T ::ₘ R) Z) (hr : r.Checked data)
    (hpage : PageFilled K exact T R Z r.page f r.ph.pageFlags
      (fun j => r.ph.loadedByte data (r.page + j)) s s1)
    (hfs : ∀ g ∈ fs, g.Checked data) (hrest : Filled K exact T R Z data fs s1 s') :
    Filled K exact T R Z data (⟨r, f⟩ :: fs) s s' := by
  have hleaf := hpage.leaf
  have hpath := inUser_pathOf hr.user
  have hmap : pteAt s1.ram 3 T (pathOf r.page) = some (Pte.setAddr f r.ph.pageFlags) := by
    rw [hleaf _ hpath, if_pos rfl]
  -- the page is mapped now, so no later round can map it again
  have hlat : ∀ g ∈ fs, pathOf g.page ≠ pathOf r.page := by
    intro g hg heq
    have hnone := hrest.unmapped g hg
    rw [heq, hmap] at hnone
    cases hnone
  constructor
  case family => exact hrest.family
  case unmapped =>
    intro g hg
    rcases mem_cons.mp hg with rfl | hg
    · exact hpage.empty
    · have hnone := hrest.unmapped g hg
      rwa [hleaf _ (inUser_pathOf (hfs g hg).user), if_neg (hlat g hg)] at hnone
  case once => exact pairwise_cons.mpr ⟨hlat, hrest.once⟩
  case leaf =>
    intro g hg
    rcases mem_cons.mp hg with rfl | hg
    · exact (hrest.kept _ hpath hlat).trans hmap
    · exact hrest.leaf g hg
  case contents =>
    intro g hg j hj
    rcases mem_cons.mp hg with rfl | hg
    · obtain ⟨hlt, heq, hmod⟩ := hr.address hj
      rw [hrest.keptView _ hlt (fun g hg => by rw [heq]; exact hlat g hg), hpage.view hfam hlt,
        if_pos heq, hmod]
    · exact hrest.contents g hg j hj
  case kept =>
    intro q hq hne
    rw [hrest.kept q hq fun g hg => hne g (mem_cons_of_mem _ hg), hleaf q hq,
      if_neg (hne ⟨r, f⟩ mem_cons_self).symm]
  case keptView =>
    intro va hva hne
    rw [hrest.keptView va hva fun g hg => hne g (mem_cons_of_mem _ hg), hpage.view hfam hva,
      if_neg (hne ⟨r, f⟩ mem_cons_self).symm]

end Filled

lemma toPageRound_mem {f : Fill} (hf : f ∈ fills M data T rs s) : f.toPageRound ∈ rs := by
  induction rs generalizing s with
  | nil => cases hf
  | cons r rs ih =>
    cases hload : loadPage M data T r.ph r.idx s with
    | error e =>
      rw [fills_of_error hload] at hf
      cases hf
    | ok s' =>
      obtain ⟨g, s1, -, hall, -⟩ := loadPage_eq_ok hload
      rw [fills_of_ok hall hload] at hf
      rcases mem_cons.mp hf with rfl | hf
      · exact mem_cons_self
      · exact mem_cons_of_mem _ (ih hf)

lemma fills_filled (hM : M.Documented) (hfam : Family K exact s (T ::ₘ R) Z)
    (hrs : ∀ r ∈ rs, r.Checked data) (hwi : ∀ f ∈ fills M data T rs s, f.toPageRound.Within) :
    ∃ s', Filled K exact T R Z data (fills M data T rs s) s s' ∧
      ∀ s'', fillPages M data T rs s = .ok s'' → s'' = s' := by
  induction rs generalizing s with
  | nil => exact ⟨s, .nil hfam, fun s'' hok => (Except.ok.inj hok).symm⟩
  | cons r rs ih =>
    rw [fillPages]
    cases hload : loadPage M data T r.ph r.idx s with
    | error e =>
      rw [fills_of_error hload]
      exact ⟨s, .nil hfam, fun s'' hok => by cases hok⟩
    | ok s1 =>
      obtain ⟨f, s0, -, hall, -⟩ := loadPage_eq_ok hload
      rw [fills_of_ok hall hload] at hwi ⊢
      have hr := hrs r mem_cons_self
      obtain ⟨f', s0', hall', hpage⟩ := loadPage_filled hfam hM hr (hwi _ mem_cons_self) hload
      obtain ⟨rfl, rfl⟩ : f = f' ∧ s0 = s0' := by simpa using hall.symm.trans hall'
      have hrest : ∀ r ∈ rs, r.Checked data := fun r hr => hrs r (mem_cons_of_mem _ hr)
      obtain ⟨s', hfill, hend⟩ := ih hpage.family hrest fun f hf => hwi f (mem_cons_of_mem _ hf)
      exact ⟨s', .cons hfam hr hpage (fun g hg => hrest _ (toPageRound_mem hg)) hfill, hend⟩

/-! ## How far the walk gets -/

def paths (rs : List PageRound) : List (List Nat) := rs.map fun r => pathOf r.page

/-- How many pages the frames suffice for, and how the walk ends. -/
def reach (T : Nat) (rs : List PageRound) (s : Machine) : Nat × Ending :=
  spend s.pmm.framesLeft (hasNode s.ram T) (paths rs)

lemma allocateFrame_eq_none_iff : s.allocateFrame = none ↔ s.pmm.framesLeft = 0 := by
  rw [Machine.allocateFrame, Option.map_eq_none_iff, Machine.allocFrame, Option.map_eq_none_iff,
    Pmm.allocFrame_eq_none_iff]

/-- What one round does, next to what was foreseen. -/
inductive Foreseen (K : Nat → Prop) (exact : Prop) (M : Mapper) (T : Nat) (R : Multiset Nat)
    (Z : Claims Nat) (data : List Byte) (r : PageRound) (rs : List PageRound) (s : Machine) : Prop
  | dry (hload : loadPage M data T r.ph r.idx s = .error (.fail .mapFailed s))
      (hreach : reach T (r :: rs) s = (0, .dry))
  | panic {p : Panic} {e : Ending} (hload : loadPage M data T r.ph r.idx s = .error (.panic p))
      (he : e = .short ∨ e = .twice) (hreach : reach T (r :: rs) s = (0, e))
  | filled {s' : Machine} (hload : loadPage M data T r.ph r.idx s = .ok s')
      (hreach : 0 < (reach T (r :: rs) s).1)
      (hnext : r.Within → Family K exact s' (T ::ₘ R) Z ∧ TidyTables s'.ram 3 T ∧
        reach T (r :: rs) s = ((reach T rs s').1 + 1, (reach T rs s').2))

/-- Whether a round succeeds is known from the tables and the number of free frames. -/
lemma foreseen (hM : M.Exact) (hfam : Family K exact s (T ::ₘ R) Z) (htidy : TidyTables s.ram 3 T)
    (hr : r.Checked data) (hrs : ∀ r ∈ rs, r.Checked data) :
    Foreseen K exact M T R Z data r rs s := by
  have hpaths : paths (r :: rs) = pathOf r.page :: paths rs := rfl
  cases hall : s.allocateFrame with
  | none =>
    refine .dry (loadPage_of_none hall) ?_
    rw [reach, allocateFrame_eq_none_iff.mp hall, hpaths, spend_dry]
  | some a =>
    obtain ⟨f, s1⟩ := a
    have hun : s.pmm.framesLeft ≠ 0 := by
      rw [Ne, ← allocateFrame_eq_none_iff, hall]
      exact nofun
    obtain ⟨s0, hs0, rfl⟩ := Machine.allocateFrame_eq_some hall
    have hfill : ∀ g, g ≠ f → (s0.ram.zeroPage f).page g = s0.ram.page g :=
      fun g hg => PhysMem.page_zeroPage_of_ne hg
    have hmaps :=
      (ReadyToMap.of_alloc hfam hs0 hfill).maps_iff hM htidy hr.user r.ph.isFlags_pageFlags
      r.ph.isPresent_pageFlags
    cases hmap : mapPage M { s0 with ram := s0.ram.zeroPage f } T r.page f r.ph.pageFlags with
    | error p =>
      -- the mapper refuses an occupied page, or for want of frames
      have hfails : ¬ (hasNode s.ram T (pathOf r.page) = false ∧
          missing (hasNode s.ram T) (pathOf r.page) < s.pmm.framesLeft) := by
        rw [← hmaps]
        rintro ⟨s2, hs2⟩
        rw [mapPage_eq_ok.mpr hs2] at hmap
        cases hmap
      cases hnode : hasNode s.ram T (pathOf r.page) with
      | true => exact .panic (loadPage_of_error hall hmap) (.inr rfl) (spend_twice hun hnode)
      | false =>
        have hle : s.pmm.framesLeft ≤ missing (hasNode s.ram T) (pathOf r.page) :=
          Nat.le_of_not_lt fun hlt => hfails ⟨hnode, hlt⟩
        exact .panic (loadPage_of_error hall hmap) (.inl rfl) (spend_short hun hnode hle)
    | ok s2 =>
      have hmto := mapPage_eq_ok.mp hmap
      obtain ⟨hnode, hlt⟩ := hmaps.mp ⟨s2, hmto⟩
      refine .filled (loadPage_of_ok hall hmap) ?_ fun hwi => ?_
      · rw [reach, hpaths, spend_step hnode (Nat.sub_add_cancel (Nat.succ_le_of_lt hlt))]
        exact Nat.succ_pos _
      have hload : loadPage M data T r.ph r.idx s = _ := loadPage_of_ok hall hmap
      obtain ⟨_, _, _, hpage⟩ := loadPage_filled hfam hM.toDocumented hr hwi hload
      have hle := Fill.within_iff_le.mp ((Fill.within_iff (f := ⟨r, f⟩) hr.arithmetic).mpr hwi)
      have htkn := PageTaken.of_map hfam hM htidy hs0 hfill hr.user r.ph.isFlags_pageFlags
        r.ph.isPresent_pageFlags hmto (fun g hg => PhysMem.page_writeBytes_within hle hg)
      refine ⟨hpage.family, htkn.tidy, ?_⟩
      have hns : ∀ p ∈ paths rs, ∀ q, q <+: p →
          grown (hasNode s.ram T) (pathOf r.page) q =
            hasNode ((Fill.mk r f).write data s2).ram T q := by
        intro p hp q hq
        obtain ⟨g, hg, rfl⟩ := mem_map.mp hp
        exact (htkn.nodes q (userPrefix_of_pathOf (hrs g hg).user hq)).symm
      rw [reach, hpaths, spend_step hnode htkn.units, spend_congr hns]
      rfl

structure EndsAs (e : Ending) (result : Except LoadStop Machine) : Prop where
  ok : (∃ s', result = .ok s') ↔ e = .done
  panic : (∃ p, result = .error (.panic p)) ↔ e = .short ∨ e = .twice

section Walk

variable (hM : M.Exact) (hrs : ∀ r ∈ rs, r.Checked data)

include hM hrs

lemma within_fills_iff (hfam : Family K exact s (T ::ₘ R) Z) (htidy : TidyTables s.ram 3 T) :
    (∀ f ∈ fills M data T rs s, f.Within data) ↔ ∀ r ∈ rs.take (reach T rs s).1, r.Within := by
  induction rs generalizing s with
  | nil =>
    exact ⟨fun _ => nofun, fun _ => nofun⟩
  | cons r rs ih =>
    have hr := hrs r mem_cons_self
    have hrest : ∀ r ∈ rs, r.Checked data := fun r hr => hrs r (mem_cons_of_mem _ hr)
    have hrd := foreseen hM hfam htidy hr hrest
    cases hrd with
    | dry hload hrch =>
      rw [fills_of_error hload, hrch]
      exact ⟨fun _ => nofun, fun _ => nofun⟩
    | panic hload he hrch =>
      rw [fills_of_error hload, hrch]
      exact ⟨fun _ => nofun, fun _ => nofun⟩
    | @filled s' hload hpos hnext =>
      obtain ⟨f, s1, -, hall, -⟩ := loadPage_eq_ok hload
      rw [fills_of_ok hall hload, forall_mem_cons, Fill.within_iff hr.arithmetic]
      obtain ⟨n, hn⟩ := Nat.exists_eq_succ_of_ne_zero hpos.ne'
      rw [hn, take_succ_cons, forall_mem_cons]
      refine and_congr_right fun hwi => ?_
      obtain ⟨hfam', htidy', hrch⟩ := hnext hwi
      rw [hrch] at hn
      rw [ih hrest hfam' htidy', Nat.succ.inj hn]

lemma fillPages_ends (hfam : Family K exact s (T ::ₘ R) Z) (htidy : TidyTables s.ram 3 T)
    (hwi : ∀ r ∈ rs.take (reach T rs s).1, r.Within) :
    EndsAs (reach T rs s).2 (fillPages M data T rs s) := by
  induction rs generalizing s with
  | nil =>
    have hdone : (reach T [] s).2 = .done := by
      cases s.pmm.framesLeft <;> rfl
    rw [hdone, fillPages]
    constructor <;> simp
  | cons r rs ih =>
    have hr := hrs r mem_cons_self
    have hrest : ∀ r ∈ rs, r.Checked data := fun r hr => hrs r (mem_cons_of_mem _ hr)
    have hrd := foreseen hM hfam htidy hr hrest
    rw [fillPages]
    cases hrd with
    | dry hload hrch =>
      rw [hload, hrch]
      constructor <;> simp [Except.bind]
    | panic hload he hrch =>
      rw [hload, hrch]
      rcases he with rfl | rfl
      · constructor <;> simp [Except.bind]
      · constructor <;> simp [Except.bind]
    | @filled s' hload hpos hnext =>
      obtain ⟨n, hn⟩ := Nat.exists_eq_succ_of_ne_zero hpos.ne'
      rw [hn, take_succ_cons, forall_mem_cons] at hwi
      obtain ⟨hfam', htidy', hrch⟩ := hnext hwi.1
      rw [hrch] at hn
      rw [hload, hrch]
      refine ih hrest hfam' htidy' ?_
      rw [Nat.succ.inj hn]
      exact hwi.2

end Walk

end Indominus.Memory
