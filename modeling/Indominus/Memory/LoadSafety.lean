import Indominus.Memory.EagerCopy
import Indominus.Memory.LoadFill

/-! # What `load_elf` guarantees -/

namespace Indominus.Memory

open Lib Lib.Radix Lib.Budget

variable {K : Nat → Prop} {exact : Prop} {R : Multiset Nat} {Z : Claims Nat}

variable {M : Mapper} {s s' : Machine} {T pml4 entry : Nat} {data : List Byte} {r : PageRound}

/-! ## Confinement -/

namespace Phdr

variable (ph : Phdr)

end Phdr

/-- The byte that the file has for an address of the segment. -/
def Phdr.fileByte (ph : Phdr) (data : List Byte) (a : Nat) : Byte :=
  if ph.vaddr ≤ a ∧ a < ph.vaddr + ph.filesz then data.getD (ph.offset + (a - ph.vaddr)) 0 else 0

/-- Where the file has more bytes for the page than the segment has in memory, they are zero. -/
def PageRound.TailZero (r : PageRound) (data : List Byte) : Prop :=
  ∀ j < PAGE_SIZE, r.ph.vaddr + r.ph.memsz ≤ r.page + j → r.page + j < r.ph.vaddr + r.ph.filesz →
    data.getD (r.ph.offset + (r.page + j - r.ph.vaddr)) 0 = 0

lemma PageRound.tailZero_of_le (h : r.ph.filesz ≤ r.ph.memsz) : r.TailZero data := by
  intro j _ hlo hhi
  omega

/-- `load_elf` writes only inside its pages' frames, and leaves the bytes of the file and zeros. -/
structure LoadsWithin (M : Mapper) (data : List Byte) (pml4 : Nat) (s : Machine) : Prop where
  writes : ∀ f ∈ loadFills M data pml4 s, f.Within data
  contents : ∀ entry s', loadElf M data pml4 s = .ok (entry, s') → ∀ f ∈ loadFills M data pml4 s,
    ∀ j < PAGE_SIZE, view s'.ram pml4 (f.page + j) = some (f.ph.fileByte data (f.page + j))

lemma tailZero_iff : r.TailZero data ↔
    ∀ j < PAGE_SIZE, r.ph.loadedByte data (r.page + j) = r.ph.fileByte data (r.page + j) := by
  refine forall₂_congr fun j _ => ?_
  unfold Phdr.loadedByte Phdr.fileByte
  by_cases hfile : r.ph.vaddr ≤ r.page + j ∧ r.page + j < r.ph.vaddr + r.ph.filesz
  · by_cases hmem : r.page + j < r.ph.vaddr + r.ph.memsz
    · rw [if_pos hfile, if_pos (by omega)]
      exact ⟨fun _ => rfl, fun _ hge => by omega⟩
    · rw [if_pos hfile, if_neg (by omega)]
      exact ⟨fun h => (h (by omega) hfile.2).symm, fun h _ _ => h.symm⟩
  · rw [if_neg hfile, if_neg (by omega)]
    exact ⟨fun _ => rfl, fun _ hge hlt => absurd ⟨by omega, hlt⟩ hfile⟩

def reached (data : List Byte) (pml4 : Nat) (s : Machine) : List PageRound :=
  (plan data).1.take (reach pml4 (plan data).1 s).1

/-- The whole plan can be followed, and the file is accepted at its end. -/
def Completes (data : List Byte) (pml4 : Nat) (s : Machine) : Prop :=
  (reach pml4 (plan data).1 s).2 = .done ∧ (plan data).2.isOk = true

instance (data : List Byte) (pml4 : Nat) (s : Machine) : Decidable (Completes data pml4 s) :=
  inferInstanceAs (Decidable (_ ∧ _))

section Exact

variable (hM : M.Exact) (hfam : Family K exact s (pml4 ::ₘ R) Z) (htidy : TidyTables s.ram 3 pml4)
  (hlen : data.length < 2 ^ 63)

include hM hfam htidy hlen

lemma within_loadFills_iff :
    (∀ f ∈ loadFills M data pml4 s, f.Within data) ↔ ∀ r ∈ reached data pml4 s, r.Within :=
  within_fills_iff hM (fun _ hr => checked_of_mem_plan hlen hr) hfam htidy

lemma loadElf_contents (hwi : ∀ r ∈ reached data pml4 s, r.Within)
    (hok : loadElf M data pml4 s = .ok (entry, s')) {f : Fill}
    (hf : f ∈ loadFills M data pml4 s) {j : Nat} (hj : j < PAGE_SIZE) :
    view s'.ram pml4 (f.page + j) = some (f.ph.loadedByte data (f.page + j)) := by
  have hchk : ∀ r ∈ (plan data).1, r.Checked data := fun r hr => checked_of_mem_plan hlen hr
  have hfls := (within_loadFills_iff hM hfam htidy hlen).mpr hwi
  obtain ⟨s'', hfill, hsame⟩ := fills_filled hM.toDocumented hfam hchk fun f hf =>
    (Fill.within_iff (hchk _ (toPageRound_mem hf)).arithmetic).mp (hfls f hf)
  obtain rfl := hsame s' (loadElf_eq_ok.mp hok).1
  exact hfill.contents f hf j hj

lemma completes_iff (hwi : ∀ r ∈ reached data pml4 s, r.Within) :
    Completes data pml4 s ↔ ∃ entry s', loadElf M data pml4 s = .ok (entry, s') := by
  have hends := fillPages_ends hM (fun _ hr => checked_of_mem_plan hlen hr) hfam htidy hwi
  have hisOk : (plan data).2.isOk = true ↔ ∃ entry, (plan data).2 = .ok entry := by
    cases (plan data).2 <;> simp [Except.isOk, Except.toBool]
  rw [Completes, ← hends.ok, hisOk]
  constructor
  · rintro ⟨⟨s', hwalk⟩, entry, hent⟩
    exact ⟨entry, s', loadElf_eq_ok.mpr ⟨hwalk, hent⟩⟩
  rintro ⟨entry, s', hok⟩
  obtain ⟨hwalk, hent⟩ := loadElf_eq_ok.mp hok
  exact ⟨⟨s', hwalk⟩, entry, hent⟩

/-- **Writing where it may.**  `load_elf` does so exactly if no segment it gets to runs over the
frame of its first page and no page has non-zero bytes of the file beyond its segment. -/
theorem loadElf_within_iff : LoadsWithin M data pml4 s ↔
    (∀ r ∈ reached data pml4 s, r.Within) ∧
      (Completes data pml4 s → ∀ r ∈ (plan data).1, r.TailZero data) := by
  have hwrs := within_loadFills_iff hM hfam htidy hlen
  constructor
  · rintro ⟨hfls, hcon⟩
    have hwi := hwrs.mp hfls
    refine ⟨hwi, fun hcompletes r hr => tailZero_iff.mpr fun j hj => ?_⟩
    obtain ⟨entry, s', hok⟩ := (completes_iff hM hfam htidy hlen hwi).mp hcompletes
    rw [← fills_of_fillPages (loadElf_eq_ok.mp hok).1] at hr
    obtain ⟨f, hf, rfl⟩ := List.mem_map.mp hr
    have hld := loadElf_contents hM hfam htidy hlen hwi hok hf hj
    exact Option.some.inj (hld.symm.trans (hcon entry s' hok f hf j hj))
  rintro ⟨hwi, htail⟩
  refine ⟨hwrs.mpr hwi, fun entry s' hok f hf j hj => ?_⟩
  have hcompletes := (completes_iff hM hfam htidy hlen hwi).mpr ⟨entry, s', hok⟩
  have hzero := tailZero_iff.mp (htail hcompletes _ (toPageRound_mem hf)) j hj
  rw [loadElf_contents hM hfam htidy hlen hwi hok hf hj, hzero]

end Exact

/-! ## Coming back -/

/-- A page table without pages, as `create_user_pml4` makes it. -/
def FreshPml4 (s : Machine) (pml4 : Nat) : Prop := ∀ i < 256, s.ram.entry pml4 i = 0

lemma FreshPml4.tables_eq (h : FreshPml4 s pml4) {i : Nat} (hi : i ∈ pageTree.span 3) :
    s.ram.tables pml4 i = 0 :=
  h i (by simpa [pageTree, entryCount] using hi)

lemma FreshPml4.tidy (h : FreshPml4 s pml4) : TidyTables s.ram 3 pml4 :=
  tidy_of_unused (fun _ hi => h.tables_eq hi) fun k => Pte.target_zero k

lemma FreshPml4.hasNode_eq (h : FreshPml4 s pml4) {q : List Nat} (hq : UserPrefix q) :
    hasNode s.ram pml4 q = q.isEmpty := by
  cases q with
  | nil => exact nodeAt_nil
  | cons i q =>
    refine nodeAt_of_target_none ?_
    rw [h.tables_eq (inSpanPrefix_cons.mp hq).1]
    exact Pte.target_zero 3

/-- How far the loader gets in a fresh address space with a number of free frames. -/
def freshReach (data : List Byte) (frames : Nat) : Nat × Ending :=
  spend frames List.isEmpty (paths (plan data).1)

lemma FreshPml4.reach_eq (h : FreshPml4 s pml4) (hlen : data.length < 2 ^ 63) :
    reach pml4 (plan data).1 s = freshReach data s.pmm.framesLeft := by
  refine spend_congr fun p hp q hq => ?_
  obtain ⟨r, hr, rfl⟩ := List.mem_map.mp hp
  exact h.hasNode_eq (userPrefix_of_pathOf (checked_of_mem_plan hlen hr).user hq)

/-- No computation of the loader overflows, underflows, forms a bad address or leaves the file. -/
structure NoOverflow (data : List Byte) : Prop where
  header : ∀ h, parseEhdr data = .ok h → ∀ i < h.phnum, h.phoff + i * h.phentsize + 56 < 2 ^ 64
  rounding : ∀ ph : Phdr, ph.vaddr + ph.memsz < USER_SPACE_END →
    ph.vaddr + ph.memsz + PAGE_SIZE - 1 < 2 ^ 64 ∧ ph.virtStart ≤ ph.virtEnd
  pages : ∀ r ∈ (plan data).1, r.page < USER_SPACE_END ∧ r.ph.Arithmetic data.length ∧
    r.ph.PageArithmetic data.length r.page

lemma noOverflow (hlen : data.length < 2 ^ 63) : NoOverflow data := by
  constructor
  case header => exact fun h hh i hi => header_offset_lt hh hlen hi
  case rounding =>
    intro ph hend
    refine ⟨?_, ph.virtStart_le_virtEnd⟩
    unfold USER_SPACE_END at hend
    unfold PAGE_SIZE
    omega
  case pages =>
    intro r hr
    have hchk := checked_of_mem_plan hlen hr
    exact ⟨hchk.user, (mem_plan hr).1.accepted.arithmetic hlen, hchk.arithmetic⟩

/-- `load_elf` returns, and on the way it has neither written out of range nor mapped a page
twice. -/
structure LoadsSafely (M : Mapper) (data : List Byte) (pml4 : Nat) (s : Machine) : Prop where
  returns : ∀ p, loadElf M data pml4 s ≠ .error (.panic p)
  within : ∀ f ∈ loadFills M data pml4 s, f.Within data
  once : (loadFills M data pml4 s).Pairwise fun f g => g.page ≠ f.page
  arithmetic : NoOverflow data

lemma loadElf_panics_iff : (∃ p, loadElf M data pml4 s = .error (.panic p)) ↔
    ∃ p, fillPages M data pml4 (plan data).1 s = .error (.panic p) := by
  rw [loadElf_eq]
  cases fillPages M data pml4 (plan data).1 s with
  | error e => simp [Except.bind]
  | ok s' => cases (plan data).2 <;> simp [Except.bind, finish]

/-- **Not bringing the kernel down.**  In a fresh address space `load_elf` comes back exactly if no
segment spills, no page belongs to two segments, and the frames do not run out between a page and
its tables. -/
theorem loadElf_safe_iff (hM : M.Exact) (hfam : Family K exact s (pml4 ::ₘ R) Z)
    (hfresh : FreshPml4 s pml4) (hlen : data.length < 2 ^ 63) : LoadsSafely M data pml4 s ↔
      (∀ r ∈ (plan data).1.take (freshReach data s.pmm.framesLeft).1, r.Within) ∧
      (freshReach data s.pmm.framesLeft).2 ≠ .twice ∧
        (freshReach data s.pmm.framesLeft).2 ≠ .short := by
  have hchk : ∀ r ∈ (plan data).1, r.Checked data := fun r hr => checked_of_mem_plan hlen hr
  have hwrs := within_loadFills_iff hM hfam hfresh.tidy hlen
  rw [reached, hfresh.reach_eq hlen] at hwrs
  have hpanics : (∀ r ∈ (plan data).1.take (freshReach data s.pmm.framesLeft).1, r.Within) →
      ((∃ p, loadElf M data pml4 s = .error (.panic p)) ↔
        (freshReach data s.pmm.framesLeft).2 = .short ∨
        (freshReach data s.pmm.framesLeft).2 = .twice) := by
    intro hwi
    rw [← hfresh.reach_eq hlen] at hwi ⊢
    rw [loadElf_panics_iff]
    exact (fillPages_ends hM hchk hfam hfresh.tidy hwi).panic
  constructor
  · rintro ⟨hreturns, hfls, -, -⟩
    have hwi := hwrs.mp hfls
    refine ⟨hwi, fun htwice => ?_, fun hsh => ?_⟩
    · obtain ⟨p, hp⟩ := (hpanics hwi).mpr (.inr htwice)
      exact hreturns p hp
    · obtain ⟨p, hp⟩ := (hpanics hwi).mpr (.inl hsh)
      exact hreturns p hp
  rintro ⟨hwi, htwice, hsh⟩
  have hfls := hwrs.mpr hwi
  refine ⟨fun p hp => ?_, hfls, ?_, noOverflow hlen⟩
  · exact ((hpanics hwi).mp ⟨p, hp⟩).elim hsh htwice
  obtain ⟨s', hfill, -⟩ := fills_filled hM.toDocumented hfam hchk fun f hf =>
    (Fill.within_iff (hchk _ (toPageRound_mem hf)).arithmetic).mp (hfls f hf)
  exact hfill.once.imp fun hne heq => hne (congrArg pathOf heq)

/-! ## Small files -/

lemma emptySpace_fresh : FreshPml4 Spaces.emptySpace 2 := fun _ _ => rfl

/-- A file with one page stays inside its frame. -/
theorem loadElf_within_iff_page : LoadsWithin referenceMapper tinyElf 2 Spaces.emptySpace := by
  have hsizes : ∀ r ∈ (plan tinyElf).1, r.ph.filesz ≤ r.ph.memsz := by decide +kernel
  refine (loadElf_within_iff referenceMapper_exact Spaces.emptySpace_family emptySpace_fresh.tidy
    (by decide +kernel)).mpr
    ⟨by decide +kernel, fun _ r hr => PageRound.tailZero_of_le (hsizes r hr)⟩

/-- A segment of 16 bytes that begins 8 bytes before the end of a page is written over into the next
frame, a new page table. -/
theorem loadElf_spills :
    ¬ LoadsWithin referenceMapper (zeroElf [(0x400FF8, 16)]) 2 Spaces.emptySpace := by
  intro h
  have hfill : (⟨⟨⟨1, 7, 0, 0x400FF8, 0, 16⟩, 0⟩, 4⟩ : Fill) ∈
      loadFills referenceMapper (zeroElf [(0x400FF8, 16)]) 2 Spaces.emptySpace := by
    decide +kernel
  have hins := h.writes _ hfill 8 (by decide +kernel)
  revert hins
  decide +kernel

/-- It is loaded without a panic. -/
theorem loadElf_safe_iff_page : LoadsSafely referenceMapper tinyElf 2 Spaces.emptySpace :=
  (loadElf_safe_iff referenceMapper_exact Spaces.emptySpace_family emptySpace_fresh
    (by decide +kernel)).mpr
    (by decide +kernel)

/-- Two segments that share a page. -/
theorem loadElf_panics :
    ∃ p, loadElf referenceMapper (zeroElf [(0x400000, 1), (0x400800, 1)]) 2 Spaces.emptySpace =
      .error (.panic p) := by
  rw [loadElf_panics_iff]
  have hlen : (zeroElf [(0x400000, 1), (0x400800, 1)]).length < 2 ^ 63 := by decide +kernel
  refine (fillPages_ends referenceMapper_exact
    (fun r hr => checked_of_mem_plan hlen hr) Spaces.emptySpace_family
    emptySpace_fresh.tidy ?_).panic.mpr (.inr ?_)
  · decide +kernel
  · decide +kernel

end Indominus.Memory
