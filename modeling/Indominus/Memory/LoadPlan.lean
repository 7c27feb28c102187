import Indominus.Memory.Loading

/-!
# What the loader plans

The bytes of the file alone decide which pages are to be filled, in which order, and how the load
ends.
-/

namespace Indominus.Memory

open Lib List

variable {M : Mapper} {data : List Byte} {pml4 : Nat} {s s' : Machine}

/-! ## Plans -/

structure PageRound where
  ph : Phdr
  /-- Which page of the segment it is (`page_idx`). -/
  idx : Nat
  deriving DecidableEq

/-- `page_virt`. -/
def PageRound.page (r : PageRound) : Nat := r.ph.virtStart + r.idx * PAGE_SIZE

def Phdr.rounds (ph : Phdr) : List PageRound := (List.range ph.numPages).map fun i => ⟨ph, i⟩

/-- The pages of the segments up to the first header that is refused, and how the loop ends. -/
def planSegments (data : List Byte) (h : Ehdr) :
    List Nat → (totalMem : Nat) → (entryInSegment : Bool) →
    List PageRound × Except ElfError Bool
  | [], _, entryInSegment => ([], .ok entryInSegment)
  | i :: is, totalMem, entryInSegment =>
    match parsePhdr data h i with
    | none => ([], .error .segmentOutOfBounds)
    | some ph =>
      if ph.type ≠ PT_LOAD then planSegments data h is totalMem entryInSegment
      else
        match ph.check data.length totalMem with
        | .error e => ([], .error e)
        | .ok totalMem =>
          let rest := planSegments data h is totalMem
            (entryInSegment || (decide (ph.virtStart ≤ h.entry) && decide (h.entry < ph.virtEnd)))
          (ph.rounds ++ rest.1, rest.2)

/-- The end of a load: the entry point must be in a segment. -/
def planEntry (h : Ehdr) (ending : Except ElfError Bool) : Except ElfError Nat :=
  ending.bind fun entryInSegment => if entryInSegment then .ok h.entry else .error .badEntry

/-- The plan of a file: the pages to fill, and the entry point or the error at the end. -/
def plan (data : List Byte) : List PageRound × Except ElfError Nat :=
  match parseEhdr data with
  | .error e => ([], .error e)
  | .ok h =>
    let p := planSegments data h (List.range h.phnum) 0 false
    (p.1, planEntry h p.2)

def fillPages (M : Mapper) (data : List Byte) (pml4 : Nat) :
    List PageRound → Machine → Except LoadStop Machine
  | [], s => .ok s
  | r :: rs, s => (loadPage M data pml4 r.ph r.idx s).bind (fillPages M data pml4 rs)

def finish {α : Type} (ending : Except ElfError α) (s : Machine) : Except LoadStop (α × Machine) :=
  match ending with
  | .error e => .error (.fail e s)
  | .ok a => .ok (a, s)

lemma fillPages_append (rs rs' : List PageRound) (s : Machine) :
    fillPages M data pml4 (rs ++ rs') s =
      (fillPages M data pml4 rs s).bind (fillPages M data pml4 rs') := by
  induction rs generalizing s with
  | nil => rfl
  | cons r rs ih =>
    rw [cons_append, fillPages, fillPages]
    cases loadPage M data pml4 r.ph r.idx s with
    | error e => rfl
    | ok s => exact ih s

lemma loadPages_eq (ph : Phdr) (is : List Nat) (s : Machine) :
    loadPages M data pml4 ph is s = fillPages M data pml4 (is.map fun i => ⟨ph, i⟩) s := by
  induction is generalizing s with
  | nil => rfl
  | cons i is ih =>
    rw [loadPages, map_cons, fillPages]
    cases loadPage M data pml4 ph i s with
    | error e => rfl
    | ok s => exact ih s

lemma loadSegments_eq (h : Ehdr) (is : List Nat) (totalMem : Nat) (entry : Bool) (s : Machine) :
    loadSegments M data pml4 h is totalMem entry s =
      (fillPages M data pml4 (planSegments data h is totalMem entry).1 s).bind
        (finish (planSegments data h is totalMem entry).2) := by
  induction is generalizing totalMem entry s with
  | nil => rfl
  | cons i is ih =>
    rw [loadSegments, planSegments]
    cases parsePhdr data h i with
    | none => rfl
    | some ph =>
      by_cases htype : ph.type ≠ PT_LOAD
      · simp only [if_pos htype]
        exact ih totalMem entry s
      simp only [if_neg htype]
      cases ph.check data.length totalMem with
      | error e => rfl
      | ok total =>
        simp only [loadPages_eq, fillPages_append, Phdr.rounds]
        cases fillPages M data pml4 ((range ph.numPages).map fun i => ⟨ph, i⟩) s with
        | error e => rfl
        | ok s => exact ih _ _ s

lemma loadElf_eq : loadElf M data pml4 s =
    (fillPages M data pml4 (plan data).1 s).bind (finish (plan data).2) := by
  rw [loadElf, plan]
  cases parseEhdr data with
  | error e => rfl
  | ok h =>
    simp only [loadSegments_eq]
    cases fillPages M data pml4 (planSegments data h (range h.phnum) 0 false).1 s with
    | error e => rfl
    | ok s =>
      cases (planSegments data h (range h.phnum) 0 false).2 with
      | error e => rfl
      | ok inSegment => cases inSegment <;> rfl

variable {entry mem i : Nat} {h : Ehdr} {is : List Nat} {r : PageRound}

lemma loadElf_eq_ok : loadElf M data pml4 s = .ok (entry, s') ↔
    fillPages M data pml4 (plan data).1 s = .ok s' ∧ (plan data).2 = .ok entry := by
  rw [loadElf_eq]
  cases fillPages M data pml4 (plan data).1 s with
  | error e => simp [Except.bind]
  | ok s1 =>
    cases (plan data).2 with
    | error e => simp [Except.bind, finish]
    | ok a => simp [Except.bind, finish, and_comm]

/-! ## Accepted headers -/

/-- What the checks of `load_elf` let through. -/
structure Phdr.Accepted (ph : Phdr) (dataLen : Nat) : Prop where
  file : min (ph.offset + ph.filesz) (2 ^ 64 - 1) ≤ dataLen
  rawEnd : ph.vaddr + ph.memsz < USER_SPACE_END
  virtEnd : ph.virtEnd < USER_SPACE_END
  size : ph.virtEnd - ph.virtStart ≤ MAX_USER_MEM

lemma Phdr.check_eq_ok {ph : Phdr} {len total : Nat} (h : ph.check len mem = .ok total) :
    ph.Accepted len ∧ total = mem + (ph.virtEnd - ph.virtStart) ∧ total ≤ MAX_USER_MEM := by
  simp only [check, bind, Except.bind, throw, throwThe, MonadExceptOf.throw, pure, Except.pure] at h
  split_ifs at h with h1 h2 h3 h4 h5 h6 h7
  cases h
  exact ⟨⟨by omega, by omega, by omega, by omega⟩, rfl, by omega⟩

structure Planned (data : List Byte) (ph : Phdr) : Prop where
  header : ∃ h i, parseEhdr data = .ok h ∧ i < h.phnum ∧ parsePhdr data h i = some ph
  load : ph.type = PT_LOAD
  accepted : ph.Accepted data.length

lemma mem_planSegments (hh : parseEhdr data = .ok h) (his : ∀ i ∈ is, i < h.phnum) {entry : Bool}
    (hr : r ∈ (planSegments data h is mem entry).1) :
    Planned data r.ph ∧ r.idx < r.ph.numPages := by
  induction is generalizing mem entry with
  | nil => cases hr
  | cons i is ih =>
    have hrest : ∀ j ∈ is, j < h.phnum := fun j hj => his j (by simp [hj])
    rw [planSegments] at hr
    cases hph : parsePhdr data h i with
    | none => simp [hph] at hr
    | some ph =>
      simp only [hph] at hr
      by_cases htype : ph.type ≠ PT_LOAD
      · rw [if_pos htype] at hr
        exact ih hrest hr
      rw [if_neg htype] at hr
      cases hck : ph.check data.length mem with
      | error e => simp [hck] at hr
      | ok total =>
        simp only [hck, mem_append] at hr
        rcases hr with hr | hr
        · obtain ⟨j, hj, rfl⟩ := mem_map.mp hr
          exact ⟨⟨⟨h, i, hh, his i (by simp), hph⟩, not_not.mp htype, (Phdr.check_eq_ok hck).1⟩,
            mem_range.mp hj⟩
        · exact ih hrest hr

lemma mem_plan (hr : r ∈ (plan data).1) : Planned data r.ph ∧ r.idx < r.ph.numPages := by
  rw [plan] at hr
  cases hh : parseEhdr data with
  | error e => simp [hh] at hr
  | ok h =>
    simp only [hh] at hr
    exact mem_planSegments hh (fun i hi => mem_range.mp hi) hr

lemma Phdr.virtStart_le_virtEnd (ph : Phdr) : ph.virtStart ≤ ph.virtEnd := by
  unfold virtStart virtEnd PAGE_SIZE
  omega

lemma Phdr.numPages_mul (ph : Phdr) : ph.numPages * PAGE_SIZE = ph.virtEnd - ph.virtStart := by
  unfold numPages virtStart virtEnd PAGE_SIZE
  omega

/-- No computation on the fields of an accepted header leaves the 64-bit range. -/
structure Phdr.Arithmetic (ph : Phdr) (dataLen : Nat) : Prop where
  /-- `seg_end` is exact and inside the file. -/
  segEnd : ph.offset + ph.filesz ≤ dataLen
  /-- `raw_end + PAGE_SIZE - 1`. -/
  rawEnd : ph.vaddr + ph.memsz + PAGE_SIZE - 1 < 2 ^ 64
  /-- `virt_end - virt_start`. -/
  size : ph.virtStart ≤ ph.virtEnd
  /-- `total_mem`, with what was counted before. -/
  total : ∀ mem ≤ MAX_USER_MEM, mem + (ph.virtEnd - ph.virtStart) < 2 ^ 64

/-- No computation for one page leaves the 64-bit range, and no difference is negative. -/
structure Phdr.PageArithmetic (ph : Phdr) (dataLen pageVirt : Nat) : Prop where
  page : pageVirt < 2 ^ 64
  /-- `seg_data_start + PAGE_SIZE`. -/
  window : ph.segDataStart pageVirt + PAGE_SIZE < 2 ^ 64
  /-- `min(seg_data_end, p_filesz) - seg_data_start`. -/
  dataInPage : ph.segDataStart pageVirt < ph.filesz →
    ph.segDataStart pageVirt ≤ min (ph.segDataEnd pageVirt) ph.filesz
  /-- `seg_data_end - seg_data_start - data_in_page`. -/
  bssInPage : ph.segDataStart pageVirt < ph.segDataEnd pageVirt →
    ph.dataInPage pageVirt ≤ ph.segDataEnd pageVirt - ph.segDataStart pageVirt
  source : 0 < ph.dataInPage pageVirt →
    ph.offset + ph.segDataStart pageVirt + ph.dataInPage pageVirt ≤ dataLen

namespace Phdr

variable {ph : Phdr} {len : Nat}

lemma Accepted.arithmetic (h : ph.Accepted len) (hlen : len < 2 ^ 63) : ph.Arithmetic len := by
  obtain ⟨hfile, hraw, hend, hsize⟩ := h
  unfold USER_SPACE_END at hraw
  unfold MAX_USER_MEM at hsize
  constructor
  case segEnd => omega
  case rawEnd =>
    unfold PAGE_SIZE
    omega
  case size => exact ph.virtStart_le_virtEnd
  case total =>
    intro mem hmem
    unfold MAX_USER_MEM at hmem
    omega

lemma segDataStart_le (hi : i < ph.numPages) :
    ph.segDataStart (ph.virtStart + i * PAGE_SIZE) ≤ ph.memsz := by
  have hpgs := ph.numPages_mul
  unfold segDataStart virtStart virtEnd PAGE_SIZE at *
  split_ifs <;> omega

lemma Accepted.pageArithmetic (h : ph.Accepted len) (hlen : len < 2 ^ 63) (hi : i < ph.numPages) :
    ph.PageArithmetic len (ph.virtStart + i * PAGE_SIZE) := by
  have hsegEnd := (h.arithmetic hlen).segEnd
  have hraw := h.rawEnd
  have hpage := page_lt h.virtEnd hi
  have hst := segDataStart_le hi
  obtain ⟨page, hp⟩ : ∃ page, page = ph.virtStart + i * PAGE_SIZE := ⟨_, rfl⟩
  rw [← hp] at hpage hst ⊢
  unfold USER_SPACE_END at hraw hpage
  constructor
  case page => omega
  case window =>
    unfold PAGE_SIZE
    omega
  case dataInPage =>
    intro hdata
    unfold segDataEnd
    omega
  case bssInPage =>
    intro hbss
    unfold Phdr.dataInPage
    split_ifs <;> omega
  case source =>
    intro hpos
    unfold Phdr.dataInPage at hpos ⊢
    split_ifs at hpos ⊢ <;> omega

end Phdr

lemma leBytes_lt (data : List Byte) (offset n : Nat) : leBytes data offset n < 256 ^ n := by
  induction n generalizing offset with
  | zero => exact Nat.one_pos
  | succ n ih =>
    have hrest := ih (offset + 1)
    rw [leBytes]
    omega

lemma readLe_eq_some {off n v : Nat} (h : readLe data off n = some v) :
    off + n ≤ data.length ∧ v < 256 ^ n := by
  unfold readLe at h
  split at h
  · cases h
  · cases h
    exact ⟨by omega, leBytes_lt data off n⟩

lemma okOr_eq_ok {α : Type} {o : Option α} {e : ElfError} {a : α} :
    okOr o e = .ok a ↔ o = some a := by
  cases o <;> simp [okOr]

lemma header_offset_lt (hok : parseEhdr data = .ok h) (hlen : data.length < 2 ^ 63)
    (hi : i < h.phnum) : h.phoff + i * h.phentsize + 56 < 2 ^ 64 := by
  simp only [parseEhdr, bind, pure, Except.pure, throw, throwThe, MonadExceptOf.throw, guard_eq_ok,
    bind_eq_ok, okOr_eq_ok, Except.ok.injEq] at hok
  obtain ⟨-, -, -, -, eType, -, -, entry, -, phoff, -, phentsize, hsize, phnum, hnum, -, -,
    hphoff, rfl⟩ := hok
  dsimp only at hi ⊢
  have hsize' : phentsize < 2 ^ 16 := (readLe_eq_some hsize).2
  have hnum' : phnum < 2 ^ 16 := (readLe_eq_some hnum).2
  have hmul : i * phentsize ≤ 2 ^ 16 * 2 ^ 16 := Nat.mul_le_mul (by omega) (by omega)
  omega

end Indominus.Memory
