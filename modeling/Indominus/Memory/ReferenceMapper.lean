import Indominus.Memory.Mapper

/-! # A mapper that behaves as documented -/

namespace Indominus.Memory

open Lib Lib.Radix Multiset PhysMem

/-! ## The mapper -/

/-- The step of `map_to` to the next table: a missing one is linked, an existing link gets the
missing permissions. -/
def createNextTable (s : Machine) (level t i : Nat) (insertFlags : Word) :
    Except MapToError (Nat × Machine) :=
  let e := s.ram.entry t i
  if e = 0 then
    match s.allocateFrame with
    | none => .error .frameAllocationFailed
    | some (frame, s) =>
      .ok (frame, { s with ram := s.ram.setEntry t i (Pte.setAddr frame insertFlags) })
  else
    match Pte.target level e with
    | none => .error .parentEntryHugePage
    | some frame => .ok (frame, { s with ram := s.ram.setEntry t i (e ||| insertFlags) })

/-- `flags & (PRESENT | WRITABLE | USER_ACCESSIBLE)`: the flags of the tables on the way. -/
def parentFlags (flags : Word) : Word :=
  flags &&& (Pte.PRESENT ||| Pte.WRITABLE ||| Pte.USER_ACCESSIBLE)

/-- The walk of `map_to` from the table `t` down. -/
def mapLevel (frame : Nat) (flags : Word) : (level t : Nat) → List Nat → Machine →
    Except MapToError Machine
  | 0, t, [i], s =>
    if s.ram.entry t i = 0 then
      .ok { s with ram := s.ram.setEntry t i (Pte.setAddr frame flags) }
    else .error .pageAlreadyMapped
  | level + 1, t, i :: path, s =>
    match createNextTable s (level + 1) t i (parentFlags flags) with
    | .error e => .error e
    | .ok (table, s) => mapLevel frame flags level table path s
  | _, _, _, _ => .error .parentEntryHugePage

/-- `map_to`. -/
def referenceMapTo (s : Machine) (pml4 va frame : Nat) (flags : Word) : Except MapToError Machine :=
  mapLevel frame flags 3 pml4 (pathOf va) s

/-- `unmap`: clear the entry that maps the page. -/
def referenceUnmap (m : PhysMem) (pml4 va : Nat) : Option (Nat × PhysMem) :=
  match walkPageTableToPte m pml4 va with
  | none => none
  | some (pt, i) => some (Pte.addr (m.entry pt i), m.setEntry pt i 0)

/-- `translate_page`. -/
def referenceTranslate (m : PhysMem) (pml4 va : Nat) : Option Nat :=
  match walkPageTableToPte m pml4 va with
  | none => none
  | some (pt, i) => some (Pte.addr (m.entry pt i))

def referenceMapper : Mapper where
  mapTo := referenceMapTo
  unmap := referenceUnmap
  translatePage := referenceTranslate

/-! ## The link to the next table -/

/-- The table `c` is linked at entry `i` of `t`; it was there before (`N` is empty) or is new. -/
structure NextTable (k : Nat) (s s1 : Machine) (t i c : Nat) (N : List (Nat × Nat)) : Prop where
  same : SameExcept pageTree s.ram.tables s1.ram.tables (k + 1) t i
  target : Pte.target (k + 1) (s1.ram.entry t i) = some c
  alloc : Allocates s.pmm (N.map Prod.snd) s1.pmm
  uses : uses s1.ram k c = below pageTree s.ram.tables (k + 1) (s.ram.entry t i) + newTables N
  leaf : ∀ q, InUser k q → pteAt s1.ram k c q = pteAt s.ram (k + 1) t (i :: q)
  grows : Grows (fun f => f = t) s s1
  apart : ∀ u ∈ rest pageTree s.ram.tables (k + 1) t i, u.isTable = true →
    s1.pmm.bitmapTest u.frame = true ∧ ¬ IsTable s1.ram k c u.frame
  hierarchy : Hierarchy k s1 c

variable {s s1 s2 : Machine} {k t i c : Nat} {N N' : List (Nat × Nat)} {e : Word} {path : List Nat}

lemma NextTable.around (hn : NextTable k s s1 t i c N) (hm : Mapped k s1 s2 c path e N') :
    (∀ j, s2.ram.entry t j = s1.ram.entry t j) ∧
      SameExcept pageTree s.ram.tables s2.ram.tables (k + 1) t i ∧
      Pte.target (k + 1) (s2.ram.entry t i) = some c := by
  have hpage : ∀ u ∈ rest pageTree s.ram.tables (k + 1) t i, u.isTable = true →
      s2.ram.page u.frame = s1.ram.page u.frame := by
    intro u hu htab
    obtain ⟨hbit, hnot⟩ := hn.apart u hu htab
    exact (hm.grows _ hbit).2 hnot
  have hrow : ∀ j, s2.ram.entry t j = s1.ram.entry t j :=
    entry_of_page (hpage _ (table_mem_rest (k + 1) t i) rfl)
  refine ⟨hrow, ⟨?_, ?_⟩, hrow i ▸ hn.target⟩
  · intro j hj
    exact (hrow j).trans (hn.same.row j hj)
  intro j hj hne u hu htab
  have hkeep := hpage u (mem_of_le (below_le_rest hj hne) hu) htab
  exact (tables_of_page hkeep).trans (hn.same.below j hj hne u hu htab)

/-- What is mapped below a table is mapped in the whole tree. -/
lemma NextTable.mapped (hi : i < entryCount (k + 1)) (hn : NextTable k s s1 t i c N)
    (hm : Mapped k s1 s2 c path e N') (hpath : InUser k path) :
    Mapped (k + 1) s s2 t (i :: path) e (N ++ N') := by
  have hspan : i ∈ pageTree.span (k + 1) := Finset.mem_range.mpr hi
  obtain ⟨hrow, hsame, htgt⟩ := hn.around hm
  have hlink : ∀ q, pteAt s2.ram (k + 1) t (i :: q) = pteAt s2.ram k c q := fun q =>
    leafAt_cons htgt
  constructor
  case alloc =>
    rw [List.map_append]
    exact hn.alloc.append hm.alloc
  case uses =>
    have hbel : below pageTree s2.ram.tables (k + 1) (s2.ram.tables t i) = Memory.uses s2.ram k c :=
      below_of_target htgt
    rw [Memory.uses, hsame.visit hspan, hbel, hm.uses, hn.uses, Memory.uses, visit_eq_rest hspan,
      newTables_append]
    show _ + (_ + _ + _ + _) = _ + below pageTree s.ram.tables (k + 1) (s.ram.entry t i) + _ + _
    abel
  case empty => exact (hn.leaf path hpath).symm.trans hm.empty
  case leaf =>
    intro q hq
    cases q with
    | nil => exact hq.elim
    | cons j q =>
      by_cases hj : j = i
      · subst hj
        rw [hlink, hm.leaf q hq.2, hn.leaf q hq.2]
        simp
      have hkeep : pteAt s2.ram (k + 1) t (j :: q) = pteAt s.ram (k + 1) t (j :: q) :=
        hsame.leafAt hj hq
      rw [hkeep, if_neg (by simp [hj])]
  case grows =>
    intro f hf
    obtain ⟨hbit, hkeep⟩ := hn.grows f hf
    obtain ⟨hbit', hkeep'⟩ := hm.grows f hbit
    refine ⟨hbit', fun hW => ?_⟩
    have ht : f ≠ t := by
      rintro rfl
      exact hW (isTable_self _ _ _)
    refine (hkeep' ?_).trans (hkeep ht)
    -- a table below the entry was there before, or it was free
    rintro ⟨l, hl⟩
    rw [hn.uses] at hl
    rcases mem_add.mp hl with hl | hl
    · exact hW ⟨l, mem_of_le (below_le_visit _ _ hspan) hl⟩
    obtain ⟨x, hx, heq⟩ := List.mem_map.mp (mem_coe.mp hl)
    obtain ⟨-, rfl⟩ : x.1 = l ∧ x.2 = f := by simpa using heq
    have hfree := hn.alloc.fresh x.2 (List.mem_map_of_mem hx)
    rw [hf] at hfree
    cases hfree
  case high =>
    intro j hj
    have hne : j ≠ i := by omega
    exact (hrow j).trans (hn.same.row j hne)

/-! ## Flags of links -/

section Flags

variable {flags : Word}

lemma isFlags_parentFlags (flags : Word) : Pte.IsFlags (parentFlags flags) := by
  have hmask : Pte.IsFlags (Pte.PRESENT ||| Pte.WRITABLE ||| Pte.USER_ACCESSIBLE) := by decide
  rw [parentFlags, BitVec.and_comm]
  exact hmask.and _

lemma isPresent_parentFlags (h : Pte.isPresent flags = true) :
    Pte.isPresent (parentFlags flags) = true := by
  have hbit : (Pte.PRESENT ||| Pte.WRITABLE ||| Pte.USER_ACCESSIBLE).getLsbD 0 = true := by decide
  have hfl : flags.getLsbD 0 = true := h
  rw [Pte.isPresent, parentFlags, BitVec.getLsbD_and, hfl, hbit, Bool.and_self]

lemma isHuge_parentFlags (flags : Word) : Pte.isHuge (parentFlags flags) = false := by
  have hbit : (Pte.PRESENT ||| Pte.WRITABLE ||| Pte.USER_ACCESSIBLE).getLsbD 7 = false := by decide
  rw [Pte.isHuge, parentFlags, BitVec.getLsbD_and, hbit, Bool.and_false]

lemma target_newLink {level : Nat} (hc : c < 2 ^ 40) (h : Pte.isPresent flags = true) :
    Pte.target level (Pte.setAddr c (parentFlags flags)) = some c := by
  simp [Pte.target, isPresent_parentFlags h, isHuge_parentFlags,
    Pte.addr_setAddr hc (isFlags_parentFlags flags)]

lemma target_or_parentFlags {level : Nat} (h : Pte.target level e = some c) :
    Pte.target level (e ||| parentFlags flags) = some c := by
  have haddr : Pte.addr (e ||| parentFlags flags) = Pte.addr e := by
    have hmask : (e ||| parentFlags flags) &&& Pte.ADDR_MASK = e &&& Pte.ADDR_MASK := by
      refine BitVec.eq_of_getLsbD_eq fun n hn => ?_
      have hzero := congrArg (fun w => BitVec.getLsbD w n) (isFlags_parentFlags flags)
      cases hm : Pte.ADDR_MASK.getLsbD n <;> simp_all
    rw [Pte.addr, hmask, Pte.addr]
  have hhuge : Pte.isHuge (e ||| parentFlags flags) = Pte.isHuge e := by
    have hbit : (parentFlags flags).getLsbD 7 = false := isHuge_parentFlags flags
    rw [Pte.isHuge, BitVec.getLsbD_or, hbit, Bool.or_false, Pte.isHuge]
  rw [Pte.target] at h
  split at h
  · rename_i hcond
    rw [Bool.and_eq_true] at hcond
    have hpres : Pte.isPresent (e ||| parentFlags flags) = true := by
      have hbit : e.getLsbD 0 = true := hcond.1
      rw [Pte.isPresent, BitVec.getLsbD_or, hbit, Bool.true_or]
    rw [Pte.target, hpres, hhuge, hcond.2, haddr, Bool.and_self]
    exact h
  · simp at h

end Flags

/-! ## Making the link -/

lemma nextTable_new {flags : Word} (h : Hierarchy (k + 1) s t) (hi : i < entryCount (k + 1))
    (hfl : Pte.isPresent flags = true) (hzero : s.ram.entry t i = 0)
    {p : Pmm} (hall : s.pmm.allocFrame = some (c, p)) : NextTable k s
      ⟨p, (s.ram.zeroPage c).setEntry t i (Pte.setAddr c (parentFlags flags))⟩ t i c [(k, c)] := by
  obtain ⟨m, hm⟩ : ∃ m, m = (s.ram.zeroPage c).setEntry t i (Pte.setAddr c (parentFlags flags)) :=
    ⟨_, rfl⟩
  rw [← hm]
  obtain ⟨hpos, hlt, hfree, -, rfl⟩ := Pmm.allocFrame_eq_some hall
  -- the frame was free, so it is none of the old tables
  have hne : ∀ f, s.pmm.bitmapTest f = true → f ≠ c := by
    rintro f hf rfl
    rw [hf] at hfree
    cases hfree
  have hct : t ≠ c := hne t (h.allocated t (isTable_self _ _ _))
  have hpage : ∀ f, f ≠ t → f ≠ c → m.page f = s.ram.page f := by
    intro f hft hfc
    rw [hm, page_setEntry_of_ne hft, page_zeroPage_of_ne hfc]
  have hemp : ∀ j, m.entry c j = 0 := by
    intro j
    rw [hm, entry_setEntry, if_neg fun hh => hct hh.1.symm, entry_zeroPage_self]
  have huses : Memory.uses m k c = {Use.table k c} := visit_of_empty fun j _ => by
    show Pte.target k (m.entry c j) = none
    rw [hemp, Pte.target_zero]
  have htable : ∀ f, IsTable m k c f → f = c := by
    rintro f ⟨l, hl⟩
    rw [huses] at hl
    have heq : Use.table l f = (Use.table k c : Use Nat Word) := mem_singleton.mp hl
    simp only [Use.table.injEq] at heq
    exact heq.2
  constructor
  case same =>
    constructor
    · intro j hj
      show m.entry t j = s.ram.entry t j
      rw [hm, entry_setEntry, if_neg fun hh => hj hh.2,
        entry_of_page (page_zeroPage_of_ne hct)]
    intro j hj _ u hu htab
    have hmem : u ∈ Memory.uses s.ram (k + 1) t := mem_of_le (below_le_visit _ _ hj) hu
    have hbit := h.allocated _ (isTable_of_mem hmem htab)
    have hroot := refs_root_below (h.once t (isTable_self _ _ _)) hj
    exact tables_of_page (hpage _ (refs_eq_zero.mp hroot u hu) (hne _ hbit))
  case target =>
    have hsize := h.size
    simp only [MAX_FRAMES] at hsize
    rw [hm, entry_setEntry, if_pos ⟨rfl, rfl⟩, target_newLink (by omega) hfl]
  case alloc => exact .cons hall (.nil _)
  case uses =>
    rw [huses, hzero, below_of_none (Pte.target_zero (k + 1))]
    rfl
  case leaf =>
    intro q hq
    have hold : pteAt s.ram (k + 1) t (i :: q) = none :=
      leafAt_of_target_none (show Pte.target (k + 1) (s.ram.entry t i) = none by
        rw [hzero, Pte.target_zero])
    rw [hold]
    cases q with
    | nil => cases k <;> exact hq.elim
    | cons j q =>
      exact leafAt_of_target_none (show Pte.target k (m.entry c j) = none by
        rw [hemp, Pte.target_zero])
  case grows =>
    intro f hf
    refine ⟨by simp [hf], fun ht => hpage f ht (hne f hf)⟩
  case apart =>
    intro u hu htab
    have hmem : u ∈ Memory.uses s.ram (k + 1) t := by
      rw [Memory.uses, visit_eq_rest (Finset.mem_range.mpr hi)]
      exact mem_add.mpr (.inl hu)
    have hbit := h.allocated _ (isTable_of_mem hmem htab)
    exact ⟨by simp [hbit], fun hc => hne _ hbit (htable _ hc)⟩
  case hierarchy =>
    constructor
    · intro f _
      rw [huses, refs_singleton]
      split <;> simp
    · intro f hf
      obtain rfl := htable f hf
      simp
    · exact h.size

lemma nextTable_old {flags : Word} (h : Hierarchy (k + 1) s t) (hi : i < entryCount (k + 1))
    (hc : Pte.target (k + 1) (s.ram.entry t i) = some c) :
    NextTable k s { s with ram := s.ram.setEntry t i (s.ram.entry t i ||| parentFlags flags) } t i c
      [] := by
  have hspan : i ∈ pageTree.span (k + 1) := Finset.mem_range.mpr hi
  obtain ⟨m, hm⟩ : ∃ m, m = s.ram.setEntry t i (s.ram.entry t i ||| parentFlags flags) := ⟨_, rfl⟩
  rw [← hm]
  have hbel : below pageTree s.ram.tables (k + 1) (s.ram.tables t i) = Memory.uses s.ram k c :=
    below_of_target hc
  have honce := h.once t (isTable_self _ _ _)
  have hroot := refs_root_below honce hspan
  rw [hbel] at hroot
  have hpage : ∀ f, f ≠ t → m.page f = s.ram.page f := by
    intro f hf
    rw [hm, page_setEntry_of_ne hf]
  have hagr : ∀ u ∈ Memory.uses s.ram k c, u.isTable → m.page u.frame = s.ram.page u.frame :=
    fun u hu _ => hpage _ (refs_eq_zero.mp hroot u hu)
  have huses : Memory.uses m k c = Memory.uses s.ram k c := uses_congr hagr
  have hle := uses_le_of_target hi hc
  constructor
  case same =>
    rw [hm]
    exact .of_writes (writes_setEntry t i _) honce
  case target =>
    rw [hm, entry_setEntry, if_pos ⟨rfl, rfl⟩, target_or_parentFlags hc]
  case alloc => exact .nil _
  case uses =>
    rw [huses, ← hbel]
    exact (add_zero _).symm
  case leaf =>
    intro q hq
    have hold : pteAt s.ram (k + 1) t (i :: q) = pteAt s.ram k c q := leafAt_cons hc
    rw [hold]
    exact leafAt_congr hq fun u hu htab => tables_of_page (hagr u hu htab)
  case grows => exact fun f hf => ⟨hf, fun ht => hpage f ht⟩
  case apart =>
    intro u hu htab
    have hmem : u ∈ Memory.uses s.ram (k + 1) t := by
      rw [Memory.uses, visit_eq_rest hspan]
      exact mem_add.mpr (.inl hu)
    have htable := isTable_of_mem hmem htab
    refine ⟨h.allocated _ htable, ?_⟩
    -- a table on both sides would be used twice
    rintro ⟨l, hl⟩
    rw [huses] at hl
    have hone := h.once _ htable
    rw [Memory.uses, visit_eq_rest hspan, hbel, refs_add] at hone
    have h1 := refs_pos_of_mem hu
    have h2 := refs_pos_of_mem hl
    simp only [Use.frame_table] at h2
    omega
  case hierarchy =>
    constructor
    · rintro f ⟨l, hl⟩
      rw [huses] at hl ⊢
      exact le_trans (refs_mono hle) (h.once f ⟨l, mem_of_le hle hl⟩)
    · rintro f ⟨l, hl⟩
      rw [huses] at hl
      exact h.allocated f ⟨l, mem_of_le hle hl⟩
    · exact h.size

lemma createNextTable_eq_ok {level : Nat} {fl : Word}
    (hok : createNextTable s level t i fl = .ok (c, s1)) :
    (∃ p, s.ram.entry t i = 0 ∧ s.pmm.allocFrame = some (c, p) ∧
      s1 = ⟨p, (s.ram.zeroPage c).setEntry t i (Pte.setAddr c fl)⟩) ∨
    (s.ram.entry t i ≠ 0 ∧ Pte.target level (s.ram.entry t i) = some c ∧
      s1 = { s with ram := s.ram.setEntry t i (s.ram.entry t i ||| fl) }) := by
  rw [createNextTable] at hok
  split at hok
  · rename_i hzero
    rw [Machine.allocateFrame, Machine.allocFrame] at hok
    cases hall : s.pmm.allocFrame with
    | none => simp [hall] at hok
    | some r =>
      obtain ⟨c', p⟩ := r
      rw [hall] at hok
      obtain ⟨rfl, rfl⟩ : c' = c ∧ _ = s1 := Prod.mk.inj (Except.ok.inj hok)
      exact .inl ⟨p, hzero, rfl, rfl⟩
  rename_i hused
  split at hok
  · simp at hok
  rename_i c' hc
  obtain ⟨rfl, rfl⟩ : c' = c ∧ _ = s1 := Prod.mk.inj (Except.ok.inj hok)
  exact .inr ⟨hused, hc, rfl⟩

lemma createNextTable_cases {flags : Word} (h : Hierarchy (k + 1) s t)
    (hi : i < entryCount (k + 1)) (hfl : Pte.isPresent flags = true)
    (hok : createNextTable s (k + 1) t i (parentFlags flags) = .ok (c, s1)) :
    ∃ N, NextTable k s s1 t i c N := by
  rcases createNextTable_eq_ok hok with ⟨p, hzero, hall, rfl⟩ | ⟨-, hc, rfl⟩
  · exact ⟨_, nextTable_new h hi hfl hzero hall⟩
  · exact ⟨_, nextTable_old h hi hc⟩

/-! ## The whole walk -/

lemma mapped_leaf (h : Hierarchy 0 s t) (hi : i < entryCount 0) (hzero : s.ram.entry t i = 0)
    {f : Nat} (hf : Pte.target 0 e = some f) :
    Mapped 0 s { s with ram := s.ram.setEntry t i e } t [i] e [] := by
  obtain ⟨m, hm⟩ : ∃ m, m = s.ram.setEntry t i e := ⟨_, rfl⟩
  have hw : Writes s.ram.tables m.tables t i e := hm ▸ writes_setEntry t i e
  have honce := h.once t (isTable_self _ _ _)
  rw [← hm]
  constructor
  case alloc => exact .nil _
  case uses =>
    have hset := visit_set_root hw (Finset.mem_range.mpr hi) honce
    have hold : below pageTree s.ram.tables 0 (s.ram.tables t i) = 0 :=
      below_of_none (show Pte.target 0 (s.ram.entry t i) = none by rw [hzero, Pte.target_zero])
    rw [hold, add_zero] at hset
    exact hset.trans (by simp [newTables, below])
  case empty =>
    exact leafAt_of_target_none (show Pte.target 0 (s.ram.entry t i) = none by
      rw [hzero, Pte.target_zero])
  case leaf =>
    intro q hq
    obtain ⟨j, rfl, -⟩ := hq.exists_leaf
    by_cases hj : j = i
    · subst hj
      rw [if_pos rfl]
      exact pteAt_leaf hw.at_cell hf
    · have hcell : m.tables t j = s.ram.tables t j := hw.at_row j hj
      rw [if_neg (by simpa using hj), pteAt, leafAt_zero, hcell, ← leafAt_zero]
  case grows =>
    intro g hg
    refine ⟨hg, fun hW => ?_⟩
    rw [hm, page_setEntry_of_ne]
    rintro rfl
    exact hW (isTable_self _ _ _)
  case high =>
    intro j hj
    have hne : j ≠ i := by omega
    exact hw.at_row j hne

lemma mapLevel_spec {frame : Nat} {flags : Word} (hfrm : frame < 2 ^ 40)
    (hfl : Pte.IsFlags flags) (hflags : Pte.isPresent flags = true) (h : Hierarchy k s t)
    (hpath : InUser k path) (hok : mapLevel frame flags k t path s = .ok s1) :
    ∃ N, Mapped k s s1 t path (Pte.setAddr frame flags) N := by
  induction k generalizing s t path with
  | zero =>
    obtain ⟨i, rfl, hi⟩ := hpath.exists_leaf
    rw [mapLevel] at hok
    split at hok
    · rename_i hzero
      cases hok
      refine ⟨_, mapped_leaf (f := frame) h (Finset.mem_range.mp hi) hzero ?_⟩
      simp [Pte.target, hflags, Pte.addr_setAddr hfrm hfl]
    · simp at hok
  | succ k ih =>
    obtain ⟨i, path, rfl, hi, hpath⟩ := hpath.exists_cons
    rw [mapLevel] at hok
    split at hok
    · simp at hok
    rename_i c s' hnext
    obtain ⟨N, hN⟩ := createNextTable_cases h (Finset.mem_range.mp hi) hflags hnext
    obtain ⟨N', hN'⟩ := ih hN.hierarchy hpath hok
    exact ⟨N ++ N', hN.mapped (Finset.mem_range.mp hi) hN' hpath⟩

lemma referenceMapper_documented : referenceMapper.Documented where
  mapTo hva h hfrm hfl hflags hok := mapLevel_spec hfrm hfl hflags h (inUser_pathOf hva) hok
  unmap {m m' T va frame} hva honce hok := by
    have hok' : referenceUnmap m T va = some (frame, m') := hok
    rw [referenceUnmap] at hok'
    cases hwalk : walkPageTableToPte m T va with
    | none => simp [hwalk] at hok'
    | some c =>
      obtain ⟨hslot, hpte, -⟩ := walk_eq_some hwalk
      rw [hwalk] at hok'
      cases hok'
      exact ⟨_, hpte, rfl, LeafEdit.of_setEntry 0 (inUser_pathOf hva) hslot honce⟩
  translatePage {m T va} _ := by
    show referenceTranslate m T va = _
    rw [referenceTranslate]
    cases hwalk : walkPageTableToPte m T va with
    | none => rw [walk_eq_none hwalk, Option.map_none]
    | some c => rw [(walk_eq_some hwalk).2.1, Option.map_some]

end Indominus.Memory
