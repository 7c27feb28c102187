import Indominus.Sys.Munmap

/-!
# What a new program finds in its records

`sys_exec` keeps the heap range and the regions of the old program, `sys_execve` the regions.
-/

namespace Indominus.Sys

open Lib Lib.Radix Memory

variable {K : Nat → Prop} {exact : Prop} {R : Multiset Nat} {Z : Claims Nat}

variable {M : Mapper} {s s' : Machine} {T top va a : Nat} {flags : Word} {clear : Bool}
  {elf : List Byte}

/-- The addresses that a process has on record: its heap and its regions. -/
def Process.InRecords (p : Process) (a : Nat) : Prop :=
  p.heapStart ≤ a ∧ a < p.heapEnd ∨ Recorded p.mmapRegions a

/-! ## The pages of a new address space -/

def hasPage (m : PhysMem) (T a : Nat) : Bool := (pteAt m 3 T (pathOf a)).isSome

/-- The address is one of the program's own, and its page is mapped. -/
def Mapped (m : PhysMem) (T a : Nat) : Prop := a < USER_SPACE_END ∧ hasPage m T a = true

lemma hasPage_filled {f : Nat} {content : Nat → Byte}
    (h : PageFilled K exact T R Z va f flags content s s') (ha : a < USER_SPACE_END) :
    hasPage s'.ram T a = true ↔ hasPage s.ram T a = true ∨ pathOf a = pathOf va := by
  rw [hasPage, h.leaf _ (inUser_pathOf ha), hasPage]
  split_ifs with heq
  · simp [heq]
  · simp [heq]

lemma mapZeroedPages_mapped {vas : List Nat} (hM : M.Documented)
    (hfam : Family K exact s (T ::ₘ R) Z) (hvas : ∀ va ∈ vas, va < USER_SPACE_END)
    (hfl : StackFlags flags) (hok : mapZeroedPages M clear T flags vas s = .ok (true, s'))
    (ha : a < USER_SPACE_END) :
    Family K exact s' (T ::ₘ R) Z ∧
      (hasPage s'.ram T a = true ↔ hasPage s.ram T a = true ∨
        ∃ va ∈ vas, pathOf a = pathOf va) := by
  induction vas generalizing s with
  | nil =>
    cases hok
    exact ⟨hfam, by simp⟩
  | cons va vas ih =>
    rw [mapZeroedPages] at hok
    split at hok
    · cases hok
    · cases hok
    rename_i s1 hpage
    obtain ⟨f, hfill⟩ := mapZeroedPage_filled hM hfam (hvas va List.mem_cons_self) hfl hpage
    obtain ⟨hfam', hiff⟩ :=
      ih hfill.family (fun va' hva' => hvas va' (List.mem_cons_of_mem _ hva')) hok
    refine ⟨hfam', ?_⟩
    rw [hiff, hasPage_filled hfill ha, or_assoc]
    simp

/-- The addresses of the stack of a new program and of its guard page. -/
def InExecStackArea (top a : Nat) : Prop := top - 5 * PAGE_SIZE ≤ a ∧ a < top

lemma mapExecStack_mapped (hM : M.Documented) (hfam : Family K exact s (T ::ₘ R) Z)
    (htop : Kernel.IsStackTop top) (haligned : top % PAGE_SIZE = 0)
    (hok : mapExecStack M T top s = .ok (true, s')) (ha : a < USER_SPACE_END) :
    hasPage s'.ram T a = true ↔ hasPage s.ram T a = true ∨ InExecStackArea top a := by
  have hlarge := htop.large
  have hpgs : ∀ va ∈ execStackPages top, va < USER_SPACE_END ∧ va % PAGE_SIZE = 0 ∧ va < top := by
    intro va hva
    obtain ⟨i, hi, rfl⟩ := List.mem_map.mp hva
    rw [List.mem_range] at hi
    have hlt : top - 4 * PAGE_SIZE + i * PAGE_SIZE < top := by
      unfold PAGE_SIZE
      omega
    refine ⟨htop.below hlt.le, ?_, hlt⟩
    unfold PAGE_SIZE at haligned ⊢
    omega
  rw [mapExecStack] at hok
  split at hok
  · cases hok
  · cases hok
  rename_i s1 hstk
  obtain ⟨hfam1, hiff⟩ :=
    mapZeroedPages_mapped hM hfam (fun va hva => (hpgs va hva).1) (by decide) hstk ha
  split at hok
  · cases hok
  · cases hok
  rename_i s2 hgd
  cases hok
  have hva : top - 4 * PAGE_SIZE - PAGE_SIZE < USER_SPACE_END := htop.below (by omega)
  obtain ⟨f, hfill⟩ := mapZeroedPage_filled hM hfam1 hva (by decide) hgd
  rw [hasPage_filled hfill ha, hiff, or_assoc]
  refine or_congr_right ?_
  have hguardPage : pathOf a = pathOf (top - 4 * PAGE_SIZE - PAGE_SIZE) ↔
      top - 5 * PAGE_SIZE ≤ a ∧ a < top - 4 * PAGE_SIZE := by
    rw [pathOf_eq_iff_page hva ha (by unfold PAGE_SIZE at haligned ⊢; omega)]
    unfold PAGE_SIZE
    omega
  have hstackPages : (∃ va ∈ execStackPages top, pathOf a = pathOf va) ↔ top - 4 * PAGE_SIZE ≤ a ∧
    a < top := by
    constructor
    · rintro ⟨va, hmem, heq⟩
      obtain ⟨huser, hal, hlt⟩ := hpgs va hmem
      obtain ⟨i, hi, rfl⟩ := List.mem_map.mp hmem
      rw [pathOf_eq_iff_page huser ha hal] at heq
      rw [List.mem_range] at hi
      unfold PAGE_SIZE at *
      omega
    rintro ⟨hlo, hhi⟩
    have hmem : top - 4 * PAGE_SIZE + (a - (top - 4 * PAGE_SIZE)) / PAGE_SIZE * PAGE_SIZE ∈
      execStackPages top := by
      refine List.mem_map.mpr ⟨_, List.mem_range.mpr ?_, rfl⟩
      unfold PAGE_SIZE at *
      omega
    obtain ⟨huser, hal, -⟩ := hpgs _ hmem
    refine ⟨_, hmem, (pathOf_eq_iff_page huser ha hal).mpr ?_⟩
    unfold PAGE_SIZE at *
    omega
  rw [hguardPage, hstackPages, InExecStackArea]
  unfold PAGE_SIZE
  omega

lemma hasPage_fresh (h : FreshPml4 s T) (ha : a < USER_SPACE_END) : hasPage s.ram T a = false := by
  have hspan : pml4Index a ∈ pageTree.span 3 := (inUser_pathOf ha).1
  rw [hasPage, pteAt, pathOf, leafAt_of_target_none, Option.isSome_none]
  rw [h.tables_eq hspan]
  exact Pte.target_zero 3

/-- The addresses of the pages that the loader plans. -/
def InPlan (elf : List Byte) (a : Nat) : Prop :=
  ∃ r ∈ (plan elf).1, r.page ≤ a ∧ a < r.page + PAGE_SIZE

lemma loadElf_mapped {entry : Nat} (hM : M.Documented) (hfam : Family K exact s (T ::ₘ R) Z)
    (hin : LoadContained M elf T s) (hlen : elf.length < 2 ^ 63)
    (hok : loadElf M elf T s = .ok (entry, s')) (ha : a < USER_SPACE_END) :
    Family K exact s' (T ::ₘ R) Z ∧ (hasPage s'.ram T a = true ↔ hasPage s.ram T a = true ∨
      InPlan elf a) := by
  obtain ⟨hfill, -⟩ := loadElf_eq_ok.mp hok
  have hrds := fills_of_fillPages hfill
  obtain ⟨s'', hfilled, hend⟩ := fills_filled hM hfam (fun r hr => checked_of_mem_plan hlen hr) hin
  obtain rfl := hend s' hfill
  refine ⟨hfilled.family, ?_⟩
  -- the fills are the rounds of the plan, with their frames
  have hplan : InPlan elf a ↔ ∃ f ∈ fills M elf T (plan elf).1 s, pathOf f.page = pathOf a := by
    have hrd : ∀ r ∈ (plan elf).1, (r.page ≤ a ∧ a < r.page + PAGE_SIZE) ↔
      pathOf r.page = pathOf a := by
      intro r hr
      have hchk := checked_of_mem_plan hlen hr
      rw [eq_comm, pathOf_eq_iff_page hchk.user ha hchk.aligned]
    constructor
    · rintro ⟨r, hr, hin⟩
      rw [← hrds, List.mem_map] at hr
      obtain ⟨f, hf, rfl⟩ := hr
      exact ⟨f, hf, (hrd _ (toPageRound_mem hf)).mp hin⟩
    · rintro ⟨f, hf, heq⟩
      exact ⟨f.toPageRound, toPageRound_mem hf, (hrd _ (toPageRound_mem hf)).mpr heq⟩
  rw [hplan]
  by_cases hmem : ∃ f ∈ fills M elf T (plan elf).1 s, pathOf f.page = pathOf a
  · obtain ⟨f, hf, heq⟩ := hmem
    refine iff_of_true ?_ (.inr ⟨f, hf, heq⟩)
    rw [hasPage, ← heq, hfilled.leaf f hf, Option.isSome_some]
  have hkept := hfilled.kept (pathOf a) (inUser_pathOf ha) fun f hf heq => hmem ⟨f, hf, heq⟩
  rw [hasPage, hkept, hasPage]
  exact ⟨.inl, fun h => h.resolve_right hmem⟩

lemma PokedLow.hasPage_eq (h : PokedLow K exact T R Z s s') (ha : a < USER_SPACE_END) :
    hasPage s'.ram T a = hasPage s.ram T a := by
  -- the stores are at the beginning of pages, so the ninth byte of the page is the same
  have hlt : a / PAGE_SIZE * PAGE_SIZE + 8 < USER_SPACE_END := by
    unfold USER_SPACE_END PAGE_SIZE at *
    omega
  have hpath : pathOf a = pathOf (a / PAGE_SIZE * PAGE_SIZE + 8) := by
    rw [pathOf_eq_iff ha hlt]
    unfold PAGE_SIZE
    omega
  have hview : ∀ m, hasPage m T a = (Memory.view m T (a / PAGE_SIZE * PAGE_SIZE + 8)).isSome := by
    intro m
    rw [Memory.view, Option.isSome_map, ← hpath, hasPage]
  rw [hview, hview, h.view _ hlt]
  unfold PAGE_SIZE
  omega

namespace Kernel

variable {k k' : Kernel} {pid : Pid} {p p' : Process} {file : BytesResult}
  {pml4 entry : Nat}
  {prng : Word}

/-- The addresses that the image of a file has, with the stack below `top`. -/
def InImage (elf : List Byte) (top a : Nat) : Prop := InPlan elf a ∨ InExecStackArea top a

lemma Rebuilt.mapped (hM : M.Documented) (hfam : Family K exact k.machine (p.pml4Phys ::ₘ R) 0)
    (hcur : k.current = some (pid, p)) (hfile : k.FileContained M k.kernelPml4 (.ok elf))
    (hlen : elf.length < 2 ^ 63)
    (hblt : Rebuilt M k.closeOnExec elf p.pml4Phys pml4 entry top prng s)
    (ha : a < USER_SPACE_END) :
    hasPage s.ram pml4 a = true ↔ InImage elf k.randomizeStackBase.1 a := by
  obtain ⟨htop, hstackTop, hal, -, -⟩ := execStack_clear hM hfam hcur hfile hblt
  rw [← htop]
  clear htop
  obtain ⟨-, s3, hbd, hfree⟩ := hblt
  obtain ⟨s1, s2, s3', prng', hcr, hload, hrand, hstk, heq⟩ := buildImage_ok hbd
  obtain rfl : s3 = s3' := congrArg machine heq
  have hfam0 : Family K exact k.closeOnExec.machine (p.pml4Phys ::ₘ R) 0 := by
    rw [machine_closeOnExec hcur]
    exact hfam
  have hin := (fileContained_closeOnExec hcur).mpr hfile _ _ _ rfl hcr
  have hld := loadElf_mapped hM (Building.start hfam0 hcr).family hin hlen hload ha
  have hfr : FreshPml4 s1 pml4 := ((createUserPml4_outcome hfam0.own _).ok _ hcr).lower
  have hram : s.ram = s3.ram := by
    have hfam3 := (mapExecStack_view hM hld.1 hstackTop hal hstk).1
    rw [Multiset.cons_swap] at hfam3
    obtain ⟨p', hfree', -⟩ := hfam3.free
    rw [← Except.ok.inj (hfree'.symm.trans hfree)]
  rw [hram, mapExecStack_mapped hM hld.1 hstackTop hal hstk ha, hld.2,
    hasPage_fresh hfr ha, InImage]
  simp

/-! ## The calls -/

inductive ExecCall
  | exec
  | execve (argv : List (List Byte))

def ExecCall.run (M : Mapper) (k : Kernel) (file : BytesResult) :
    ExecCall → CallOutcome
  | .exec => k.sysExec M file
  | .execve argv => k.sysExecve M file argv

/-- The records that a call leaves as they are: `sys_execve` resets the heap. -/
def ExecCall.Keeps (p : Process) (a : Nat) : ExecCall → Prop
  | .exec => p.InRecords a
  | .execve _ => Recorded p.mmapRegions a

lemma inRecords_afterCloexec : (afterCloexec p).InRecords a ↔ p.InRecords a := by
  obtain ⟨fds, handles, heq⟩ := afterCloexec_eq p
  rw [heq]
  rfl

lemma sysExec_ok (hcur : k.current = some (pid, p)) (hok : k.sysExec M file = .ok (.ok 0, k')) :
    ∃ elf pml4 entry top prng s p', file = .ok elf ∧
      Rebuilt M k.closeOnExec elf p.pml4Phys pml4 entry top prng s ∧ k'.machine = s ∧
      k'.procs pid = some p' ∧ p'.pml4Phys = pml4 ∧ ∀ a, p'.InRecords a ↔ p.InRecords a := by
  obtain ⟨k0, p0, s, prng, hk0, hp0, -,
    ⟨-, ⟨e, he⟩, -⟩ | ⟨elf, pml4, entry, top, rfl, hblt, -, rfl⟩⟩ :=
    sysExec_result hcur hok
  · cases he
  rw [hk0, hp0, pml4Phys_afterCloexec] at hblt
  refine ⟨elf, pml4, entry, top, prng, s, _, rfl, hblt, rfl, Function.update_self .., rfl,
    fun a => ?_⟩
  rw [← inRecords_afterCloexec (p := p), ← hp0]
  rfl

lemma ExecCall.run_ok (c : ExecCall) (hM : M.Documented)
    (hfam : Family K exact k.machine (p.pml4Phys ::ₘ R) 0) (hcur : k.current = some (pid, p))
    (hfile : k.FileContained M k.kernelPml4 file) (hok : c.run M k file = .ok (.ok 0, k')) :
    ∃ elf p', file = .ok elf ∧ k'.procs pid = some p' ∧ (∀ a, p'.InRecords a ↔ c.Keeps p a) ∧
      (elf.length < 2 ^ 63 → ∀ a < USER_SPACE_END,
        (hasPage k'.machine.ram p'.pml4Phys a = true ↔ InImage elf k.randomizeStackBase.1 a)) := by
  cases c with
  | exec =>
    obtain ⟨elf, pml4, entry, top, prng, s, p', rfl, hblt, hmac, hproc, hpml4, hrecords⟩ :=
      sysExec_ok hcur hok
    refine ⟨elf, p', rfl, hproc, hrecords, fun hlen a ha => ?_⟩
    rw [hmac, hpml4, hblt.mapped hM hfam hcur hfile hlen ha]
  | execve argv =>
    obtain ⟨elf, pml4, entry, top, prng, s, p', rfl, hblt, hbs, hmac, hproc, hpml4, -, hst, hend,
      hreg⟩ := sysExecve_ok hcur hok
    refine ⟨elf, p', rfl, hproc, fun a => ?_, fun hlen a ha => ?_⟩
    · rw [Process.InRecords, hst, hend, hreg, Keeps]
      exact or_iff_right fun h => absurd h.2 (not_lt.mpr h.1)
    obtain ⟨-, htop, -, hfam', -⟩ := execStack_clear hM hfam hcur hfile hblt
    rw [hmac, hpml4, (pokeArgv_low hM hfam' htop hbs).hasPage_eq ha,
      hblt.mapped hM hfam hcur hfile hlen ha]

lemma InImage.user (hlen : elf.length < 2 ^ 63) (htop : IsStackTop top) (h : InImage elf top a) :
    a < USER_SPACE_END := by
  rcases h with ⟨r, hr, -, hlt⟩ | ⟨-, hlt⟩
  · have hchk := checked_of_mem_plan hlen hr
    have huser := hchk.user
    have hal := hchk.aligned
    unfold USER_SPACE_END PAGE_SIZE at *
    omega
  · exact htop.below_of_lt hlt

/-- **What is on record after an exec** is mapped exactly if the new program happens to have pages
there. -/
theorem exec_records_iff {c : ExecCall} (hM : M.Documented)
    (hfam : Family K exact k.machine (p.pml4Phys ::ₘ R) 0) (hcur : k.current = some (pid, p))
    (hfile : k.FileContained M k.kernelPml4 (.ok elf)) (hlen : elf.length < 2 ^ 63)
    (hok : c.run M k (.ok elf) = .ok (.ok 0, k')) :
    (∃ p', k'.procs pid = some p' ∧ ∀ a, p'.InRecords a → Mapped k'.machine.ram p'.pml4Phys a) ↔
      ∀ a, c.Keeps p a → InImage elf k.randomizeStackBase.1 a := by
  obtain ⟨elf', p', helf, hproc, hrecords, hpgs⟩ := c.run_ok hM hfam hcur hfile hok
  cases helf
  have hmap : ∀ a, Mapped k'.machine.ram p'.pml4Phys a ↔ InImage elf k.randomizeStackBase.1 a := by
    intro a
    constructor
    · rintro ⟨ha, hpage⟩
      exact (hpgs hlen a ha).mp hpage
    intro hin
    obtain ⟨top, prng, hrand, htop⟩ := randomizeStackBase_cases k
    have ha : a < USER_SPACE_END := hin.user hlen (by rw [hrand]; exact htop)
    exact ⟨ha, (hpgs hlen a ha).mpr hin⟩
  constructor
  · rintro ⟨q, hq, hall⟩ a ha
    cases hproc.symm.trans hq
    exact (hmap a).mp (hall a ((hrecords a).mpr ha))
  · intro hall
    exact ⟨p', hproc, fun a ha => (hmap a).mpr (hall a ((hrecords a).mp ha))⟩

/-- A process whose heap is the page at 4 MiB. -/
def heapUser : Process := { loneUser with heapStart := 0x400000, heapEnd := 0x401000 }

/-- The new program has a page where the heap of the process was. -/
theorem exec_records_iff_heap : ∃ k' p', heapUser.InRecords 0x400000 ∧
    ExecCall.exec.run referenceMapper (running heapUser firstSpace.2) (.ok tinyElf) =
      .ok (.ok 0, k') ∧ k'.procs initSlot = some p' ∧
    ∀ a, p'.InRecords a → Mapped k'.machine.ram p'.pml4Phys a := by
  have hmt : meets (ExecCall.exec.run referenceMapper (running heapUser firstSpace.2) (.ok tinyElf))
      (fun x => x.1 == .ok 0) = true := by
    decide +kernel
  obtain ⟨⟨r, k'⟩, hok, hr⟩ := exists_of_meets hmt
  obtain rfl : r = .ok 0 := by simpa using hr
  have hcur : (running heapUser firstSpace.2).current = some (initSlot, heapUser) := rfl
  have hpage : ∃ r ∈ (plan tinyElf).1, r.page = 0x400000 := by decide +kernel
  obtain ⟨r, hr, hpage⟩ := hpage
  obtain ⟨p', hp', hmap⟩ := (exec_records_iff referenceMapper_documented firstSpace_family hcur
    (fileContained_of_plan (by decide +kernel)) (by decide +kernel) hok).mpr (by
      rintro a (hheap | ⟨region, hregion, -⟩)
      · refine .inl ⟨r, hr, ?_⟩
        rw [hpage]
        exact hheap
      · cases hregion)
  exact ⟨k', p', .inl (by decide), hok, hp', hmap⟩

/-- Init asks for a page and replaces itself: the page is still on record, and it is gone. -/
theorem exec_keeps_region : ∃ k pid p, Runs referenceMapper (fun _ _ => True) emptyKernel k ∧
    k.current = some (pid, p) ∧ ∀ c ∈ [ExecCall.exec, ExecCall.execve []], ∃ k' p',
      c.run referenceMapper k (.ok tinyElf) = .ok (.ok 0, k') ∧ k'.procs pid = some p' ∧
      ¬ ∀ a, p'.InRecords a → Mapped k'.machine.ram p'.pml4Phys a := by
  have hpl : plays referenceMapper (fun _ _ => True)
    (bootEvents ++ [.syscall 0x1000 ⟨0, 0, 0⟩ (.mmap 4096)])
      emptyKernel (fun k => k.current.any fun cur => [ExecCall.exec,
        ExecCall.execve []].all fun c =>
        meets (c.run referenceMapper k (.ok tinyElf)) fun x =>
        x.1 == .ok 0 && (x.2.procs cur.1).any fun p' =>
          p'.mmapRegions.any fun r =>
          decide (0 < r.2) && !hasPage x.2.machine.ram p'.pml4Phys r.1) = true := by
    decide +kernel
  obtain ⟨k, hrun, htest⟩ := runs_of_plays hpl
  rw [Option.any_eq_true] at htest
  obtain ⟨⟨pid, p⟩, hcur, htest⟩ := htest
  refine ⟨k, pid, p, hrun, hcur, fun c hc => ?_⟩
  obtain ⟨⟨r, k'⟩, hok, htest⟩ := exists_of_meets (List.all_eq_true.mp htest c hc)
  simp only [Bool.and_eq_true, beq_iff_eq, Option.any_eq_true, List.any_eq_true, decide_eq_true_eq,
    Bool.not_eq_true'] at htest
  obtain ⟨rfl, p', hp', region, hregion, hpos, hgone⟩ := htest
  refine ⟨k', p', hok, hp', fun hall => ?_⟩
  have hfst : p'.InRecords region.1 := by
    refine .inr ⟨region, hregion, le_refl _, ?_⟩
    rw [regionEnd]
    exact Nat.lt_add_of_pos_right (Nat.mul_pos hpos (by decide))
  rw [(hall _ hfst).2] at hgone
  cases hgone

end Kernel

end Indominus.Sys
