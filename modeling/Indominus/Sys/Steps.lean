import Indominus.Sys.Run

/-!
# What each operation can do

One inversion lemma for every operation of `Kernel.Op`.
-/

namespace Indominus.Sys.Kernel

open Lib Memory Except

variable {M : Mapper} {k k' : Kernel} {pid : Pid} {p : Process}

/-! ## The running process -/

lemma current_eq_some :
    k.current = some (pid, p) ↔ k.currentPid = some pid ∧ k.procs pid = some p := by
  rw [current]
  cases h : k.currentPid with
  | none => simp
  | some q =>
    simp only [Option.map_eq_some_iff, Prod.mk.injEq, Option.some.injEq]
    constructor
    · rintro ⟨p', hp', rfl, rfl⟩
      exact ⟨rfl, hp'⟩
    · rintro ⟨rfl, hp⟩
      exact ⟨p, hp, rfl, rfl⟩

lemma procs_of_current (h : k.current = some (pid, p)) : k.procs pid = some p :=
  (current_eq_some.mp h).2

lemma userRunning_iff :
    k.userRunning = true ↔ ∃ pid p, k.current = some (pid, p) ∧ p.isUser = true := by
  rw [userRunning]
  cases h : k.current with
  | none => simp
  | some r =>
    obtain ⟨pid, p⟩ := r
    simp

lemma map_snd_eq_ok {α : Type} {r : Except Panic (α × Kernel)} :
    r.map Prod.snd = .ok k' ↔ ∃ a, r = .ok (a, k') := by
  cases r with
  | error e => simp [Except.map]
  | ok x => simp [Except.map, Prod.ext_iff, eq_comm]

lemma ok_snd_inj {α : Type} {a b : α} {k k' : Kernel}
    (h : (ok (a, k) : Except Panic (α × Kernel)) = .ok (b, k')) : k = k' :=
  congrArg Prod.snd (ok.inj h)

lemma setProc_self (h : k.procs pid = some p) : k.setProc pid (some p) = k := by
  rw [setProc, ← h, Function.update_eq_self]

/-! ## Memory calls -/

/-- What the memory calls do to the kernel: a new machine, new bounds of the heap, new regions,
and a random number drawn. -/
def Remapped (k : Kernel) (pid : Pid) (p : Process)
    (R : Machine → (heapEnd : Nat) → (regions : List (Nat × Nat)) → Prop) (k' : Kernel) : Prop :=
  ∃ s prng heapStart heapEnd regions, R s heapEnd regions ∧
    k' = { k with machine := s, prng := prng }.setProc pid
      (some { p with heapStart := heapStart, heapEnd := heapEnd, mmapRegions := regions })

/-- What `sys_brk` does to memory and to the end of the heap. -/
inductive BrkEffect (M : Mapper) (s : Machine) (p : Process) (newBrk : Nat) :
    Machine → (heapEnd : Nat) → (regions : List (Nat × Nat)) → Prop
  | keep {e : Nat} (he : e = p.heapEnd ∨ e ≤ BRK_MAX) : BrkEffect M s p newBrk s e p.mmapRegions
  | grow {start n e : Nat} {s' : Machine} (hstart : start = p.heapEnd ∨ start ≤ BRK_MAX)
      (hmax : newBrk ≤ BRK_MAX) (h : growHeap M p.pml4Phys newBrk n start s = .ok (e, s')) :
      BrkEffect M s p newBrk s' e p.mmapRegions
  | shrink {n : Nat} {s' : Machine} (hmax : newBrk ≤ BRK_MAX)
      (h : shrinkHeap M p.pml4Phys p.heapEnd n newBrk s = .ok s') :
      BrkEffect M s p newBrk s' newBrk p.mmapRegions

lemma initHeap_cases (k : Kernel) (p : Process) :
    ∃ prng a b, k.initHeap p = ({ p with heapStart := a, heapEnd := b }, { k with prng := prng }) ∧
      (a = p.heapStart ∧ b = p.heapEnd ∨ a = b ∧ b ≤ BRK_MAX) := by
  rw [initHeap]
  split
  · refine ⟨_, _, _, rfl, .inr ⟨rfl, ?_⟩⟩
    simp only [USER_HEAP_BASE, BRK_MAX]
    omega
  · exact ⟨k.prng, p.heapStart, p.heapEnd, rfl, .inl ⟨rfl, rfl⟩⟩

lemma sysBrk_cases {newBrk : Nat} {r : SysResult} (hcur : k.current = some (pid, p))
    (h : k.sysBrk M newBrk = .ok (r, k')) :
    Remapped k pid p (BrkEffect M k.machine p newBrk) k' := by
  obtain ⟨prng, a, b, hinit, hab⟩ := initHeap_cases k p
  have hb : b = p.heapEnd ∨ b ≤ BRK_MAX := hab.imp And.right And.right
  -- the outcomes that leave memory alone
  have hkeep : ∀ r', (r', ({ k with prng := prng } : Kernel).setProc pid
      (some { p with heapStart := a, heapEnd := b })) = (r, k') →
      Remapped k pid p (BrkEffect M k.machine p newBrk) k' := fun r' hr =>
    ⟨k.machine, prng, a, b, p.mmapRegions, .keep hb, (congrArg Prod.snd hr).symm⟩
  simp only [sysBrk, hcur, hinit] at h
  split at h
  · exact hkeep _ (ok.inj h)
  split at h
  · exact hkeep _ (ok.inj h)
  split at h
  · exact hkeep _ (ok.inj h)
  split at h
  · split at h
    · simp at h
    rename_i addr s hgrow
    refine ⟨s, prng, a, addr, p.mmapRegions, .grow hb (by omega) hgrow, ?_⟩
    exact (ok_snd_inj h).symm.trans (by simp [setProc])
  split at h
  · split at h
    · simp at h
    rename_i hlt s hshr
    -- a heap that has just been placed is empty and cannot shrink
    obtain rfl : b = p.heapEnd := by omega
    refine ⟨s, prng, a, newBrk, p.mmapRegions, .shrink (by omega) hshr, ?_⟩
    exact (ok_snd_inj h).symm.trans (by simp [setProc])
  · exact hkeep _ (ok.inj h)

/-- What `sys_mmap` does to memory and to the regions. -/
inductive MmapEffect (M : Mapper) (s : Machine) (p : Process) (length : Nat) :
    Machine → (heapEnd : Nat) → (regions : List (Nat × Nat)) → Prop
  | keep : MmapEffect M s p length s p.heapEnd p.mmapRegions
  | map {start base : Nat} {b : Bool} {s' : Machine} (hstart : start ≤ 2 ^ 46)
      (hfind : findRegion M s p.pml4Phys (pagesFor length) p.mmapRegions searchFuel start =
        .ok (some base))
      (h : mapRegion M p.pml4Phys base (pagesFor length) 0 s = .ok (b, s')) :
      MmapEffect M s p length s' p.heapEnd
        (if b then p.mmapRegions ++ [(base, pagesFor length)] else p.mmapRegions)

lemma sysMmap_cases {length : Nat} {r : SysResult} (hcur : k.current = some (pid, p))
    (h : k.sysMmap M length = .ok (r, k')) :
    Remapped k pid p (MmapEffect M k.machine p length) k' := by
  have hself : ∀ prng s, ({ k with machine := s, prng := prng } : Kernel).setProc pid (some p) =
      { k with machine := s, prng := prng } := fun prng s =>
    setProc_self (procs_of_current hcur)
  have hkeep : ∀ r' prng, (r', ({ k with prng := prng } : Kernel)) = (r, k') →
      Remapped k pid p (MmapEffect M k.machine p length) k' := fun r' prng hr =>
    ⟨k.machine, prng, p.heapStart, p.heapEnd, p.mmapRegions, .keep,
      (congrArg Prod.snd hr).symm.trans (hself prng k.machine).symm⟩
  simp only [sysMmap, hcur, randomizeMmapBase, randomPageOffset] at h
  split at h
  · exact hkeep _ k.prng (ok.inj h)
  split at h
  · exact hkeep _ k.prng (ok.inj h)
  split at h
  · exact hkeep _ k.prng (ok.inj h)
  have hst : USER_MMAP_BASE + (nextU64 k.prng).toNat % 32 * 4096 ≤ 2 ^ 46 := by
    simp only [USER_MMAP_BASE]
    omega
  split at h
  · simp at h
  · exact hkeep _ (nextU64 k.prng) (ok.inj h)
  rename_i base hfind
  split at h
  · simp at h
  · rename_i s hmap
    refine ⟨s, nextU64 k.prng, p.heapStart, p.heapEnd, p.mmapRegions,
      .map hst hfind hmap, ?_⟩
    exact (ok_snd_inj h).symm.trans (hself _ s).symm
  rename_i s hmap
  refine ⟨s, nextU64 k.prng, p.heapStart, p.heapEnd, _, .map hst hfind hmap, ?_⟩
  exact (ok_snd_inj h).symm

/-- What `sys_munmap` does to memory and to the regions. -/
inductive MunmapEffect (M : Mapper) (s : Machine) (p : Process) :
    Machine → (heapEnd : Nat) → (regions : List (Nat × Nat)) → Prop
  | keep : MunmapEffect M s p s p.heapEnd p.mmapRegions
  | unmap {i base pages : Nat} {s' : Machine} (hmem : (base, pages) ∈ p.mmapRegions)
      (h : unmapRegion M p.pml4Phys base pages 0 s = .ok s') :
      MunmapEffect M s p s' p.heapEnd (p.mmapRegions.eraseIdx i)

lemma findContaining_mem {addr end_ i base pages : Nat} {regions : List (Nat × Nat)} {j : Nat}
    (h : findContaining addr end_ regions j = some (i, base, pages)) : (base, pages) ∈ regions := by
  induction regions generalizing j with
  | nil => simp [findContaining] at h
  | cons r rs ih =>
    rw [findContaining] at h
    split at h
    · simp only [Option.some.injEq, Prod.mk.injEq] at h
      simp [← h.2.1, ← h.2.2]
    · exact List.mem_cons_of_mem _ (ih h)

lemma sysMunmap_cases {addr length : Nat} {r : SysResult} (hcur : k.current = some (pid, p))
    (h : k.sysMunmap M addr length = .ok (r, k')) :
    Remapped k pid p (MunmapEffect M k.machine p) k' := by
  have hkeep : ∀ r', (r', k) = (r, k') → Remapped k pid p (MunmapEffect M k.machine p) k' :=
    fun r' hr => ⟨k.machine, k.prng, p.heapStart, p.heapEnd, p.mmapRegions, .keep,
      (congrArg Prod.snd hr).symm.trans (setProc_self (procs_of_current hcur)).symm⟩
  simp only [sysMunmap, hcur] at h
  split at h
  · exact hkeep _ (ok.inj h)
  split at h
  · exact hkeep _ (ok.inj h)
  rename_i i base pages hfind
  split at h
  · simp at h
  rename_i s hunm
  exact ⟨s, k.prng, p.heapStart, p.heapEnd, _, .unmap (findContaining_mem hfind) hunm,
    (ok_snd_inj h).symm⟩

/-! ## Building a process image -/

/-- A stack top that `randomize_stack_base` can return. -/
def IsStackTop (top : Nat) : Prop := top ≤ USER_STACK_TOP ∧ USER_STACK_TOP - 2 ^ 16 ≤ top

lemma randomizeStackBase_cases (k : Kernel) :
    ∃ top prng, k.randomizeStackBase = (top, { k with prng := prng }) ∧ IsStackTop top := by
  refine ⟨_, _, rfl, ?_⟩
  constructor <;> simp only [USER_STACK_TOP] <;> omega

/-- The image and the stack were built in the tables of `pml4`, or up to a failure that is not a
panic. -/
inductive ImageBuild (M : Mapper) (mapStack : Nat → Machine → Except Panic (Bool × Machine))
    (elf : List Byte) (pml4 : Nat) (s : Machine) : Bool → Machine → Prop
  | badElf {e : ElfError} {s' : Machine} (h : loadElf M elf pml4 s = .error (.fail e s')) :
      ImageBuild M mapStack elf pml4 s false s'
  | stack {entry top : Nat} {b : Bool} {s₁ s' : Machine}
      (h : loadElf M elf pml4 s = .ok (entry, s₁))
      (htop : IsStackTop top) (hs : mapStack top s₁ = .ok (b, s')) :
      ImageBuild M mapStack elf pml4 s b s'

/-- The record of a process that `spawn_user` has just made. -/
structure IsSpawned (p : Process) (pml4 : Nat) : Prop where
  pml4Phys : p.pml4Phys = pml4
  savedCr3 : p.savedCr3 = 0
  isUser : p.isUser = true
  state : p.state = .ready
  heapEnd : p.heapEnd = 0
  mmapRegions : p.mmapRegions = []
  noPipes : ∀ fd, pipeOp (p.fdTypes fd) = none

lemma freeSlot_cases {slot : Pid} (h : k.freeSlot = some slot) :
    k.procs slot = none ∧ slot.val ≠ 0 := by
  have := List.find?_some h
  simpa [and_comm] using this

lemma spawnUserSlot_cases (k : Kernel) (userRip userRsp pml4 : Nat) (parent stack : Option Nat) :
    ∃ gens, (k.spawnUserSlot userRip userRsp pml4 parent stack).2 = { k with generations := gens } ∨
      ∃ slot p, k.procs slot = none ∧ slot.val ≠ 0 ∧ IsSpawned p pml4 ∧
        (k.spawnUserSlot userRip userRsp pml4 parent stack).2 =
          { k with generations := gens }.setProc slot (some p) := by
  unfold spawnUserSlot
  split
  · exact ⟨k.generations, .inl rfl⟩
  rename_i slot hslot
  obtain ⟨hnone, hpos⟩ := freeSlot_cases hslot
  cases stack with
  | none => exact ⟨_, .inl rfl⟩
  | some stackBase =>
    refine ⟨_, .inr ⟨slot, _, hnone, hpos, ?_, rfl⟩⟩
    refine ⟨rfl, rfl, rfl, rfl, rfl, rfl, fun fd => ?_⟩
    simp only [Process.newUser]
    split_ifs <;> rfl

/-- Can an image be built from the file on the page table of `src`, with the frames that are
free? -/
def builds (M : Mapper) (mapStack : (pml4 top : Nat) → Machine → Except Panic (Bool × Machine))
    (k : Kernel) (src : Nat) (elf : List Byte) : Bool :=
  match createUserPml4 k.machine src with
  | .error _ => false
  | .ok (pml4, s) =>
    match loadElf M elf pml4 s with
    | .error _ => false
    | .ok (_, s) =>
      match mapStack pml4 k.randomizeStackBase.1 s with
      | .error _ => false
      | .ok (built, _) => built

lemma discard_eq_ok {s : Machine} {pml4 : Nat} (h : k.discard s pml4 = .ok k') :
    ∃ s', freeUserAddressSpace s pml4 = .ok s' ∧ k' = { k with machine := s' } := by
  unfold discard at h
  split at h
  · cases h
  · exact ⟨_, ‹_›, (ok.inj h).symm⟩

lemma spawnUser_cases {elf : List Byte} {parent stack : Option Nat} {r : Option Pid}
    (h : k.spawnUser M elf parent stack = .ok (r, k')) :
    ∃ pml4 s1 b s2 prng, createUserPml4 k.machine k.cr3 = .ok (pml4, s1) ∧
      ImageBuild M (mapSpawnStack M pml4) elf pml4 s1 b s2 ∧
        k.builds M (mapSpawnStack M) k.cr3 elf = b ∧
      ((b = false ∧ r = none ∧ ∃ s3, freeUserAddressSpace s2 pml4 = .ok s3 ∧
          k' = { k with machine := s3, prng := prng }) ∨
        (b = true ∧
        ∃ rip rsp, ({ k with machine := s2, prng := prng } : Kernel).spawnUserSlot rip rsp
          pml4 parent stack = (r, k'))) := by
  obtain ⟨top, prng, hrand, htop⟩ := randomizeStackBase_cases k
  simp only [spawnUser, hrand] at h
  split at h
  · cases h
  rename_i pml4 s1 hcr
  split at h
  · cases h
  · rename_i e s2 hload
    split at h
    · cases h
    rename_i k1 hdiscard
    obtain ⟨s3, hfree, rfl⟩ := discard_eq_ok hdiscard
    cases h
    exact ⟨pml4, s1, false, s2, k.prng, hcr, .badElf hload, by simp only [builds, hcr, hload],
      .inl ⟨rfl, rfl, s3, hfree, rfl⟩⟩
  rename_i entry s2 hload
  split at h
  · cases h
  · rename_i s3 hstk
    split at h
    · cases h
    rename_i k1 hdiscard
    obtain ⟨s4, hfree, rfl⟩ := discard_eq_ok hdiscard
    cases h
    exact ⟨pml4, s1, false, s3, prng, hcr, .stack hload htop hstk,
      by simp only [builds, hcr, hload, hrand, hstk], .inl ⟨rfl, rfl, s4, hfree, rfl⟩⟩
  rename_i s3 hstk
  exact ⟨pml4, s1, true, s3, prng, hcr, .stack hload htop hstk,
    by simp only [builds, hcr, hload, hrand, hstk], .inr ⟨rfl, entry, top - 8, ok.inj h⟩⟩

/-! ## `sys_fork` -/

lemma sysFork_cases {stack extraStack : Option Nat} {r : SysResult}
    (hcur : k.current = some (pid, p)) (h : k.sysFork stack extraStack = .ok (r, k')) :
    ∃ child s1 b s2, createUserPml4 k.machine k.kernelPml4 = .ok (child, s1) ∧
      copyUserPages s1 p.pml4Phys child = .ok (b, s2) ∧
      (k' = { k with machine := s2 } ∨
        b = true ∧ ∃ slot stackBase, k.freeSlot = some slot ∧ stack = some stackBase ∧
          k' = { k with machine := s2, pipes := retainAll k.pipes p.fdTypes }.setProc slot
            (some (forkChild p pid slot child stackBase))) := by
  simp only [sysFork, hcur] at h
  split at h
  · simp at h
  rename_i child s1 hcr
  split at h
  · simp at h
  · rename_i s2 hcopy
    exact ⟨child, s1, false, s2, hcr, hcopy, .inl (ok_snd_inj h).symm⟩
  rename_i s2 hcopy
  refine ⟨child, s1, true, s2, hcr, hcopy, ?_⟩
  split at h
  · exact .inl (ok_snd_inj h).symm
  rename_i stackBase
  have hins := ok_snd_inj h
  split at hins
  · exact .inl hins.symm
  rename_i slot hslot
  split at hins
  · exact .inl hins.symm
  · exact .inr ⟨rfl, slot, stackBase, hslot, rfl, hins.symm⟩

/-! ## `sys_exec` and `sys_execve` -/

/-- The running process after the close-on-exec loop. -/
def afterCloexec (p : Process) : Process := (List.finRange MAX_FDS).foldl cloexecStep p

lemma foldl_cloexecStep_eq (l : List Fd) (p : Process) :
    ∃ fds handles, l.foldl cloexecStep p = { p with fdTypes := fds, fileHandles := handles } := by
  induction l generalizing p with
  | nil => exact ⟨p.fdTypes, p.fileHandles, rfl⟩
  | cons fd l ih =>
    obtain ⟨fds, handles, hih⟩ := ih (cloexecStep p fd)
    refine ⟨fds, handles, hih.trans ?_⟩
    rw [cloexecStep]
    split <;> rfl

lemma afterCloexec_eq (p : Process) :
    ∃ fds handles, afterCloexec p = { p with fdTypes := fds, fileHandles := handles } :=
  foldl_cloexecStep_eq _ p

section

variable (hcur : k.current = some (pid, p))

include hcur

lemma closeOnExec_eq :
    k.closeOnExec =
      { k.setProc pid (some (afterCloexec p)) with
        pipes := closePipes k.pipes ((List.finRange MAX_FDS).filterMap fun fd =>
          if closesOnExec p fd then pipeOp (p.fdTypes fd) else none) } := by
  simp only [closeOnExec, hcur, setProc, afterCloexec]

lemma closeOnExec_current : k.closeOnExec.current = some (pid, afterCloexec p) := by
  rw [closeOnExec_eq hcur, current_eq_some]
  exact ⟨(current_eq_some.mp hcur).1, by simp [setProc]⟩

lemma closeOnExec_of_none (hnone : ∀ fd, closesOnExec p fd = false) :
    k.closeOnExec = k ∧ afterCloexec p = p := by
  have haft : afterCloexec p = p := by
    rw [afterCloexec]
    generalize List.finRange MAX_FDS = l
    induction l with
    | nil => rfl
    | cons fd l ih =>
      rw [List.foldl_cons, cloexecStep, hnone fd]
      exact ih
  refine ⟨?_, haft⟩
  have hops : (List.finRange MAX_FDS).filterMap (fun fd =>
      if closesOnExec p fd then pipeOp (p.fdTypes fd) else none) = [] := by
    simp [hnone]
  rw [closeOnExec_eq hcur, haft, hops, setProc_self (procs_of_current hcur)]
  rfl

lemma reloadCr3_eq : k.reloadCr3 = .ok { k with cr3 := p.pml4Phys } := by
  simp only [reloadCr3, hcur]

end

lemma reloadCr3_setProc (hpid : k.currentPid = some pid) :
    (k.setProc pid (some p)).reloadCr3 =
      .ok { k.setProc pid (some p) with cr3 := p.pml4Phys } :=
  reloadCr3_eq (current_eq_some.mpr ⟨hpid, by simp [setProc]⟩)

variable {file : BytesResult} {elf : List Byte} {argv : List (List Byte)} {s : Machine}
  {r : SysResult}
  {old pml4 entry top : Nat}

/-- Is there a file, and can the exec calls build an image from it? -/
def execFits (M : Mapper) (k : Kernel) (file : BytesResult) : Bool :=
  match file with
  | .error _ => false
  | .ok elf => elf ≠ [] && k.builds M (mapExecStack M) k.kernelPml4 elf

/-- There was no file, or the image could not be built and was thrown away, which left the machine
`s`. -/
def ExecFailed (M : Mapper) (k : Kernel) (file : BytesResult) (s : Machine) : Prop :=
  k.execFits M file = false ∧ (s = k.machine ∨ ∃ elf pml4 s₁ s₂, file = .ok elf ∧
    createUserPml4 k.machine k.kernelPml4 = .ok (pml4, s₁) ∧
    ImageBuild M (mapExecStack M pml4) elf pml4 s₁ false s₂ ∧ freeUserAddressSpace s₂ pml4 = .ok s)

/-- The image was built on `pml4`, and the old address space was torn down, which left the machine
`s`. -/
def ExecReplaced (M : Mapper) (k : Kernel) (file : BytesResult) (oldPml4 pml4 : Nat)
    (s : Machine) : Prop :=
  k.execFits M file = true ∧ ∃ elf s₁ s₂, file = .ok elf ∧
    createUserPml4 k.machine k.kernelPml4 = .ok (pml4, s₁) ∧
    ImageBuild M (mapExecStack M pml4) elf pml4 s₁ true s₂ ∧ freeUserAddressSpace s₂ oldPml4 = .ok s

lemma execFits_of_ok (helf : elf ≠ []) :
    k.execFits M (.ok elf) = k.builds M (mapExecStack M) k.kernelPml4 elf := by
  simp [execFits, helf]

lemma buildImage_error {e : Errno} (helf : elf ≠ []) (h : k.buildImage M elf = .ok (.error e, k')) :
    ∃ s prng, ExecFailed M k (.ok elf) s ∧ k' = { k with machine := s, prng := prng } := by
  obtain ⟨top, prng, hrand, htop⟩ := randomizeStackBase_cases k
  simp only [buildImage, hrand] at h
  split at h
  · cases h
  rename_i pml4 s1 hcr
  split at h
  · cases h
  · rename_i s2 hload
    split at h
    · cases h
    rename_i k1 hdiscard
    obtain ⟨s3, hfree, rfl⟩ := discard_eq_ok hdiscard
    cases h
    refine ⟨s3, k.prng, ⟨?_, .inr ⟨elf, pml4, s1, s2, rfl, hcr, .badElf hload, hfree⟩⟩, rfl⟩
    simp only [execFits_of_ok helf, builds, hcr, hload]
  rename_i s2 hload
  split at h
  · cases h
  · rename_i s3 hstk
    split at h
    · cases h
    rename_i k1 hdiscard
    obtain ⟨s4, hfree, rfl⟩ := discard_eq_ok hdiscard
    cases h
    refine ⟨s4, prng, ⟨?_, .inr ⟨elf, pml4, s1, s3, rfl, hcr, .stack hload htop hstk, hfree⟩⟩, rfl⟩
    simp only [execFits_of_ok helf, builds, hcr, hload, hrand, hstk]
  · cases h

lemma buildImage_ok (h : k.buildImage M elf = .ok (.ok (pml4, entry, top), k')) :
    ∃ s1 s2 s3 prng, createUserPml4 k.machine k.kernelPml4 = .ok (pml4, s1) ∧
      loadElf M elf pml4 s1 = .ok (entry, s2) ∧
        k.randomizeStackBase = (top, { k with prng := prng }) ∧
      mapExecStack M pml4 top s2 = .ok (true, s3) ∧
        k' = { k with machine := s3, prng := prng } := by
  obtain ⟨top', prng, hrand, -⟩ := randomizeStackBase_cases k
  simp only [buildImage, hrand] at h
  split at h
  · cases h
  rename_i s1 hcr
  split at h
  · cases h
  · split at h <;> cases h
  rename_i s2 hload
  split at h
  · cases h
  · split at h <;> cases h
  rename_i s3 hstk
  cases h
  exact ⟨s1, s2, s3, prng, hcr, hload, hrand, hstk, rfl⟩

/-- The image was built, with this entry point and this top of its stack, and the old address space
was torn down. -/
def Rebuilt (M : Mapper) (k : Kernel) (elf : List Byte) (old pml4 entry top : Nat) (prng : Word)
    (s : Machine) : Prop :=
  elf ≠ [] ∧ ∃ s',
    k.buildImage M elf =
      .ok (.ok (pml4, entry, top), { k with machine := s', prng := prng }) ∧
    freeUserAddressSpace s' old = .ok s

lemma Rebuilt.replaced {prng : Word} (h : Rebuilt M k elf old pml4 entry top prng s) :
    ExecReplaced M k (.ok elf) old pml4 s := by
  obtain ⟨helf, s', hbd, hfree⟩ := h
  obtain ⟨s1, s2, s3, prng', hcr, hload, hrand, hstk, heq⟩ := buildImage_ok hbd
  obtain rfl : s' = s3 := congrArg machine heq
  obtain ⟨top', prng'', hrand', htop⟩ := randomizeStackBase_cases k
  obtain rfl : top = top' := congrArg Prod.fst (hrand.symm.trans hrand')
  refine ⟨?_, elf, s1, s', rfl, hcr, .stack hload htop hstk, hfree⟩
  simp only [execFits_of_ok helf, builds, hcr, hload, hrand, hstk]

lemma sysExec_result (hcur : k.current = some (pid, p)) (h : k.sysExec M file = .ok (r, k')) :
    ∃ k0 p0 s prng, k0 = k.closeOnExec ∧ p0 = afterCloexec p ∧ k0.current = some (pid, p0) ∧
      ((ExecFailed M k0 file s ∧ (∃ e, r = .error e) ∧
          k' = { k0 with machine := s, prng := prng, cr3 := p0.pml4Phys }) ∨
        ∃ elf pml4 entry top, file = .ok elf ∧ Rebuilt M k0 elf p0.pml4Phys pml4 entry top prng s ∧
          r = p0.execResult ∧
          k' = { k0 with machine := s, prng := prng, cr3 := pml4 }.setProc pid
            (some { p0 with
              pml4Phys := pml4, savedCr3 := 0, userRip := some entry, userRsp := some (top - 8)
              isUser := true })) := by
  obtain ⟨k0, hk0⟩ : ∃ k0, k0 = k.closeOnExec := ⟨_, rfl⟩
  obtain ⟨p0, hp0⟩ : ∃ p0, p0 = afterCloexec p := ⟨_, rfl⟩
  have hcur0 : k0.current = some (pid, p0) := by rw [hk0, hp0, closeOnExec_current hcur]
  simp only [sysExec, ← hk0, hcur0, reloadCr3_eq hcur0] at h
  refine ⟨k0, p0, ?_⟩
  split at h
  · cases h
    exact ⟨_, _, hk0, hp0, hcur0, .inl ⟨⟨rfl, .inl rfl⟩, ⟨_, rfl⟩, rfl⟩⟩
  rename_i elf
  split at h
  · rename_i helf
    cases h
    exact ⟨_, _, hk0, hp0, hcur0, .inl ⟨⟨by simp [execFits, helf], .inl rfl⟩, ⟨_, rfl⟩, rfl⟩⟩
  rename_i helf
  split at h
  · cases h
  · rename_i e k1 hbd
    obtain ⟨s, prng, hfailed, rfl⟩ := buildImage_error helf hbd
    rw [reloadCr3_eq (k := { k0 with machine := s, prng := prng }) hcur0] at h
    cases h
    exact ⟨s, prng, hk0, hp0, hcur0, .inl ⟨hfailed, ⟨e, rfl⟩, rfl⟩⟩
  rename_i pml4 entry top k1 hbd
  obtain ⟨s1, s2, s3, prng, -, -, -, -, rfl⟩ := buildImage_ok hbd
  split at h
  · cases h
  rename_i s hfree
  rw [reloadCr3_setProc (by exact (current_eq_some.mp hcur0).1)] at h
  cases h
  exact ⟨s, prng, hk0, hp0, hcur0,
    .inr ⟨elf, pml4, entry, top, rfl, ⟨helf, s3, hbd, hfree⟩, rfl, rfl⟩⟩

/-- The bytes that the arguments take on the new stack. -/
def argvBytes (argv : List (List Byte)) : Nat := (argv.map fun a => a.length + 1).sum

/-- The stores of `sys_execve` to the new stack: the stack pointer and the machine after them. -/
def pokeArgv (M : Mapper) (pml4 top : Nat) (argv : List (List Byte)) (s : Machine) :
    Nat × Machine :=
  let strings := pokeStrings M pml4 (top - 8 - 4096) argv s
  let words := pokeWords M pml4 (top - 8) (0 :: strings.1.reverse) strings.2
  pokeWords M pml4 words.1 [argv.length] words.2

/-- All outcomes of `execve`; close-on-exec comes first in each. -/
lemma sysExecve_result (hcur : k.current = some (pid, p))
    (h : k.sysExecve M file argv = .ok (r, k')) :
    ∃ k0 p0 s prng, k0 = k.closeOnExec ∧ p0 = afterCloexec p ∧ k0.current = some (pid, p0) ∧
      ((ExecFailed M k0 file s ∧ (∃ e, r = .error e) ∧
          k' = { k0 with machine := s, prng := prng }) ∨
        ∃ elf pml4 entry top, file = .ok elf ∧ Rebuilt M k0 elf p0.pml4Phys pml4 entry top prng s ∧
          ((3072 < argvBytes argv ∧ r = .error .E2BIG ∧
              k' = { k0 with machine := s, prng := prng }) ∨
            argvBytes argv ≤ 3072 ∧ r = p0.execResult ∧
              k' = { k0 with machine := (pokeArgv M pml4 top argv s).2, prng := prng }.setProc pid
                (some { p0 with
                  pml4Phys := pml4, userRip := some entry
                  userRsp := some (pokeArgv M pml4 top argv s).1
                  isUser := true, heapStart := USER_HEAP_BASE, heapEnd := USER_HEAP_BASE }))) := by
  obtain ⟨k0, hk0⟩ : ∃ k0, k0 = k.closeOnExec := ⟨_, rfl⟩
  obtain ⟨p0, hp0⟩ : ∃ p0, p0 = afterCloexec p := ⟨_, rfl⟩
  have hcur0 : k0.current = some (pid, p0) := by rw [hk0, hp0, closeOnExec_current hcur]
  simp only [sysExecve, ← hk0, hcur0] at h
  -- descriptors are closed before anything can fail
  refine ⟨k0, p0, ?_⟩
  split at h
  · cases h
    exact ⟨_, _, hk0, hp0, hcur0, .inl ⟨⟨rfl, .inl rfl⟩, ⟨_, rfl⟩, rfl⟩⟩
  rename_i elf
  split at h
  · rename_i helf
    cases h
    exact ⟨_, _, hk0, hp0, hcur0, .inl ⟨⟨by simp [execFits, helf], .inl rfl⟩, ⟨_, rfl⟩, rfl⟩⟩
  rename_i helf
  split at h
  · cases h
  · rename_i e k1 hbd
    obtain ⟨s, prng, hfailed, rfl⟩ := buildImage_error helf hbd
    cases h
    exact ⟨s, prng, hk0, hp0, hcur0, .inl ⟨hfailed, ⟨e, rfl⟩, rfl⟩⟩
  rename_i pml4 entry top k1 hbd
  obtain ⟨s1, s2, s3, prng, -, -, -, -, rfl⟩ := buildImage_ok hbd
  split at h
  · cases h
  rename_i s hfree
  refine ⟨s, prng, hk0, hp0, hcur0, .inr ⟨elf, pml4, entry, top, rfl, ⟨helf, s3, hbd, hfree⟩, ?_⟩⟩
  split at h
  · rename_i hbig
    cases h
    exact .inl ⟨hbig, rfl, rfl⟩
  rename_i hsm
  cases h
  exact .inr ⟨Nat.le_of_not_lt hsm, rfl, rfl⟩

end Indominus.Sys.Kernel
