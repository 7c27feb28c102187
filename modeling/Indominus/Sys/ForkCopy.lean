import Indominus.Sys.PipeRefs

/-! # What a child inherits -/

namespace Indominus.Sys

open Lib Memory

/-! ## Copies -/

/-- The child agrees with its parent on what later calls depend on; `live` are the FPU registers of
the parent. -/
structure Copies (live : FpuState) (parent child : Process) : Prop where
  fdTypes : child.fdTypes = parent.fdTypes
  fdFlags : child.fdFlags = parent.fdFlags
  fileHandles : child.fileHandles = parent.fileHandles
  pipeCount : child.pipeCount = parent.pipeCount
  cwd : child.cwd = parent.cwd
  heapStart : child.heapStart = parent.heapStart
  heapEnd : child.heapEnd = parent.heapEnd
  mmapRegions : child.mmapRegions = parent.mmapRegions
  signalHandlers : child.signalHandlers = parent.signalHandlers
  pgid : child.pgid = parent.pgid
  fpu : child.fpuState = live

/-- The parent has nothing that `sys_fork` forgets. -/
structure Process.Plain (live : FpuState) (p : Process) : Prop where
  fdFlags : ∀ fd, p.fdFlags fd = 0
  pipeCount : p.pipeCount = 0
  cwd : p.cwd = [0x2F]
  heapStart : p.heapStart = 0
  heapEnd : p.heapEnd = 0
  mmapRegions : p.mmapRegions = []
  signalHandlers : ∀ i, p.signalHandlers i = 0
  fpu : p.fpuState = live

namespace Kernel

variable {k k' : Kernel} {live : FpuState}

variable {p : Process} {pid : Pid} {stack extraStack : Option Nat}

lemma copies_forkChild_iff {slot : Pid} {pml4 stack : Nat} :
    Copies live p (forkChild p pid slot pml4 stack) ↔ p.Plain live := by
  constructor
  · intro h
    -- what the template leaves in the child is what the parent must have
    refine ⟨?_, h.pipeCount.symm, h.cwd.symm, h.heapStart.symm, h.heapEnd.symm,
      h.mmapRegions.symm, ?_, h.fpu⟩
    · intro fd
      exact (congrFun h.fdFlags fd).symm
    · intro i
      exact (congrFun h.signalHandlers i).symm
  intro h
  exact {
    fdTypes := rfl
    fdFlags := funext fun fd => (h.fdFlags fd).symm
    fileHandles := rfl
    pipeCount := h.pipeCount.symm
    cwd := h.cwd.symm
    heapStart := h.heapStart.symm
    heapEnd := h.heapEnd.symm
    mmapRegions := h.mmapRegions.symm
    signalHandlers := funext fun i => (h.signalHandlers i).symm
    pgid := rfl
    fpu := h.fpu }

lemma sysFork_result {r : SysResult} (hcur : k.current = some (pid, p))
    (h : k.sysFork stack extraStack = .ok (r, k')) :
    ∃ s, ((∃ e, r = .error e) ∧ k' = { k with machine := s }) ∨
      ∃ slot pml4 base, k.freeSlot = some slot ∧ r = .ok slot.val ∧
        k' = { k with machine := s, pipes := retainAll k.pipes p.fdTypes }.setProc slot
          (some (forkChild p pid slot pml4 base)) := by
  simp only [sysFork, hcur] at h
  split at h
  · cases h
  rename_i pml4 s1 hcr
  split at h
  · cases h
  · rename_i s hcopy
    cases h
    exact ⟨s, .inl ⟨⟨_, rfl⟩, rfl⟩⟩
  rename_i s hcopy
  split at h
  · cases h
    exact ⟨s, .inl ⟨⟨_, rfl⟩, rfl⟩⟩
  rename_i base
  have hins := Except.ok.inj h
  unfold forkInsert at hins
  split at hins
  · cases hins
    exact ⟨s, .inl ⟨⟨_, rfl⟩, rfl⟩⟩
  rename_i slot hslot
  split at hins
  · cases hins
    exact ⟨s, .inl ⟨⟨_, rfl⟩, rfl⟩⟩
  · cases hins
    exact ⟨s, .inr ⟨slot, pml4, base, hslot, rfl, rfl⟩⟩

lemma sysFork_ok {n : Nat} (h : k.sysFork stack extraStack = .ok (.ok n, k')) :
    ∃ pid p slot pml4 base, k.current = some (pid, p) ∧ k.freeSlot = some slot ∧ slot.val = n ∧
      k'.procs = Function.update k.procs slot (some (forkChild p pid slot pml4 base)) := by
  cases hcur : k.current with
  | none => simp [sysFork, hcur] at h
  | some x =>
    obtain ⟨pid, p⟩ := x
    obtain ⟨s, ⟨⟨e, he⟩, -⟩ | ⟨slot, pml4, base, hslot, hn, rfl⟩⟩ := sysFork_result hcur h
    · cases he
    · exact ⟨pid, p, slot, pml4, base, rfl, hslot, (Except.ok.inj hn).symm, rfl⟩

/-- **What a child inherits.**  After a successful `sys_fork` the parent is as it was, and the child
is a copy of it iff the parent has nothing that `sys_fork` forgets. -/
theorem sysFork_copies_iff (live : FpuState) {stack extraStack : Option Nat} {n : Nat}
    (h : k.sysFork stack extraStack = .ok (.ok n, k')) :
    ∃ pid p slot child, k.current = some (pid, p) ∧ k'.procs pid = some p ∧ slot.val = n ∧
      k'.procs slot = some child ∧ (Copies live p child ↔ p.Plain live) := by
  obtain ⟨pid, p, slot, pml4, base, hcur, hslot, hn, hprs⟩ := sysFork_ok h
  refine ⟨pid, p, slot, forkChild p pid slot pml4 base, hcur, ?_, hn, ?_, copies_forkChild_iff⟩
  · -- the child's slot was free, so it is not the parent's
    have hp := procs_of_current hcur
    have hne : pid ≠ slot := by
      intro heq
      rw [heq, (freeSlot_cases hslot).1] at hp
      cases hp
    rw [hprs, Function.update_of_ne hne]
    exact hp
  · rw [hprs, Function.update_self]

/-- The process has opened a file and joined a process group. -/
def openFile : Kernel := ((oneUser.sysOpen (.ok 5) 1).2.sysSetpgid 0 7).2

/-- Both go to its child. -/
theorem sysFork_copies_iff_openFile : ∃ k' slot child,
    openFile.sysFork (some 0x40000) (some 0x50000) = .ok (.ok 3, k') ∧ k'.procs slot = some child ∧
      child.fdTypes (3 : Fin 16) = .fsFile 0 ∧ child.fileHandles (0 : Fin 16) = some 5 ∧
        child.pgid = 7 := by
  have hmt :
      meets (openFile.sysFork (some 0x40000) (some 0x50000)) (fun x => x.1 == .ok 3) = true := by
    decide +kernel
  obtain ⟨⟨r, k'⟩, hfork, hr⟩ := exists_of_meets hmt
  obtain rfl : r = .ok 3 := by simpa using hr
  obtain ⟨pid, p, slot, child, hcur, -, -, hch, hiff⟩ := sysFork_copies_iff 0 hfork
  cases hcur
  have hcopies := hiff.mpr ⟨fun _ => rfl, rfl, rfl, rfl, rfl, rfl, fun _ => rfl, rfl⟩
  refine ⟨k', slot, child, hfork, hch, ?_, ?_, hcopies.pgid⟩
  · rw [hcopies.fdTypes]
    rfl
  · rw [hcopies.fileHandles]
    rfl

/-- A process has a heap; `brk(0)` gives its child another address. -/
theorem sysFork_forgets_heap : ∃ k k' pid p slot child,
    oneUser.sysBrk referenceMapper 0 = .ok (.ok p.heapEnd, k) ∧ k.current = some (pid, p) ∧
      k.sysFork (some 0x40000) (some 0x50000) = .ok (.ok 3, k') ∧ k'.procs slot = some child ∧
      (∀ live, ¬ Copies live p child) ∧ child.heapEnd ≠ p.heapEnd := by
  have hmt : meets (oneUser.sysBrk referenceMapper 0) (fun x =>
      (x.2.current.any fun c => x.1 == .ok c.2.heapEnd && c.2.heapEnd != 0) &&
        meets (x.2.sysFork (some 0x40000) (some 0x50000)) fun y => y.1 == .ok 3) = true := by
    decide +kernel
  obtain ⟨⟨r, k⟩, hbrk, htest⟩ := exists_of_meets hmt
  rw [Bool.and_eq_true, Option.any_eq_true] at htest
  obtain ⟨⟨⟨pid, p⟩, hcur, hp⟩, hfork⟩ := htest
  simp only [Bool.and_eq_true, beq_iff_eq, bne_iff_ne] at hp
  obtain ⟨rfl, hheap⟩ := hp
  obtain ⟨⟨r, k'⟩, hfork, hr⟩ := exists_of_meets hfork
  obtain rfl : r = .ok 3 := by simpa using hr
  obtain ⟨pid', p', slot, pml4, base, hcur', -, -, hprs⟩ := sysFork_ok hfork
  cases hcur.symm.trans hcur'
  -- the child has the heap of the template
  have hch : (forkChild p pid slot pml4 base).heapEnd ≠ p.heapEnd := Ne.symm hheap
  refine ⟨k, k', pid, p, slot, _, hbrk, hcur, hfork, ?_, ?_, hch⟩
  · rw [hprs, Function.update_self]
  · intro live hcopies
    exact hch hcopies.heapEnd

end Kernel

end Indominus.Sys
