import Indominus.Memory.ReferenceMapper
import Indominus.Sys.Lifecycle

/-!
# Runs of the kernel

Which process runs next is part of the operation.  A run stops at a panic.
-/

namespace Indominus.Sys

open Lib Memory

/-! ## Stores of a user process -/

/-- The frame below an entry, if the entry lets user code write through it. -/
def stepWrite (level : Nat) (e : Word) : Option Nat :=
  if Pte.isWritable e && Pte.isUser e then Pte.target level e else none

/-- The physical address that a user-mode store reaches; `none` is a page fault. -/
def storeTarget (m : PhysMem) (cr3 va : Nat) : Option Nat := do
  let pdpt ← stepWrite 3 (m.entry cr3 (pml4Index va))
  let pd ← stepWrite 2 (m.entry pdpt (pdptIndex va))
  let pt ← stepWrite 1 (m.entry pd (pdIndex va))
  let frame ← stepWrite 0 (m.entry pt (ptIndex va))
  return frame * PAGE_SIZE + va % PAGE_SIZE

namespace Kernel

/-- A user-mode write fault: `page_fault_classify`, then `kill_process` unless it was resolved. -/
def writeFault (k : Kernel) (va : Nat) (next : Pid) : Except Panic Kernel :=
  if va < USER_SPACE_END then
    match handleCowFault k.machine k.cr3 va with
    | .error e => .error e
    | .ok (true, s) => .ok { k with machine := s }
    | .ok (false, s) => { k with machine := s }.killProcess next
  else k.killProcess next

/-- A one-byte store; after a resolved fault it runs again, as a step of its own. -/
def userStore (k : Kernel) (va : Nat) (b : Byte) (next : Pid) : Except Panic Kernel :=
  match if va < USER_SPACE_END then storeTarget k.machine.ram k.cr3 va else none with
  | some addr => .ok { k with machine := { k.machine with ram := k.machine.ram.setByte addr b } }
  | none => k.writeFault va next

/-! ## Operations -/

/-- What can happen next.  `next` is the process that the scheduler picks where one is picked,
`stack` an answer of the kernel heap. -/
inductive Op
  | spawn (elf : List Byte) (parent stack : Option Nat)
  | fork (stack extraStack : Option Nat)
  | exec (file : BytesResult)
  | execve (file : BytesResult) (argv : List (List Byte))
  | exit (code : Nat) (next : Pid)
  | kill (next : Pid)
  | tick (next : Pid)
  /-- `sys_yield`, or any call that blocks. -/
  | yield (next : Pid)
  | reap (pid : Pid)
  | brk (newBrk : Nat)
  | mmap (length : Nat)
  | munmap (addr length : Nat)
  | store (va : Nat) (b : Byte) (next : Pid)
  | pipe
  | close (fd : Nat)
  | dup (fd : Nat)
  | dup2 (oldfd newfd : Nat)

def userRunning (k : Kernel) : Bool :=
  match k.current with
  | some (_, p) => p.isUser
  | none => false

/-- Can the scheduler switch to this process?  Zombies and empty slots are never picked. -/
def canRun (k : Kernel) (next : Pid) : Bool :=
  match k.procs next with
  | some p => p.state != .zombie
  | none => false

/-- Can the scheduler switch to `next` when the running process is dead? -/
def canReplace (k : Kernel) (next : Pid) : Bool := k.canRun next && k.currentPid != some next

def isZombie (k : Kernel) (pid : Pid) : Bool :=
  match k.procs pid with
  | some p => p.state == .zombie
  | none => false

/-- Can the operation happen now?  System calls, stores and fatal faults come from a running user
process. -/
def enabled (k : Kernel) : Op → Bool
  | .spawn _ _ _ => true
  | .exit _ next | .kill next | .store _ _ next => k.userRunning && k.canReplace next
  | .tick next => k.canRun next
  | .yield next => k.userRunning && k.canRun next
  | .reap pid => k.isZombie pid
  | .fork _ _ | .exec _ | .execve _ _ | .brk _ | .mmap _ | .munmap _ _ => k.userRunning
  | .pipe | .close _ | .dup _ | .dup2 _ _ => k.userRunning

def perform (M : Mapper) (k : Kernel) : Op → Except Panic Kernel
  | .spawn elf parent stack => (k.spawnUser M elf parent stack).map Prod.snd
  | .fork stack extraStack => (k.sysFork stack extraStack).map Prod.snd
  | .exec file => (k.sysExec M file).map Prod.snd
  | .execve file argv => (k.sysExecve M file argv).map Prod.snd
  | .exit code next => k.sysExit code next
  | .kill next => k.killProcess next
  | .tick next => k.schedule next
  | .yield next => k.scheduleForce next
  | .reap pid => k.reapZombie pid
  | .brk newBrk => (k.sysBrk M newBrk).map Prod.snd
  | .mmap length => (k.sysMmap M length).map Prod.snd
  | .munmap addr length => (k.sysMunmap M addr length).map Prod.snd
  | .store va b next => k.userStore va b next
  | .pipe => .ok k.sysPipe.2
  | .close fd => .ok (k.sysClose fd).2
  | .dup fd => .ok (k.sysDup fd).2
  | .dup2 oldfd newfd => .ok (k.sysDup2 oldfd newfd).2

/-- One step: nothing happens for an operation that is not enabled. -/
def step (M : Mapper) (k : Kernel) (op : Op) : Except Panic Kernel :=
  if k.enabled op then k.perform M op else .ok k

/-! ## Runs -/

/-- `k'` is reached from `k` by steps that all meet a condition, before any panic. -/
def Reaches (M : Mapper) (cond : Kernel → Op → Prop) : Kernel → Kernel → Prop :=
  Relation.ReflTransGen fun k k' => ∃ op, cond k op ∧ k.step M op = .ok k'

variable {M : Mapper} {cond : Kernel → Op → Prop} {k k' : Kernel}

lemma Reaches.invariant {P : Kernel → Prop}
    (hstep : ∀ k op k', P k → cond k op → k.enabled op = true → k.perform M op = .ok k' → P k')
    (h : Reaches M cond k k') (hk : P k) : P k' := by
  induction h with
  | refl => exact hk
  | @tail k1 k2 _ hlast ih =>
    obtain ⟨op, hcond, hop⟩ := hlast
    rw [step] at hop
    split at hop
    · rename_i hen
      exact hstep k1 op k2 ih hcond hen hop
    · obtain rfl : k1 = k2 := by simpa using hop
      exact ih

def run (M : Mapper) : List Op → Kernel → Except Panic Kernel
  | [], k => .ok k
  | op :: ops, k =>
    match k.step M op with
    | .error e => .error e
    | .ok k => run M ops k

lemma reaches_of_run {ops : List Op} (hcond : ∀ k op, op ∈ ops → cond k op)
    (h : run M ops k = .ok k') : Reaches M cond k k' := by
  induction ops generalizing k with
  | nil =>
    obtain rfl : k = k' := by simpa [run] using h
    exact .refl
  | cons op ops ih =>
    rw [run] at h
    split at h
    · simp at h
    rename_i k1 hstep
    exact .head ⟨op, hcond k op (by simp), hstep⟩
      (ih (fun k o ho => hcond k o (by simp [ho])) h)

/-- Does the sequence of operations end, without a panic, in a kernel that meets a test? -/
def runMeets (M : Mapper) (ops : List Op) (k : Kernel) (P : Kernel → Bool) : Bool :=
  match run M ops k with
  | .ok k' => P k'
  | .error _ => false

lemma reaches_of_runMeets (M : Mapper) (ops : List Op) (k : Kernel) (P : Kernel → Bool)
    (cond : Kernel → Op → Prop) (hcond : ∀ k op, op ∈ ops → cond k op)
    (h : runMeets M ops k P = true) : ∃ k', Reaches M cond k k' ∧ P k' = true := by
  rw [runMeets] at h
  split at h
  · rename_i k' hrun
    exact ⟨k', reaches_of_run hcond hrun, h⟩
  · simp at h

/-! ## A small kernel -/

/-- Memory of 64 frames.  Frame 0 is never used, frame 1 is the kernel's PML4 and frame 2 the PDPT
of its last entry. -/
def bootMachine : Machine where
  pmm :=
    { bitmap := 7
      refcounts := ((Store.const 0).set 1 1).set 2 1
      totalFrames := 64
      freeFrames := 61 }
  ram := PhysMem.setEntry (Store.const (Store.const 0)) 1 511
    (Pte.setAddr 2 (Pte.PRESENT ||| Pte.WRITABLE))

/-- A kernel that has just booted: an idle process, which is running, and an init process. -/
def bootKernel : Kernel where
  machine := bootMachine
  cr3 := 1
  kernelPml4 := 1
  procs pid :=
    if pid.val = 0 then some { Process.newKernel 0 1 1 with state := .running }
    else if pid.val = 1 then some (Process.newKernel 1 1 2)
    else none
  generations _ := 1
  currentPid := some ⟨0, by decide⟩
  tickCounter := 0
  tickCount := 0
  keyboardWakePending := false
  forceSwitch := false
  initPid := ⟨1, by decide⟩
  pipes _ := none
  deferred := []
  prng := 0

end Kernel

end Indominus.Sys
