import Indominus.Sys.Process

/-!
# Process lifetime and context switches (`process/mod.rs`, `process/scheduler.rs`,
`process/context_switch.rs`)

The process that the scheduler picks is an argument.
-/

namespace Indominus.Sys

open Memory (Machine Panic freeUserAddressSpace)

namespace Kernel

/-! ## Waking -/

/-- Does `keyboard_wake` wake this process? -/
def shouldWake (k : Kernel) (p : Process) : Bool :=
  p.state == .blocked &&
    match p.wakeReason with
    | .keyboard => true
    | .pipeRead idx =>
      match (pipeSlot idx).bind k.pipes with
      | some q => decide (q.nread < q.nwrite) || !q.writeOpen
      | none => false
    | .pipeWrite idx =>
      match (pipeSlot idx).bind k.pipes with
      | some q => decide (q.nwrite < (q.nread + PIPE_SIZE) % 2 ^ 32) || !q.readOpen
      | none => false
    | .waitForChild child =>
      if h : child < MAX_PROCESSES then
        match k.procs ⟨child, h⟩ with
        | some c => c.state == .zombie
        | none => false
      else false
    | _ => false

def woken (p : Process) : Process := { p with state := .ready, wakeReason := .none }

/-- Replace every process of the table for which `wake` holds by its woken version. -/
def wakeWhere (k : Kernel) (wake : Pid → Process → Bool) : Kernel :=
  { k with procs := fun i => (k.procs i).map fun p => if wake i p then woken p else p }

def keyboardWake (k : Kernel) : Kernel := k.wakeWhere fun _ p => k.shouldWake p

def wakeWaitForChild (k : Kernel) (zombiePid : Nat) : Kernel :=
  k.wakeWhere fun i p =>
    i.val != 0 && p.state == .blocked &&
      match p.wakeReason with
      | .waitForChild child => child == zombiePid || child == 0
      | _ => false

def reparentOrphansToInit (k : Kernel) (oldParent : Pid) : Kernel :=
  { k with
    procs := fun i => (k.procs i).map fun p =>
      if p.parentPid = some oldParent.val then
        { p with parentPid := some k.initPid.val, parentGeneration := k.generations k.initPid }
      else p }

/-! ## Releasing pipe descriptors -/

/-- `pipe_close`, then the count goes down unless it is 0, and the slot is freed when it was 1. -/
def closePipe (pipes : PipeSlots) (i : PipeIdx) (writable : Bool) :
    PipeSlots :=
  match pipes i with
  | none => pipes
  | some p =>
    if p.refcount = 1 then Function.update pipes i none
    else
      Function.update pipes i
        (some { p.close writable with refcount := p.refcount - 1 })

def closePipes (pipes : PipeSlots) (ops : List (PipeIdx × Bool)) :
    PipeSlots :=
  ops.foldl (fun ps op => closePipe ps op.1 op.2) pipes

/-- The close operation that a descriptor needs on the pipe table, if any. -/
def pipeOp (t : FdType) : Option (PipeIdx × Bool) :=
  match t with
  | .pipe idx writable => (pipeSlot idx).map fun i => (i, writable)
  | _ => none

/-! ## The end of a process -/

/-- `Process::drop`: close the pipe descriptors, free the address space. -/
def dropProcess (k : Kernel) (p : Process) : Except Panic Kernel :=
  let k := { k with pipes := closePipes k.pipes ((List.finRange MAX_FDS).filterMap fun fd =>
    pipeOp (p.fdTypes fd)) }
  if p.isUser ∧ p.pml4Phys ≠ 0 then
    match freeUserAddressSpace k.machine p.pml4Phys with
    | .error e => .error e
    | .ok m => .ok { k with machine := m }
  else .ok k

/-- `reap_zombie`: empty the slot, which drops the process. -/
def reapZombie (k : Kernel) (pid : Pid) : Except Panic Kernel :=
  match k.procs pid with
  | none => .ok k
  | some p =>
    match k.dropProcess p with
    | .error e => .error e
    | .ok k => .ok (k.setProc pid none)

/-- `defer_free`: the kernel halts when the list is full. -/
def deferFree (k : Kernel) (d : Deferred) : Except Panic Kernel :=
  if k.deferred.length < MAX_DEFERRED then .ok { k with deferred := k.deferred ++ [d] }
  else .error .deferredSlotsFull

/-- The loop of `drain_deferred_free`. -/
def drainSlots : List Deferred → Machine → Except Panic Machine
  | [], s => .ok s
  | d :: ds, s =>
    if d.isUser ∧ d.pml4 ≠ 0 then
      match freeUserAddressSpace s d.pml4 with
      | .error e => .error e
      | .ok s => drainSlots ds s
    else drainSlots ds s

def drainDeferredFree (k : Kernel) : Except Panic Kernel :=
  match drainSlots k.deferred k.machine with
  | .error e => .error e
  | .ok m => .ok { k with machine := m, deferred := [] }

/-! ## Context switches -/

/-- The page table a process resumes on: the CR3 saved with it, or else its own. -/
def resumeCr3 (p : Process) : Nat := if p.savedCr3 ≠ 0 then p.savedCr3 else p.pml4Phys

/-- `save_current_sp`: remember CR3 with the process that is switched out. -/
def saveCurrent (k : Kernel) : Kernel :=
  match k.current with
  | none => k
  | some (pid, p) => k.setProc pid (some { p with savedCr3 := k.cr3 })

/-- The first part of `switch_next` and `switch_next_force`: the old process goes from running to
ready. -/
def suspendCurrent (k : Kernel) : Kernel :=
  match k.current with
  | none => k
  | some (pid, p) =>
    k.setProc pid (some { p with
      state := if p.state = ProcessState.running then .ready else p.state })

/-- The second part: the new process runs, and CR3 follows it. -/
def resume (k : Kernel) (next : Pid) : Kernel :=
  match k.procs next with
  | none => { k with currentPid := some next }
  | some p =>
    { k.setProc next (some { p with state := .running }) with
      currentPid := some next
      cr3 := resumeCr3 p }

/-- The common part of `switch_next`, `switch_next_force` and `kill_process`. -/
def switchTo (k : Kernel) (next : Pid) : Kernel := k.suspendCurrent.resume next

/-- The resources that `schedule_force` and `kill_process` take from a dead process. -/
def takeDead (k : Kernel) (pid : Pid) (p : Process) : Except Panic Kernel :=
  if p.kernelStackBase ≠ 0 ∨ p.pml4Phys ≠ 0 then
    match k.deferFree ⟨p.kernelStackBase, p.pml4Phys, p.isUser⟩ with
    | .error e => .error e
    | .ok k =>
      match k.procs pid with
      | none => .ok k
      | some q => .ok (k.setProc pid (some { q with kernelStackBase := 0, pml4Phys := 0 }))
  else .ok k

/-- `schedule`, called by the timer: drain the deferred frees, then switch to `next`. -/
def schedule (k : Kernel) (next : Pid) : Except Panic Kernel :=
  match k.drainDeferredFree with
  | .error e => .error e
  | .ok k => .ok (k.saveCurrent.switchTo next)

/-- `schedule_force`: switch to `next`; a zombie's resources go to the deferred-free list. -/
def scheduleForce (k : Kernel) (next : Pid) : Except Panic Kernel :=
  let k := k.saveCurrent
  match k.current with
  | none => .ok (k.switchTo next)
  | some (pid, p) =>
    if p.state = .zombie then (k.switchTo next).takeDead pid p else .ok (k.switchTo next)

/-- `kill_process`: the running process becomes a zombie, its resources go to the deferred-free
list. -/
def killProcess (k : Kernel) (next : Pid) : Except Panic Kernel :=
  match k.current with
  | none => .ok (k.switchTo next)
  | some (pid, p) =>
    let k := k.reparentOrphansToInit pid
    let k :=
      match k.procs pid with
      | none => k
      | some q => k.setProc pid (some { q with state := .zombie })
    (k.switchTo next).takeDead pid p

/-! ## Finding slots -/

/-- The first free slot of the process table, never slot 0. -/
def freeSlot (k : Kernel) : Option Pid :=
  (List.finRange MAX_PROCESSES).find? fun i => i.val != 0 && (k.procs i).isNone

/-- `Scheduler::spawn_user`; `stack` is the answer of the kernel heap. -/
def spawnUserSlot (k : Kernel) (userRip userRsp pml4 : Nat) (parent : Option Nat)
    (stack : Option Nat) : Option Pid × Kernel :=
  match k.freeSlot with
  | none => (none, k)
  | some slot =>
    let parentGen :=
      match parent with
      | none => 0
      | some p => if h : p < MAX_PROCESSES then
          match k.procs ⟨p, h⟩ with
          | some q => q.generation
          | none => 0
        else 0
    let gen := (k.generations slot + 1) % 2 ^ 32
    let k := { k with generations := Function.update k.generations slot gen }
    match stack with
    | none => (none, k)
    | some stackBase =>
      let p := Process.newUser slot.val userRip userRsp pml4 parent parentGen stackBase
      (some slot, k.setProc slot (some { p with generation := gen, pgid := slot.val }))

end Kernel

end Indominus.Sys
