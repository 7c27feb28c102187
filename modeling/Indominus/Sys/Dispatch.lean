import Indominus.Sys.Signal

/-!
# The round-robin scheduler (`process/scheduler.rs`, `process/context_switch.rs`)

Each decision returns the stack pointer to resume on.  `Sys.Scheduler` leaves the choice open.
-/

namespace Indominus.Sys

open Memory (Panic)

def IDLE_PID : Pid := ⟨0, zero_lt_maxProcesses⟩

def DEFAULT_QUANTUM : Nat := 5

namespace Kernel

/-! ## The choice of the next process -/

def isReady (k : Kernel) (pid : Pid) : Bool :=
  match k.procs pid with
  | some p => p.state == .ready
  | none => false

/-- The slot that `find_next_ready` looks at in round `i`. -/
def candidate (after : Pid) (i : Nat) : Pid :=
  ⟨((after.val + 1) % MAX_PROCESSES + i) % MAX_PROCESSES, Nat.mod_lt _ (by decide)⟩

/-- `find_next_ready`: the first ready process after the given one, and idle only when there is no
other. -/
def findNextReady (k : Kernel) (after : Pid) : Option Pid :=
  match ((List.range MAX_PROCESSES).map (candidate after)).find? fun i =>
      i != IDLE_PID && k.isReady i with
  | some i => some i
  | none => if k.isReady IDLE_PID then some IDLE_PID else none

/-- The choice that `switch_next`, `switch_next_force` and `kill_process` make. -/
def nextPid (k : Kernel) : Pid := (k.findNextReady (k.currentPid.getD IDLE_PID)).getD IDLE_PID

def setRunning (k : Kernel) (next : Pid) : Kernel :=
  match k.procs next with
  | none => { k with currentPid := some next }
  | some p => { k.setProc next (some { p with state := .running }) with currentPid := some next }

/-- The stack pointer of the process in a slot; 0 for an empty slot. -/
def stackPointerOf (k : Kernel) (pid : Pid) : Nat :=
  match k.procs pid with
  | some p => p.stackPointer
  | none => 0

/-! ## Scheduling decisions -/

def switchNext (k : Kernel) : Nat × Kernel :=
  let k := k.suspendCurrent
  let next := k.nextPid
  let k := k.setRunning next
  (k.stackPointerOf next, k)

/-- `deliver_signal` for the process that has just been picked; the idle process is skipped. -/
def deliverToCurrent (k : Kernel) : Except Panic Kernel :=
  match k.currentPid with
  | none => .ok k
  | some next => if next = IDLE_PID then .ok k else k.deliverSignal next

def switchNextForce (k : Kernel) : Except Panic (Nat × Kernel) :=
  let (sp, k) := k.switchNext
  match k.deliverToCurrent with
  | .error e => .error e
  | .ok k => .ok (sp, k)

def dispatchFirst (k : Kernel) (pid : Pid) : Nat × Kernel :=
  let k := { k.setRunning pid with tickCounter := 0 }
  (k.stackPointerOf pid, k)

/-- The running process becomes a zombie and its children go to init. -/
def killCurrent (k : Kernel) : Kernel :=
  match k.currentPid with
  | none => k
  | some old =>
    let k := k.reparentOrphansToInit old
    match k.procs old with
    | none => k
    | some p => k.setProc old (some { p with state := .zombie })

/-- `Scheduler::kill_process`. -/
def switchKilled (k : Kernel) : Nat × Kernel :=
  let k := k.killCurrent
  let next := k.nextPid
  let k := k.setRunning next
  (k.stackPointerOf next, k)

/-- `current_stack_pointer`.  With an empty current slot it looks for another process. -/
def currentStackPointer (k : Kernel) : Nat × Kernel :=
  match k.currentPid with
  | none => (0, k)
  | some pid =>
    match k.procs pid with
    | some p => (p.stackPointer, k)
    | none =>
      match k.findNextReady IDLE_PID with
      | none => (0, { k with currentPid := none })
      | some next => (k.stackPointerOf next, k.setRunning next)

/-- The loop of `on_tick` that wakes sleeping processes. -/
def wakeSleepers (k : Kernel) : Kernel :=
  k.wakeWhere fun _ p =>
    p.state == .blocked &&
      match p.wakeReason with
      | .sleep deadline => decide (deadline ≤ k.tickCount)
      | _ => false

/-- The first part of `on_tick`. -/
def countTick (k : Kernel) : Kernel :=
  ({ k with tickCounter := k.tickCounter + 1 } : Kernel).wakeSleepers

/-- `on_tick`.  When the quantum has expired it does the same as `switch_next_force`. -/
def onTick (k : Kernel) : Except Panic (Nat × Kernel) :=
  let k := k.countTick
  if DEFAULT_QUANTUM ≤ k.tickCounter then
    ({ k with tickCounter := 0 } : Kernel).switchNextForce
  else .ok k.currentStackPointer

/-! ## Context switches -/

def saveCurrentSp (k : Kernel) (sp : Nat) : Kernel :=
  match k.current with
  | none => k
  | some (pid, p) => k.setProc pid (some { p with stackPointer := sp, savedCr3 := k.cr3 })

def loadCr3 (k : Kernel) : Kernel :=
  match k.current with
  | none => k
  | some (_, p) => { k with cr3 := resumeCr3 p }

/-- The fallback for a stack pointer of 0: that of the idle process, or a halt. -/
def orIdle (k : Kernel) (sp : Nat) : Except Panic (Nat × Kernel) :=
  if sp = 0 then
    if k.stackPointerOf IDLE_PID ≠ 0 then .ok (k.stackPointerOf IDLE_PID, k) else .error .halt
  else .ok (sp, k)

/-- The first dispatch of `schedule`: the page table of the process is loaded later by the handler
(`DEFERRED_CR3`). -/
def firstDispatch (k : Kernel) (savedRsp : Nat) : Nat × Kernel :=
  match k.findNextReady IDLE_PID with
  | none => (savedRsp, k)
  | some first =>
    let (sp, k) := k.dispatchFirst first
    match k.current with
    | none => (sp, k)
    | some (_, p) => (sp, { k with cr3 := p.pml4Phys })

/-- The wake-up that an interrupt handler has asked for. -/
def wakeIfPending (k : Kernel) : Kernel :=
  if k.keyboardWakePending
    then ({ k with keyboardWakePending := false } : Kernel).keyboardWake else k

/-- The first part of `schedule`. -/
def beginTick (k : Kernel) : Except Panic Kernel :=
  match k.drainDeferredFree with
  | .error e => .error e
  | .ok k =>
    let k := k.wakeIfPending
    .ok { k with tickCount := k.tickCount + 1 }

/-- `schedule`, called by the timer interrupt. -/
def timerTick (k : Kernel) (savedRsp : Nat) : Except Panic (Nat × Kernel) :=
  match k.beginTick with
  | .error e => .error e
  | .ok k =>
    match k.currentPid with
    | none => .ok (k.firstDispatch savedRsp)
    | some _ =>
      match (k.saveCurrentSp savedRsp).onTick with
      | .error e => .error e
      | .ok (sp, k) => k.loadCr3.orIdle sp

/-- `schedule_force`, called at the end of a system call that gives up the CPU. -/
def forcedSwitch (k : Kernel) (savedRsp : Nat) : Except Panic (Nat × Kernel) :=
  let k := k.saveCurrentSp savedRsp
  match k.switchNextForce with
  | .error e => .error e
  | .ok (sp, k') =>
    let k' := k'.loadCr3
    match k.current with
    | none => k'.orIdle sp
    | some (pid, p) =>
      if p.state = .zombie then
        match k'.takeDead pid p with
        | .error e => .error e
        | .ok k' => k'.orIdle sp
      else k'.orIdle sp

/-- `kill_process`, called by the fault handlers. -/
def faultKill (k : Kernel) : Except Panic (Nat × Kernel) :=
  let (sp, k') := k.switchKilled
  let k' := k'.loadCr3
  match k.current with
  | none => .ok (sp, k')
  | some (pid, p) =>
    match k'.takeDead pid p with
    | .error e => .error e
    | .ok k' => .ok (sp, k')

end Kernel

end Indominus.Sys
