import Indominus.Sys.Lifecycle

/-!
# Signals (`process/scheduler.rs`, `process/mod.rs`, `syscall/mod.rs`)

An index past the end of the process table is a panic of the kernel.
-/

namespace Indominus.Sys

open Memory

/-- `1 << (signum - 1)`. -/
def signalBit (signum : Nat) : BitVec 32 := 1#32 <<< (signum - 1)

/-- The slot that a stored process number names, if it is in range. -/
def pidSlot (pid : Nat) : Option Pid := if h : pid < MAX_PROCESSES then some ⟨pid, h⟩ else none

@[simp] lemma pidSlot_val (pid : Pid) : pidSlot pid.val = some pid := by
  simp [pidSlot]

namespace Process

def sendSignal (p : Process) (signum : Nat) : Process :=
  if signum = 0 ∨ 31 < signum then p
  else { p with signalsPending := p.signalsPending ||| signalBit signum }

/-- `has_pending_signal`: the lowest signal that is pending and not blocked. -/
def hasPendingSignal (p : Process) : Option Nat :=
  let pending := p.signalsPending &&& ~~~p.signalsBlocked
  ((List.range 32).find? fun i => pending.getLsbD i).map (· + 1)

def signalHandler (p : Process) (signum : Nat) : Nat :=
  if h : 1 ≤ signum ∧ signum ≤ 31 then p.signalHandlers ⟨signum - 1, by omega⟩ else 0

/-- `signals_pending &= !(1 << (signum - 1))`. -/
def clearPending (p : Process) (signum : Nat) : Process :=
  { p with signalsPending := p.signalsPending &&& ~~~signalBit signum }

def terminated (p : Process) (signum : Nat) : Process :=
  { p with state := .zombie, exitCode := signum, terminatedBySignal := true }

def stopped (p : Process) (signum : Nat) : Process :=
  { p with state := .blocked, wakeReason := .none, stopSignal := signum }

/-- The default action of `deliver_signal`: 20 stops, 18 and 19 do nothing, every other signal
terminates. -/
def defaultAction (p : Process) (signum : Nat) : Process :=
  if signum = 20 then (p.stopped signum).clearPending signum
  else if signum = 18 ∨ signum = 19 then p.clearPending signum
  else (p.terminated signum).clearPending signum

end Process

/-! ## Stores of kernel code to user memory -/

/-- The physical address that a kernel-mode store to `va` reaches; `none` is a page fault. -/
def kernelTarget (m : PhysMem) (pml4 va : Nat) : Option Nat := do
  let next (level : Nat) (e : Word) : Option Nat :=
    if Pte.isWritable e then Pte.target level e else none
  let pdpt ← next 3 (m.entry pml4 (pml4Index va))
  let pd ← next 2 (m.entry pdpt (pdptIndex va))
  let pt ← next 1 (m.entry pd (pdIndex va))
  let frame ← next 0 (m.entry pt (ptIndex va))
  return frame * PAGE_SIZE + va % PAGE_SIZE

/-- A one-byte store of kernel code; a write fault goes to `handle_cow_fault`, and halts if not
resolved. -/
def kernelStore (s : Machine) (pml4 va : Nat) (b : Byte) : Except Panic Machine :=
  if va < USER_SPACE_END then
    match kernelTarget s.ram pml4 va with
    | some addr => .ok { s with ram := s.ram.setByte addr b }
    | none =>
      match handleCowFault s pml4 va with
      | .error e => .error e
      | .ok (false, _) => .error .halt
      | .ok (true, s) =>
        match kernelTarget s.ram pml4 va with
        | some addr => .ok { s with ram := s.ram.setByte addr b }
        | none => .error .halt
  else .error .halt

def kernelStores (pml4 : Nat) : (va : Nat) → List Byte → Machine → Except Panic Machine
  | _, [], s => .ok s
  | va, b :: bs, s =>
    match kernelStore s pml4 va b with
    | .error e => .error e
    | .ok s => kernelStores pml4 (va + 1) bs s

namespace Kernel

/-! ## `deliver_signal` -/

/-- A parent whose wake reason is this very child becomes ready, whatever its state is. -/
def wakeSignalledParent (k : Kernel) (pid : Pid) (p : Process) : Except Panic Kernel :=
  match p.parentPid with
  | none => .ok k
  | some parent =>
    match pidSlot parent with
    | none => .error .halt
    | some slot =>
      match k.procs slot with
      | none => .ok k
      | some q =>
        if q.generation = p.parentGeneration ∧ q.wakeReason = .waitForChild pid.val then
          .ok (k.setProc slot (some (woken q)))
        else .ok k

/-- Is this user stack pointer one that `deliver_signal` can push a return address to? -/
def pushable (rsp : Nat) : Bool := decide (8 ≤ rsp) && decide (rsp - 8 ≤ USER_ADDR_MAX)

/-- The user-handler branch of `deliver_signal`: the return address goes to the user stack.  A stack
pointer outside user space kills the process. -/
def callHandler (k : Kernel) (pid : Pid) (p : Process) (signum handler : Nat) :
    Except Panic Kernel :=
  if p.stackPointer = 0 ∨ p.pml4Phys = 0 then .ok k
  else if ¬ pushable p.frame.rsp then
    .ok (k.setProc pid (some ((p.terminated 11).clearPending signum)))
  else
    let rsp := p.frame.rsp - 8
    match kernelStores p.pml4Phys rsp (wordBytes p.frame.rip) k.machine with
    | .error e => .error e
    | .ok s =>
      .ok ({ k with machine := s }.setProc pid
        (some ({ p with frame := ⟨handler, rsp, signum⟩ }.clearPending signum)))

def deliverSignal (k : Kernel) (pid : Pid) : Except Panic Kernel :=
  match k.procs pid with
  | none => .ok k
  | some p =>
    if ¬ p.isUser then .ok k
    else
      match p.hasPendingSignal with
      | none => .ok k
      | some signum =>
        match p.signalHandler signum with
        | 0 =>
          let p := p.defaultAction signum
          (k.setProc pid (some p)).wakeSignalledParent pid p
        | 1 => .ok (k.setProc pid (some (p.clearPending signum)))
        | handler => k.callHandler pid p signum handler

/-! ## `send_signal_to_fg` -/

/-- The process group of the first user process, from slot 1 on, that is in the given state. -/
def firstPgid (k : Kernel) (state : ProcessState) : Option Nat :=
  (List.finRange MAX_PROCESSES).findSome? fun i =>
    match k.procs i with
    | some p => if i.val ≠ 0 ∧ p.isUser ∧ p.state = state then some p.pgid else none
    | none => none

/-- The foreground process group: that of the running user process, or else of the first ready
one. -/
def foregroundPgid (k : Kernel) : Option Nat :=
  match k.firstPgid .running with
  | some pgid => some pgid
  | none => k.firstPgid .ready

/-- Does `send_signal_to_fg` send the signal to this process? -/
def isForegroundTarget (k : Kernel) (signal : Nat) (i : Pid) (p : Process) : Bool :=
  i.val != 0 && p.isUser && k.foregroundPgid == some p.pgid && p.state != .zombie &&
    !p.signalsBlocked.getLsbD (signal - 1)

/-- What `send_signal_to_fg` does to a process of the group. -/
def foregroundAction (signal : Nat) (p : Process) : Process :=
  if signal = 2 ∨ signal = 3 then p.terminated signal
  else if signal = 20 then p.stopped signal
  else if signal = 18 then
    if p.state = .blocked ∧ p.wakeReason = .none then { p with state := .ready } else p
  else p

/-- The process numbers that the signal kills. -/
def foregroundKilled (k : Kernel) (signal : Nat) : List Nat :=
  if signal = 2 ∨ signal = 3 then
    (List.finRange MAX_PROCESSES).filterMap fun i =>
      match k.procs i with
      | some p => if k.isForegroundTarget signal i p then some p.pid else none
      | none => none
  else []

/-- The loop that wakes the parents of the killed processes: it looks at the wake reason, not at the
state. -/
def wakeKilledParents (k : Kernel) (killed : List Nat) : Kernel :=
  k.wakeWhere fun i p =>
    i.val != 0 &&
      match p.wakeReason with
      | .waitForChild child => killed.any fun z => child == z || child == 0
      | _ => false

/-- The wake-up test at the end of `send_signal_to_fg`, without read ends and children. -/
def inlineWake (k : Kernel) (p : Process) : Bool :=
  p.state == .blocked &&
    match p.wakeReason with
    | .keyboard => true
    | .pipeRead idx =>
      match (pipeSlot idx).bind k.pipes with
      | some q => decide (q.nread < q.nwrite) || !q.writeOpen
      | none => false
    | .pipeWrite idx =>
      match (pipeSlot idx).bind k.pipes with
      | some q => decide (q.nwrite < (q.nread + PIPE_SIZE) % 2 ^ 32)
      | none => false
    | _ => false

/-- The first loop of `send_signal_to_fg`. -/
def signalForeground (k : Kernel) (signal : Nat) : Kernel :=
  { k with
    procs := fun i => (k.procs i).map fun p =>
      if k.isForegroundTarget signal i p then foregroundAction signal p else p }

def sendSignalToFg (k : Kernel) (signal : Nat) : Kernel :=
  let killed := k.foregroundKilled signal
  let k := (k.signalForeground signal).wakeKilledParents killed
  k.wakeWhere fun _ p => k.inlineWake p

/-! ## System calls -/

def sysKill (k : Kernel) (pid signum : Nat) : SysResult × Kernel :=
  if signum = 0 ∨ 31 < signum then (.error .EINVAL, k)
  else
    match pidSlot pid with
    | none => (.error .ESRCH, k)
    | some slot =>
      match k.procs slot with
      | none => (.error .ESRCH, k)
      | some p =>
        if p.state = .zombie then (.error .ESRCH, k)
        else (.ok 0, k.setProc slot (some (p.sendSignal signum)))

/-- `sys_sigaction`; the old handler goes to user memory if the caller asks for it. -/
def sysSigaction (k : Kernel) (signum handler oldHandlerPtr : Nat) :
    CallOutcome :=
  if h : signum = 0 ∨ 31 < signum then .ok (.error .EINVAL, k)
  else if handler ≠ 0 ∧ USER_SPACE_END ≤ handler then .ok (.error .EINVAL, k)
  else
    let pid := k.currentPid.getD ⟨0, zero_lt_maxProcesses⟩
    match k.procs pid with
    | none => .ok (.error .ESRCH, k)
    | some p =>
      let index : Fin 32 := ⟨signum - 1, by omega⟩
      let p' := { p with signalHandlers := Function.update p.signalHandlers index handler }
      if oldHandlerPtr = 0 then .ok (.ok 0, k.setProc pid (some p'))
      else if ¬ isValidUserRange oldHandlerPtr 8 then .ok (.error .EFAULT, k)
      else if ¬ isUserBufferMapped k.machine.ram p.pml4Phys oldHandlerPtr 8 then
        .ok (.error .EFAULT, k)
      else
        match kernelStores k.cr3 oldHandlerPtr (wordBytes (p.signalHandlers index)) k.machine with
        | .error e => .error e
        | .ok s => .ok (.ok 0, { k with machine := s }.setProc pid (some p'))

/-- The process that `sys_setpgid` and `sys_getpgid` name: 0 is the caller. -/
def pgidTarget (k : Kernel) (pid : Nat) : Nat :=
  if pid = 0 then (k.currentPid.map fun pid => pid.val).getD 0 else pid

def sysSetpgid (k : Kernel) (pid pgid : Nat) : SysResult × Kernel :=
  let target := k.pgidTarget pid
  match pidSlot target with
  | none => (.error .ESRCH, k)
  | some slot =>
    match k.procs slot with
    | none => (.error .ESRCH, k)
    | some p => (.ok 0, k.setProc slot (some { p with pgid := if pgid = 0 then target else pgid }))

def sysGetpgid (k : Kernel) (pid : Nat) : SysResult :=
  match (pidSlot (k.pgidTarget pid)).bind k.procs with
  | none => .error .ESRCH
  | some p => .ok p.pgid

end Kernel

end Indominus.Sys
