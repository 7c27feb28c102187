import Indominus.Sys.Dispatch

/-! # Waiting, sleeping and reaping (`syscall/mod.rs`, `process/scheduler.rs`, `process/init.rs`) -/

namespace Indominus.Sys

open Memory

namespace Kernel

/-! ## Children -/

def getGeneration (k : Kernel) (pid : Pid) : Nat := k.generations pid

/-- Is `parent`, of the given generation, recorded as the parent of the process? -/
def hasParent (p : Process) (parent : Pid) (parentGen : Nat) : Bool :=
  p.parentPid == some parent.val && p.parentGeneration == parentGen

def isChildOf (k : Kernel) (child : Nat) (parent : Pid) (parentGen : Nat) : Bool :=
  match (pidSlot child).bind k.procs with
  | some p => hasParent p parent parentGen
  | none => false

/-- The first process of the table that meets a test. -/
def firstProcess (k : Kernel) (test : Process → Bool) : Option Process :=
  (List.finRange MAX_PROCESSES).findSome? fun i =>
    match k.procs i with
    | some p => if test p then some p else none
    | none => none

def findAnyZombieChild (k : Kernel) (parent : Pid) : Option Process :=
  k.firstProcess fun p => hasParent p parent (k.getGeneration parent) && p.state == .zombie

def findAnyStoppedChild (k : Kernel) (parent : Pid) : Option Process :=
  k.firstProcess fun p =>
    hasParent p parent (k.getGeneration parent) && p.state == .blocked && p.wakeReason == .none &&
      p.stopSignal != 0

/-- The test of `sys_waitpid` for any child at all; slot 0 is left out. -/
def hasChildren (k : Kernel) (parent : Pid) : Bool :=
  (List.finRange MAX_PROCESSES).any fun i =>
    i.val != 0 &&
      match k.procs i with
      | some p => hasParent p parent (k.getGeneration parent)
      | none => false

/-! ## `sys_waitpid` -/

/-- `WNOHANG` is set. -/
def noHang (flags : Nat) : Bool := flags.testBit 0

/-- `WUNTRACED` is set. -/
def untraced (flags : Nat) : Bool := flags.testBit 1

/-- The second step of `sys_waitpid`: reap the child that was found, or wait for it. -/
def waitFor (k : Kernel) (found flags : Nat) : CallOutcome :=
  match pidSlot found with
  | none => .error .halt
  | some slot =>
    let isZombie : Bool :=
      match k.procs slot with
      | some p => p.state == .zombie
      | none => false
    if isZombie then
      match k.reapZombie slot with
      | .error e => .error e
      | .ok k => .ok (.ok found, k)
    else if noHang flags then .ok (.ok 0, k)
    else .ok (.ok 0, k.block (.waitForChild found))

/-- `sys_waitpid` for any child that has ended, when there is none yet. -/
def waitAny (k : Kernel) (parent : Pid) (flags : Nat) : SysResult × Kernel :=
  match if untraced flags then k.findAnyStoppedChild parent else none with
  | some c => (.ok (c.pid * 2 ^ 16 ||| c.stopSignal * 2 ^ 8 ||| 0x7f), k)
  | none =>
    if noHang flags then (.ok 0, k)
    else if ¬ k.hasChildren parent then (.error .ESRCH, k)
    else (.ok 0, k.block (.waitForChild 0))

def sysWaitpid (k : Kernel) (childPid flags : Nat) : CallOutcome :=
  match k.currentPid with
  | none => .ok (.error .ESRCH, k)
  | some parent =>
    if childPid = 0 then
      match k.findAnyZombieChild parent with
      | some c => k.waitFor c.pid flags
      | none => .ok (k.waitAny parent flags)
    else if ¬ k.isChildOf childPid parent (k.getGeneration parent) then .ok (.error .ESRCH, k)
    else k.waitFor childPid flags

/-! ## Giving up the CPU -/

def sysSleep (k : Kernel) (ticks : Nat) : Kernel :=
  k.block (.sleep ((k.tickCount + ticks) % 2 ^ 64))

def sysYield (k : Kernel) : Kernel := { k with forceSwitch := true }

/-- `sys_exit`; the switch to another process comes at the end of the system call. -/
def sysExitCall (k : Kernel) (exitCode : Nat) : Kernel :=
  let pid := (k.currentPid.map fun pid => pid.val).getD 0
  { (k.exitCurrent exitCode).wakeWaitForChild pid with forceSwitch := true }

/-! ## The reaper -/

/-- `reap_zombie` for a list of processes in turn. -/
def reapAll : List Nat → Kernel → Except Panic Kernel
  | [], k => .ok k
  | pid :: pids, k =>
    match pidSlot pid with
    | none => .error .halt
    | some slot =>
      match k.reapZombie slot with
      | .error e => .error e
      | .ok k => reapAll pids k

/-- The zombies that `init_main` finds: their recorded parent is process 1, of any generation. -/
def initZombies (k : Kernel) : List Nat :=
  (List.finRange MAX_PROCESSES).filterMap fun i =>
    match k.procs i with
    | some p => if p.parentPid = some 1 ∧ p.state = .zombie then some p.pid else none
    | none => none

/-- One round of `init_main`. -/
def initRound (k : Kernel) : Except Panic Kernel := reapAll k.initZombies k

/-! ## Kernel processes -/

/-- `spawn_idle`: the kernel halts when it gets no stack. -/
def spawnIdle (k : Kernel) (stack : Option Nat) : Except Panic Kernel :=
  match stack with
  | none => .error .halt
  | some stackBase =>
    .ok (k.setProc IDLE_PID
      (some { Process.newKernel IDLE_PID.val k.cr3 stackBase with generation := 1 }))

def spawnKernel (k : Kernel) (stack : Option Nat) : Option Pid × Kernel :=
  match k.freeSlot with
  | none => (none, k)
  | some slot =>
    let gen := (k.generations slot + 1) % 2 ^ 32
    let k := { k with generations := Function.update k.generations slot gen }
    match stack with
    | none => (none, k)
    | some stackBase =>
      (some slot, k.setProc slot
        (some { Process.newKernel slot.val k.cr3 stackBase with generation := gen }))

end Kernel

end Indominus.Sys
