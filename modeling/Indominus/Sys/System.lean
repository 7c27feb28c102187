import Indominus.Sys.Run
import Indominus.Sys.Wait

/-!
# The kernel as a transition system

Interrupts are off in the kernel, so every entry is one step.  What comes from outside is an
argument.
-/

namespace Indominus.Sys

open Memory

inductive Syscall
  | read (dev : Devices) (fd bufPtr count : Nat)
  | write (dev : Devices) (fd bufPtr count : Nat)
  /-- `sys_open`. -/
  | openFile (file : Except Errno Nat) (flags : Nat)
  | close (fd : Nat)
  | pipe
  | dup (fd : Nat)
  | dup2 (oldfd newfd : Nat)
  | fork (stack extraStack : Option Nat)
  | exec (file : BytesResult)
  | execve (file : BytesResult) (argv : List (List Byte))
  | exit (code : Nat)
  | waitpid (childPid flags : Nat)
  | sleep (ticks : Nat)
  | yield
  | kill (pid signum : Nat)
  | sigaction (signum handler oldHandlerPtr : Nat)
  | setpgid (pid pgid : Nat)
  | getpgid (pid : Nat)
  | brk (newBrk : Nat)
  | mmap (length : Nat)
  | munmap (addr length : Nat)

inductive Event
  | spawnIdle (stack : Option Nat)
  | spawnKernel (stack : Option Nat)
  | spawnUser (elf : List Byte) (parent stack : Option Nat)
  /-- `process::spawn_user` for the init process, whose number goes to `INIT_PID`. -/
  | spawnInit (elf : List Byte) (stack : Option Nat)
  | timer (savedRsp : Nat) (frame : Frame)
  /-- The keyboard interrupt for a character that sends a signal. -/
  | key (signal : Nat)
  /-- The keyboard interrupt for the end of a line. -/
  | line
  | syscall (savedRsp : Nat) (frame : Frame) (call : Syscall)
  /-- A fatal fault of the running user process. -/
  | fault
  | store (va : Nat) (b : Byte)
  /-- A round of `init_main`. -/
  | initRound

namespace Kernel

/-! ## System calls -/

/-- `syscall_dispatch`. -/
def handle (M : Mapper) (k : Kernel) : Syscall → CallOutcome
  | .read dev fd bufPtr count =>
    let r := sysRead dev k fd bufPtr count
    .ok (r.ret, r.kernel)
  | .write dev fd bufPtr count => .ok (sysWrite dev k fd bufPtr count)
  | .openFile file flags => .ok (k.sysOpen file flags)
  | .close fd => .ok (k.sysClose fd)
  | .pipe => .ok k.sysPipe
  | .dup fd => .ok (k.sysDup fd)
  | .dup2 oldfd newfd => .ok (k.sysDup2 oldfd newfd)
  | .fork stack extraStack => k.sysFork stack extraStack
  | .exec file => k.sysExec M file
  | .execve file argv => k.sysExecve M file argv
  | .exit code => .ok (.ok 0, k.sysExitCall code)
  | .waitpid childPid flags => k.sysWaitpid childPid flags
  | .sleep ticks => .ok (.ok 0, k.sysSleep ticks)
  | .yield => .ok (.ok 0, k.sysYield)
  | .kill pid signum => .ok (k.sysKill pid signum)
  | .sigaction signum handler oldHandlerPtr => k.sysSigaction signum handler oldHandlerPtr
  | .setpgid pid pgid => .ok (k.sysSetpgid pid pgid)
  | .getpgid pid => .ok (k.sysGetpgid pid, k)
  | .brk newBrk => k.sysBrk M newBrk
  | .mmap length => k.sysMmap M length
  | .munmap addr length => k.sysMunmap M addr length

/-- The entry code: the user registers go to the kernel stack of the running process. -/
def enter (k : Kernel) (frame : Frame) : Kernel :=
  match k.current with
  | none => k
  | some (pid, p) => if p.isUser then k.setProc pid (some { p with frame := frame }) else k

/-- The end of a system call: a forced switch if the call asked for one. -/
def finishCall (k : Kernel) (savedRsp : Nat) : Except Panic Kernel :=
  if k.forceSwitch then
    (({ k with forceSwitch := false } : Kernel).forcedSwitch savedRsp).map Prod.snd
  else .ok k

def syscall (M : Mapper) (k : Kernel) (savedRsp : Nat) (frame : Frame) (call : Syscall) :
    Except Panic Kernel :=
  match (k.enter frame).handle M call with
  | .error e => .error e
  | .ok (_, k) => k.finishCall savedRsp

/-! ## Faults -/

/-- A fatal fault: without a stack to resume on the kernel halts. -/
def fatalFault (k : Kernel) : Except Panic Kernel :=
  match k.faultKill with
  | .error e => .error e
  | .ok (sp, k) => if sp = 0 then .error .halt else .ok k

/-- A one-byte store of the running process, as `userStore` has it, with the scheduler's own choice
of the next process. -/
def storeByte (k : Kernel) (va : Nat) (b : Byte) : Except Panic Kernel :=
  match if va < USER_SPACE_END then storeTarget k.machine.ram k.cr3 va else none with
  | some addr => .ok { k with machine := { k.machine with ram := k.machine.ram.setByte addr b } }
  | none =>
    if va < USER_SPACE_END then
      match handleCowFault k.machine k.cr3 va with
      | .error e => .error e
      | .ok (true, s) => .ok { k with machine := s }
      | .ok (false, s) => { k with machine := s }.fatalFault
    else k.fatalFault

/-- Does a store to this address end in a fatal fault? -/
def storeFatal (k : Kernel) (va : Nat) : Bool :=
  match if va < USER_SPACE_END then storeTarget k.machine.ram k.cr3 va else none with
  | some _ => false
  | none =>
    if va < USER_SPACE_END then
      match handleCowFault k.machine k.cr3 va with
      | .error _ => false
      | .ok (copied, _) => !copied
    else true

def faults (k : Kernel) : Event → Bool
  | .fault => true
  | .store va _ => k.storeFatal va
  | _ => false

/-! ## Steps -/

/-- The kernel's `main` starts the init process and remembers its number. -/
def spawnInit (M : Mapper) (k : Kernel) (elf : List Byte) (stack : Option Nat) :
    Except Panic Kernel :=
  match k.spawnUser M elf none stack with
  | .error e => .error e
  | .ok (some pid, k) => .ok { k with initPid := pid }
  | .ok (none, k) => .ok k

def onKernelTable (k : Kernel) : Bool := k.cr3 == k.kernelPml4

def reaperRunning (k : Kernel) : Bool :=
  match k.current with
  | some (pid, p) => pid.val == 1 && !p.isUser
  | none => false

def canHappen (k : Kernel) : Event → Bool
  | .spawnIdle _ => k.onKernelTable && (k.procs IDLE_PID).isNone
  | .spawnKernel _ | .spawnUser _ _ _ | .spawnInit _ _ => k.onKernelTable
  | .timer _ _ | .line => true
  | .key signal => signal == 2 || signal == 3 || signal == 20
  | .syscall _ _ _ | .fault | .store _ _ => k.userRunning
  | .initRound => k.reaperRunning

def react (M : Mapper) (k : Kernel) : Event → Except Panic Kernel
  | .spawnIdle stack => k.spawnIdle stack
  | .spawnKernel stack => .ok (k.spawnKernel stack).2
  | .spawnUser elf parent stack => (k.spawnUser M elf parent stack).map Prod.snd
  | .spawnInit elf stack => k.spawnInit M elf stack
  | .timer savedRsp frame => ((k.enter frame).timerTick savedRsp).map Prod.snd
  | .key signal => .ok (k.sendSignalToFg signal)
  | .line => .ok { k with keyboardWakePending := true }
  | .syscall savedRsp frame call => k.syscall M savedRsp frame call
  | .fault => k.fatalFault
  | .store va b => k.storeByte va b
  | .initRound => k.initRound

def Steps (M : Mapper) (k : Kernel) (ev : Event) (k' : Kernel) : Prop :=
  k.canHappen ev = true ∧ k.react M ev = .ok k'

/-- The states that the kernel can get to when each step meets a condition on the event and the
state before it. -/
def Runs (M : Mapper) (cond : Kernel → Event → Prop) : Kernel → Kernel → Prop :=
  Relation.ReflTransGen fun k k' => ∃ ev, cond k ev ∧ k.Steps M ev k'

/-- The empty kernel, as `Scheduler::new` leaves it. -/
structure Blank (k : Kernel) : Prop where
  procs : ∀ pid, k.procs pid = none
  generations : ∀ pid, k.generations pid = 0
  currentPid : k.currentPid = none
  pipes : ∀ i, k.pipes i = none
  deferred : k.deferred = []
  cr3 : k.cr3 = k.kernelPml4
  initPid : k.initPid = IDLE_PID
  forceSwitch : k.forceSwitch = false

/-! ## Scheduling decisions -/

/-- The kernel where the event makes a scheduling decision that delivers a signal, if it does. -/
def decision (M : Mapper) (k : Kernel) : Event → Option Kernel
  | .timer savedRsp frame =>
    match (k.enter frame).beginTick with
    | .error _ => none
    | .ok k =>
      match k.currentPid with
      | none => none
      | some _ =>
        let k := (k.saveCurrentSp savedRsp).countTick
        if DEFAULT_QUANTUM ≤ k.tickCounter then some { k with tickCounter := 0 } else none
  | .syscall savedRsp frame call =>
    match (k.enter frame).handle M call with
    | .error _ => none
    | .ok (_, k) =>
      if k.forceSwitch then some (({ k with forceSwitch := false } : Kernel).saveCurrentSp savedRsp)
      else none
  | _ => none

/-! ## A small system -/

section Play

variable {M : Mapper} {cond : Kernel → Event → Prop} [∀ k ev, Decidable (cond k ev)]
  {evs : List Event} {k k' : Kernel}

/-- The kernel after a sequence of events, if each of them can happen and meets the condition and
none panics. -/
def play (M : Mapper) (cond : Kernel → Event → Prop) [∀ k ev, Decidable (cond k ev)] :
    List Event → Kernel → Option Kernel
  | [], k => some k
  | ev :: evs, k =>
    if cond k ev ∧ k.canHappen ev = true then
      match k.react M ev with
      | .error _ => none
      | .ok k => play M cond evs k
    else none

lemma runs_of_play (h : play M cond evs k = some k') : Runs M cond k k' := by
  induction evs generalizing k with
  | nil => exact Option.some.inj h ▸ .refl
  | cons ev evs ih =>
    rw [play] at h
    split at h
    · rename_i hmay
      split at h
      · cases h
      · rename_i k1 hre
        exact .head ⟨ev, hmay.1, hmay.2, hre⟩ (ih h)
    · cases h

/-- Does the sequence of events end in a kernel that passes the test? -/
def plays (M : Mapper) (cond : Kernel → Event → Prop) [∀ k ev, Decidable (cond k ev)]
    (evs : List Event) (k : Kernel) (test : Kernel → Bool) : Bool :=
  (play M cond evs k).any test

lemma runs_of_plays {test : Kernel → Bool} (h : plays M cond evs k test = true) :
    ∃ k', Runs M cond k k' ∧ test k' = true := by
  rw [plays, Option.any_eq_true] at h
  obtain ⟨k', hplay, htest⟩ := h
  exact ⟨k', runs_of_play hplay, htest⟩

/-- Can the event happen, and does it end in a kernel that passes the test? -/
def stepMeets (M : Mapper) (k : Kernel) (ev : Event) (test : Kernel → Bool) : Bool :=
  k.canHappen ev &&
    match k.react M ev with
    | .error _ => false
    | .ok k => test k

lemma steps_of_stepMeets {ev : Event} {test : Kernel → Bool}
    (h : stepMeets M k ev test = true) : ∃ k', k.Steps M ev k' ∧ test k' = true := by
  rw [stepMeets, Bool.and_eq_true] at h
  obtain ⟨hcan, htest⟩ := h
  split at htest
  · cases htest
  · rename_i k' hre
    exact ⟨k', ⟨hcan, hre⟩, htest⟩

end Play

/-- An empty kernel on a machine of 64 frames. -/
def emptyKernel : Kernel where
  machine := bootMachine
  cr3 := 1
  kernelPml4 := 1
  procs _ := none
  generations _ := 0
  currentPid := none
  tickCounter := 0
  tickCount := 0
  keyboardWakePending := false
  forceSwitch := false
  initPid := IDLE_PID
  pipes _ := none
  deferred := []
  prng := 0

lemma emptyKernel_blank : emptyKernel.Blank :=
  ⟨fun _ => rfl, fun _ => rfl, rfl, fun _ => rfl, rfl, rfl, rfl, rfl⟩

/-- Timer interrupts until the running process has used up its quantum. -/
def quantum : List Event := List.replicate DEFAULT_QUANTUM (.timer 0x1000 ⟨0, 0, 0⟩)

/-- The slot of init in the small system. -/
def initSlot : Pid := ⟨2, two_lt_maxProcesses⟩

/-- The slot of its first child. -/
def childSlot : Pid := ⟨3, by decide⟩

/-- The slot of the child's child. -/
def grandchildSlot : Pid := ⟨4, by decide⟩

def call (c : Syscall) : Event := .syscall 0x1000 ⟨0x400000, 0x500000, 0⟩ c

/-- A machine without files and without input. -/
def noDevices : Devices := ⟨fun _ => [], fun _ _ => .error .EBADF, fun _ _ => .error .EBADF⟩

/-- Idle, the reaper and init in slots 0, 1 and 2; then a dispatch and a quantum, so that init
runs. -/
def bootEvents : List Event :=
  [.spawnIdle (some 0x10000), .spawnKernel (some 0x20000), .spawnInit tinyElf (some 0x30000),
    .timer 0x1000 ⟨0, 0, 0⟩] ++ quantum

end Kernel

end Indominus.Sys
