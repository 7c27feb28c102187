import Indominus.Memory.Vmm
import Indominus.Sys.Pipe

/-!
# Processes and the kernel state (`process/process.rs`, `process/scheduler.rs`)

A process has the fields that the modelled calls use.  The answer of the kernel heap is an argument.
 Every operation runs with interrupts off on one CPU, so it is one step.
-/

namespace Indominus.Sys

open Lib
open Memory (Byte Machine Panic)

def MAX_PROCESSES : Nat := 32

lemma zero_lt_maxProcesses : 0 < MAX_PROCESSES := by decide

lemma one_lt_maxProcesses : 1 < MAX_PROCESSES := by decide

lemma two_lt_maxProcesses : 2 < MAX_PROCESSES := by decide

def MAX_FDS : Nat := 16

def MAX_FILE_HANDLES : Nat := 16

def MAX_PIPES : Nat := 16

def MAX_PIPES_PER_PROCESS : Nat := 8

def MAX_MMAP_REGIONS : Nat := 16

def MAX_DEFERRED : Nat := 8

def KERNEL_STACK_SIZE : Nat := 8192

abbrev Pid := Fin MAX_PROCESSES

abbrev Fd := Fin MAX_FDS

abbrev PipeIdx := Fin MAX_PIPES

abbrev PipeSlots := PipeIdx → Option Pipe

/-- `FdType`.  Pipe and handle indices are the bytes the source stores. -/
inductive FdType
  | none
  | stdin
  | stdout
  | stderr
  | null
  | tty
  | pipe (pipeIdx : Nat) (writable : Bool)
  | fsFile (index : Nat)
  deriving DecidableEq, Repr

inductive WakeReason
  | none
  | sleep (deadline : Nat)
  | keyboard
  | pipeRead (pipeIdx : Nat)
  | pipeWrite (pipeIdx : Nat)
  | waitForChild (childPid : Nat)
  deriving DecidableEq, Repr

inductive ProcessState
  | ready
  | running
  | blocked
  | zombie
  deriving DecidableEq, Repr

inductive Errno
  | ENOENT
  | ESRCH
  | EBADF
  | ENOMEM
  | EFAULT
  | EINVAL
  | EMFILE
  | ENOEXEC
  | E2BIG
  | EIO
  deriving DecidableEq, Repr

/-- What a system call returns: a value, or a negative error code. -/
abbrev SysResult := Except Errno Nat

abbrev BytesResult := Except Errno (List Byte)

/-- The saved user registers that `deliver_signal` uses; a kernel process has none. -/
structure Frame where
  rip : Nat
  rsp : Nat
  rdi : Nat
  deriving DecidableEq, Repr

/-- `FpuState`: the 512 bytes of an `fxsave` area. -/
abbrev FpuState := BitVec 4096

structure Process where
  pid : Nat
  state : ProcessState
  /-- `stack_pointer`: where the frame of the process was saved. -/
  stackPointer : Nat
  frame : Frame
  /-- `kernel_stack_base`; 0 when the stack has been handed to the deferred-free list. -/
  kernelStackBase : Nat
  /-- `pml4_phys`, as a frame; 0 when the address space has been handed over. -/
  pml4Phys : Nat
  /-- `saved_cr3`, as a frame; 0 when none was saved. -/
  savedCr3 : Nat
  userRip : Option Nat
  userRsp : Option Nat
  exitCode : Nat
  terminatedBySignal : Bool
  stopSignal : Nat
  isUser : Bool
  parentPid : Option Nat
  parentGeneration : Nat
  generation : Nat
  wakeReason : WakeReason
  fdTypes : Fd → FdType
  /-- `fd_flags`; bit 0 is close-on-exec. -/
  fdFlags : Fd → Nat
  /-- `file_handles`: the open file each slot shares. -/
  fileHandles : Fin MAX_FILE_HANDLES → Option Nat
  heapStart : Nat
  heapEnd : Nat
  /-- The first `mmap_count` entries of `mmap_regions`: base address and number of pages. -/
  mmapRegions : List (Nat × Nat)
  /-- `signals_pending`: bit `n` is signal `n + 1`. -/
  signalsPending : BitVec 32
  /-- `signals_blocked`: bit `n` is signal `n + 1`. -/
  signalsBlocked : BitVec 32
  /-- `signal_handlers`: entry `n` is for signal `n + 1`; 0 is the default action, 1 ignores, else
  an address. -/
  signalHandlers : Fin 32 → Nat
  pgid : Nat
  pipeCount : Nat
  /-- `cwd`, up to its terminating zero. -/
  cwd : List Byte
  /-- `fpu_state`: the FPU and SSE registers, as `fxsave` stored them at the last switch. -/
  fpuState : FpuState

namespace Process

/-- `Process::new_kernel`: no file descriptors; `pml4` is the CR3 of the caller.  The stack
is the answer of the kernel heap. -/
def newKernel (pid pml4 stackBase : Nat) : Process where
  pid := pid
  state := .ready
  stackPointer := stackBase + KERNEL_STACK_SIZE - 20 * 8
  frame := ⟨0, 0, 0⟩
  kernelStackBase := stackBase
  pml4Phys := pml4
  savedCr3 := 0
  userRip := none
  userRsp := none
  exitCode := 0
  terminatedBySignal := false
  stopSignal := 0
  isUser := false
  parentPid := none
  parentGeneration := 0
  generation := 0
  wakeReason := .none
  fdTypes _ := .none
  fdFlags _ := 0
  fileHandles _ := none
  heapStart := 0
  heapEnd := 0
  mmapRegions := []
  signalsPending := 0
  signalsBlocked := 0
  signalHandlers _ := 0
  pgid := 0
  pipeCount := 0
  cwd := [0x2F]
  fpuState := 0

/-- `Process::new_user`: descriptors 0, 1 and 2 are open. -/
def newUser (pid userRip userRsp pml4 : Nat) (parentPid : Option Nat) (parentGeneration : Nat)
    (stackBase : Nat) : Process :=
  { newKernel pid pml4 stackBase with
    frame := ⟨userRip, userRsp, 0⟩
    userRip := some userRip
    userRsp := some userRsp
    isUser := true
    parentPid := parentPid
    parentGeneration := parentGeneration
    fdTypes := fun fd =>
      if fd.val = 0 then .stdin else if fd.val = 1 then .stdout
      else if fd.val = 2 then .stderr else .none }

end Process

/-- One entry of the deferred-free list: kernel stack, PML4, `is_user`. -/
structure Deferred where
  kstack : Nat
  pml4 : Nat
  isUser : Bool
  deriving DecidableEq, Repr

structure Kernel where
  machine : Machine
  cr3 : Nat
  /-- `kernel_pml4_phys()`, as a frame. -/
  kernelPml4 : Nat
  procs : Pid → Option Process
  generations : Pid → Nat
  currentPid : Option Pid
  /-- `tick_counter`: ticks of the running quantum. -/
  tickCounter : Nat
  /-- `pit::tick_count()`. -/
  tickCount : Nat
  keyboardWakePending : Bool
  /-- `PER_CPU.force_switch`. -/
  forceSwitch : Bool
  initPid : Pid
  pipes : PipeSlots
  deferred : List Deferred
  /-- `PRNG_STATE` of the address-space randomiser. -/
  prng : BitVec 64

/-- A system call returns to its process with a new kernel, or stops the machine. -/
abbrev CallOutcome := Except Panic (SysResult × Kernel)

namespace Kernel

def current (k : Kernel) : Option (Pid × Process) :=
  match k.currentPid with
  | none => none
  | some pid => (k.procs pid).map fun p => (pid, p)

def setProc (k : Kernel) (pid : Pid) (p : Option Process) : Kernel :=
  { k with procs := Function.update k.procs pid p }

def setPipe (k : Kernel) (i : PipeIdx) (p : Option Pipe) : Kernel :=
  { k with pipes := Function.update k.pipes i p }

/-- The pipe slot that a stored index names, if it is in range. -/
def pipeSlot (pipeIdx : Nat) : Option PipeIdx :=
  if h : pipeIdx < MAX_PIPES then some ⟨pipeIdx, h⟩ else none

@[simp] lemma pipeSlot_val (i : PipeIdx) : pipeSlot i.val = some i := by
  simp [pipeSlot]

end Kernel

end Indominus.Sys
