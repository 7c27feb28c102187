import Indominus.Memory.Elf
import Indominus.Sys.Heap

/-!
# Creating and replacing processes (`process/mod.rs`, `syscall/mod.rs`)

The path has been read and the file looked up before; both results are arguments.
-/

namespace Indominus.Sys

open Memory

/-! ## User stacks -/

/-- Allocate a zeroed frame and map it; with `clear` it is zeroed once more, as `sys_exec` does. -/
def mapZeroedPage (M : Mapper) (clear : Bool) (s : Machine) (pml4 va : Nat) (flags : Word) :
    Except Panic (Option Machine) :=
  match s.allocateFrame with
  | none => .ok none
  | some (frame, s) =>
    match mapPage M s pml4 va frame flags with
    | .error e => .error e
    | .ok s => .ok (some (if clear then { s with ram := s.ram.zeroPage frame } else s))

/-- Map zeroed pages at a list of addresses in turn; `false` means that a frame was missing. -/
def mapZeroedPages (M : Mapper) (clear : Bool) (pml4 : Nat) (flags : Word) :
    List Nat → Machine → Except Panic (Bool × Machine)
  | [], s => .ok (true, s)
  | va :: vas, s =>
    match mapZeroedPage M clear s pml4 va flags with
    | .error e => .error e
    | .ok none => .ok (false, s)
    | .ok (some s) => mapZeroedPages M clear pml4 flags vas s

/-- The addresses of the eight stack pages of `spawn_user`. -/
def spawnStackPages (stackTop : Nat) : List Nat :=
  (List.range 8).map fun i => stackTop - (8 - i) * PAGE_SIZE

/-- The addresses of the four stack pages of `sys_exec` and `sys_execve`. -/
def execStackPages (stackTop : Nat) : List Nat :=
  (List.range 4).map fun i => stackTop - 4 * PAGE_SIZE + i * PAGE_SIZE

/-- The guard page and the stack of `spawn_user`. -/
def mapSpawnStack (M : Mapper) (pml4 stackTop : Nat) (s : Machine) :
    Except Panic (Bool × Machine) :=
  match mapZeroedPage M false s pml4 (stackTop - 9 * PAGE_SIZE) Pte.PRESENT with
  | .error e => .error e
  | .ok none => .ok (false, s)
  | .ok (some s) =>
    mapZeroedPages M false pml4 (userPageFlags ||| Pte.NO_EXECUTE) (spawnStackPages stackTop) s

/-- The stack and the guard page of `sys_exec` and `sys_execve`. -/
def mapExecStack (M : Mapper) (pml4 stackTop : Nat) (s : Machine) :
    Except Panic (Bool × Machine) :=
  match mapZeroedPages M true pml4 userPageFlags (execStackPages stackTop) s with
  | .error e => .error e
  | .ok (false, s) => .ok (false, s)
  | .ok (true, s) =>
    match mapZeroedPage M false s pml4 (stackTop - 4 * PAGE_SIZE - PAGE_SIZE) Pte.PRESENT with
    | .error e => .error e
    | .ok none => .ok (false, s)
    | .ok (some s) => .ok (true, s)

/-- The end of `sys_exec` and `sys_execve`: the frame to rewrite is looked for only after the
process has been updated. -/
def Process.execResult (p : Process) : SysResult :=
  if p.stackPointer = 0 then .error .EINVAL else .ok 0

namespace Kernel

def discard (k : Kernel) (s : Machine) (pml4 : Nat) : Except Panic Kernel :=
  match freeUserAddressSpace s pml4 with
  | .error e => .error e
  | .ok s => .ok { k with machine := s }

/-! ## `spawn_user` -/

/-- `process::spawn_user`.  It runs in kernel context: the upper half is copied from CR3. -/
def spawnUser (M : Mapper) (k : Kernel) (elf : List Byte) (parent : Option Nat)
    (stack : Option Nat) : Except Panic (Option Pid × Kernel) :=
  match createUserPml4 k.machine k.cr3 with
  | .error e => .error e
  | .ok (pml4, s) =>
    match loadElf M elf pml4 s with
    | .error (.panic e) => .error e
    | .error (.fail _ s) =>
      match k.discard s pml4 with
      | .error e => .error e
      | .ok k => .ok (none, k)
    | .ok (entry, s) =>
      let (stackTop, k) := k.randomizeStackBase
      match mapSpawnStack M pml4 stackTop s with
      | .error e => .error e
      | .ok (false, s) =>
        match k.discard s pml4 with
        | .error e => .error e
        | .ok k => .ok (none, k)
      | .ok (true, s) =>
        .ok ({ k with machine := s }.spawnUserSlot entry (stackTop - 8) pml4 parent stack)

/-! ## `sys_fork` -/

/-- The child's record: what `new_kernel` gives, with the fields that `sys_fork` sets. -/
def forkChild (parent : Process) (parentPid pid : Pid) (childPml4 stackBase : Nat) : Process :=
  { Process.newKernel pid.val childPml4 stackBase with
    frame := parent.frame
    isUser := parent.isUser
    parentPid := some parentPid.val
    fdTypes := parent.fdTypes
    fileHandles := parent.fileHandles
    parentGeneration := parent.generation
    pgid := parent.pgid
    fpuState := parent.fpuState }

/-- The reference counts that the child's inherited pipe descriptors add. -/
def retainAll (pipes : PipeSlots) (fds : Fd → FdType) : PipeSlots :=
  ((List.finRange MAX_FDS).filterMap fun fd => pipeOp (fds fd)).foldl
    (fun ps op => retainPipe ps op.1) pipes

/-- The last part of `sys_fork`: find a slot and insert the child. -/
def forkInsert (k : Kernel) (parentPid : Pid) (parent : Process) (childPml4 stack : Nat)
    (extraStack : Option Nat) : SysResult × Kernel :=
  match k.freeSlot with
  | none => (.error .ENOMEM, k)
  | some pid =>
    match extraStack with
    | none => (.error .ENOMEM, k)
    | some _ =>
      let child := forkChild parent parentPid pid childPml4 stack
      (.ok pid.val,
        { k with pipes := retainAll k.pipes child.fdTypes }.setProc pid (some child))

/-- `sys_fork`.  `stack` and `extraStack` are the answers of the kernel heap to its two
requests. -/
def sysFork (k : Kernel) (stack extraStack : Option Nat) : CallOutcome :=
  match k.current with
  | none => .ok (.error .ESRCH, k)
  | some (parentPid, parent) =>
    match createUserPml4 k.machine k.kernelPml4 with
    | .error e => .error e
    | .ok (childPml4, s) =>
      match copyUserPages s parent.pml4Phys childPml4 with
      | .error e => .error e
      | .ok (false, s) => .ok (.error .ENOMEM, { k with machine := s })
      | .ok (true, s) =>
        let k := { k with machine := s }
        match stack with
        | none => .ok (.error .ENOMEM, k)
        | some stackBase => .ok (k.forkInsert parentPid parent childPml4 stackBase extraStack)

/-! ## `sys_exec` and `sys_execve` -/

/-- A new page table with the image and a stack; on failure it is torn down. -/
def buildImage (M : Mapper) (k : Kernel) (elf : List Byte) :
    Except Panic (Except Errno (Nat × Nat × Nat) × Kernel) :=
  match createUserPml4 k.machine k.kernelPml4 with
  | .error e => .error e
  | .ok (newPml4, s) =>
    match loadElf M elf newPml4 s with
    | .error (.panic e) => .error e
    | .error (.fail _ s) =>
      match k.discard s newPml4 with
      | .error e => .error e
      | .ok k => .ok (.error .ENOEXEC, k)
    | .ok (entry, s) =>
      let (stackTop, k) := k.randomizeStackBase
      match mapExecStack M newPml4 stackTop s with
      | .error e => .error e
      | .ok (false, s) =>
        match k.discard s newPml4 with
        | .error e => .error e
        | .ok k => .ok (.error .ENOMEM, k)
      | .ok (true, s) => .ok (.ok (newPml4, entry, stackTop), { k with machine := s })

/-- CR3 at the end of `sys_exec`: the page table now recorded for the process. -/
def reloadCr3 (k : Kernel) : Except Panic Kernel :=
  match k.current with
  | none => .error .halt
  | some (_, p) => .ok { k with cr3 := p.pml4Phys }

/-- `sys_exec` after the path has been read; `file` is what the virtual file system
returned. -/
def sysExec (M : Mapper) (k : Kernel) (file : BytesResult) :
    CallOutcome :=
  let finish (r : SysResult) (k : Kernel) : CallOutcome :=
    match k.reloadCr3 with
    | .error e => .error e
    | .ok k => .ok (r, k)
  let k := k.closeOnExec
  match file with
  | .error e => finish (.error e) k
  | .ok elf =>
    if elf = [] then finish (.error .ENOENT) k
    else
      match k.current with
      | none => finish (.error .ESRCH) k
      | some (pid, p) =>
        match k.buildImage M elf with
        | .error e => .error e
        | .ok (.error e, k) => finish (.error e) k
        | .ok (.ok (newPml4, entry, stackTop), k) =>
          match freeUserAddressSpace k.machine p.pml4Phys with
          | .error e => .error e
          | .ok s =>
            finish p.execResult ({ k with machine := s }.setProc pid (some { p with
              pml4Phys := newPml4
              savedCr3 := 0
              userRip := some entry
              userRsp := some (stackTop - 8)
              isUser := true }))

/-- A store of `sys_execve` to the new stack: it goes to the start of the frame. -/
def pokeStack (M : Mapper) (s : Machine) (pml4 va : Nat) (bytes : List Byte) : Machine :=
  match translateAddr M s pml4 va with
  | none => s
  | some phys => { s with ram := s.ram.writeBytes (phys * PAGE_SIZE) bytes }

/-- One argument string: its bytes and a terminating zero, from `pos` on. -/
def pokeString (M : Mapper) (pml4 : Nat) : (pos : Nat) → List Byte → Machine → Machine
  | pos, [], s => pokeStack M s pml4 pos [0]
  | pos, b :: bs, s => pokeString M pml4 (pos + 1) bs (pokeStack M s pml4 pos [b])

/-- The argument strings, from `pos` on: where each starts. -/
def pokeStrings (M : Mapper) (pml4 : Nat) : (pos : Nat) → List (List Byte) → Machine →
    List Nat × Machine
  | _, [], s => ([], s)
  | pos, a :: as, s =>
    let (offsets, s) := pokeStrings M pml4 (pos + a.length + 1) as (pokeString M pml4 pos a s)
    (pos :: offsets, s)

/-- Push words on the new stack, first word highest; returns the new stack pointer. -/
def pokeWords (M : Mapper) (pml4 : Nat) : (sp : Nat) → List Nat → Machine → Nat × Machine
  | sp, [], s => (sp, s)
  | sp, w :: ws, s => pokeWords M pml4 (sp - 8) ws (pokeStack M s pml4 (sp - 8) (wordBytes w))

/-- `sys_execve` after the path and the arguments have been read. -/
def sysExecve (M : Mapper) (k : Kernel) (file : BytesResult)
    (argv : List (List Byte)) : CallOutcome :=
  let k := k.closeOnExec
  match file with
  | .error e => .ok (.error e, k)
  | .ok elf =>
    if elf = [] then .ok (.error .ENOENT, k)
    else
      match k.current with
      | none => .ok (.error .ESRCH, k)
      | some (pid, p) =>
        match k.buildImage M elf with
        | .error e => .error e
        | .ok (.error e, k) => .ok (.error e, k)
        | .ok (.ok (newPml4, entry, stackTop), k) =>
          match freeUserAddressSpace k.machine p.pml4Phys with
          | .error e => .error e
          | .ok s =>
            if (argv.map fun a => a.length + 1).sum > 3072 then
              .ok (.error .E2BIG, { k with machine := s })
            else
              let sp := stackTop - 8
              let (offsets, s) := pokeStrings M newPml4 (sp - 4096) argv s
              let (argvPtr, s) := pokeWords M newPml4 sp (0 :: offsets.reverse) s
              let (sp, s) := pokeWords M newPml4 argvPtr [argv.length] s
              .ok (p.execResult, { k with machine := s }.setProc pid (some { p with
                pml4Phys := newPml4
                userRip := some entry
                userRsp := some sp
                isUser := true
                heapStart := USER_HEAP_BASE
                heapEnd := USER_HEAP_BASE }))

/-! ## `sys_exit` -/

/-- The running process becomes a zombie and its children go to init. -/
def exitCurrent (k : Kernel) (exitCode : Nat) : Kernel :=
  match k.currentPid with
  | none => k
  | some pid =>
    let k := k.reparentOrphansToInit pid
    match k.procs pid with
    | none => k
    | some p => k.setProc pid (some { p with
        state := .zombie
        exitCode := exitCode % 256 * 256
        terminatedBySignal := false })

/-- `sys_exit`, followed by the forced switch to `next` that ends it. -/
def sysExit (k : Kernel) (exitCode : Nat) (next : Pid) : Except Panic Kernel :=
  let pid := (k.currentPid.map fun pid => pid.val).getD 0
  ((k.exitCurrent exitCode).wakeWaitForChild pid).scheduleForce next

end Kernel

end Indominus.Sys
