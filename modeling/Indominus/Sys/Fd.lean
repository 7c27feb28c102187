import Indominus.Sys.Scheduler

/-!
# File descriptors and pipes: the system calls (`syscall/mod.rs`)

The terminal and the file systems are an argument (`Devices`).  `sys_read` returns the bytes that it
stores.
-/

namespace Indominus.Sys

open Memory Function

/-! ## User memory -/

def USER_ADDR_MAX : Nat := 0x00007FFFFFFFFFFF

/-- `is_valid_user_range`, on 64-bit values. -/
def isValidUserRange (addr len : Nat) : Bool :=
  if addr = 0 ∨ len = 0 then false
  else
    let end_ := (addr + len) % 2 ^ 64
    decide (addr < end_) && decide (end_ ≤ USER_ADDR_MAX)

/-- What the loop of `is_user_buffer_mapped` finds for one page: go on, or stop with an
answer. -/
def pageMapped (m : PhysMem) (pml4 virt : Nat) : Bool × Bool :=
  let e4 := m.entry pml4 (pml4Index virt)
  if ¬ Pte.isPresent e4 then (false, false)
  else
    let e3 := m.entry (Pte.addr e4) (pdptIndex virt)
    if ¬ Pte.isPresent e3 then (false, false)
    else if Pte.isHuge e3 then (false, Pte.isUser e3)
    else
      let e2 := m.entry (Pte.addr e3) (pdIndex virt)
      if ¬ Pte.isPresent e2 then (false, false)
      else if Pte.isHuge e2 then (false, Pte.isUser e2)
      else
        let e1 := m.entry (Pte.addr e2) (ptIndex virt)
        if ¬ Pte.isPresent e1 then (false, false)
        else if ¬ Pte.isUser e1 then (false, false)
        else (true, true)

/-- The page loop of `is_user_buffer_mapped`, over `n` pages from `page` on. -/
def pagesMapped (m : PhysMem) (pml4 : Nat) : (n page : Nat) → Bool
  | 0, _ => true
  | n + 1, page =>
    match pageMapped m pml4 (page * PAGE_SIZE) with
    | (true, _) => pagesMapped m pml4 n (page + 1)
    | (false, answer) => answer

def isUserBufferMapped (m : PhysMem) (pml4 addr len : Nat) : Bool :=
  if len = 0 ∨ addr = 0 then false
  else
    let startPage := addr / PAGE_SIZE
    let endPage := (addr + len - 1) % 2 ^ 64 / PAGE_SIZE
    pagesMapped m pml4 (endPage + 1 - startPage) startPage

/-- The byte at a virtual address, as a load through the tables of `cr3` sees it. -/
def loadByte (m : PhysMem) (cr3 va : Nat) : Byte :=
  match walkPageTableToPte m cr3 va with
  | none => 0
  | some (pt, i) => m.byte (Pte.addr (m.entry pt i) * PAGE_SIZE + va % PAGE_SIZE)

/-- `count` bytes from a user address on. -/
def loadBytes (m : PhysMem) (cr3 addr count : Nat) : List Byte :=
  (List.range count).map fun i => loadByte m cr3 (addr + i)

/-! ## Reading and writing -/

/-- The devices behind the other descriptor types. -/
structure Devices where
  /-- `keyboard::read_line` into a buffer of the given size: the bytes of the line.  There are none
  when no line has been committed. -/
  readLine : (count : Nat) → List Byte
  /-- `File::read` on an open file. -/
  fileRead : (handle count : Nat) → BytesResult
  /-- `File::write` on an open file. -/
  fileWrite : (handle : Nat) → List Byte → SysResult

/-- The outcome of `sys_read`. -/
structure ReadResult where
  ret : SysResult
  delivered : List Byte
  kernel : Kernel

namespace Kernel

/-- Block the running process and ask for a context switch. -/
def block (k : Kernel) (reason : WakeReason) : Kernel :=
  match k.current with
  | none => { k with forceSwitch := true }
  | some (pid, p) =>
    { k.setProc pid (some { p with state := .blocked, wakeReason := reason }) with
      forceSwitch := true }

def handleAt (p : Process) (index : Nat) : Option Nat :=
  if h : index < MAX_FILE_HANDLES then p.fileHandles ⟨index, h⟩ else none

/-- The pipe branch of `sys_read`. -/
def readPipe (k : Kernel) (pipeIdx : Nat) (writable : Bool) (count : Nat) : ReadResult :=
  if writable then ⟨.error .EBADF, [], k⟩
  else
    match pipeSlot pipeIdx with
    | none => ⟨.error .EBADF, [], k⟩
    | some i =>
      match k.pipes i with
      -- the pipe is gone: the error code passes through the `n > 0` test and wakes sleepers
      | none => ⟨.error .EBADF, [], k.keyboardWake⟩
      | some p =>
        match p.read count with
        | .bytes bs p => ⟨.ok bs.length, bs, (k.setPipe i (some p)).keyboardWake⟩
        | .eof => ⟨.ok 0, [], k⟩
        | .block => ⟨.ok 0, [], k.block (.pipeRead pipeIdx)⟩

def sysRead (dev : Devices) (k : Kernel) (fd bufPtr count : Nat) : ReadResult :=
  if h : fd < MAX_FDS then
    if count = 0 then ⟨.ok 0, [], k⟩
    else if ¬ isValidUserRange bufPtr count then ⟨.error .EFAULT, [], k⟩
    else
      match k.current with
      | none => ⟨.error .ESRCH, [], k⟩
      | some (_, proc) =>
        if ¬ isUserBufferMapped k.machine.ram proc.pml4Phys bufPtr count then
          ⟨.error .EFAULT, [], k⟩
        else
          match proc.fdTypes ⟨fd, h⟩ with
          | .stdin | .tty =>
            if dev.readLine count = [] then ⟨.ok 0, [], k.block .keyboard⟩
            else ⟨.ok (dev.readLine count).length, dev.readLine count, k⟩
          | .stdout | .stderr => ⟨.error .EBADF, [], k⟩
          | .null => ⟨.ok 0, [], k⟩
          | .pipe pipeIdx writable => k.readPipe pipeIdx writable count
          | .fsFile index =>
            match handleAt proc index with
            | none => ⟨.error .EBADF, [], k⟩
            | some handle =>
              match dev.fileRead handle count with
              | .error e => ⟨.error e, [], k⟩
              | .ok bs => ⟨.ok bs.length, bs, k⟩
          | .none => ⟨.error .EBADF, [], k⟩
  else ⟨.error .EBADF, [], k⟩

/-- The pipe branch of `sys_write`, for the bytes of the caller's buffer. -/
def writePipe (k : Kernel) (pipeIdx : Nat) (writable : Bool) (buf : List Byte) :
    SysResult × Kernel :=
  if ¬ writable then (.error .EBADF, k)
  else
    match pipeSlot pipeIdx with
    | none => (.error .EBADF, k)
    | some i =>
      match k.pipes i with
      | none => (.error .EBADF, k)
      | some p =>
        match p.writeLoop 0 buf with
        | (p, written, false) => (.ok written, (k.setPipe i (some p)).keyboardWake)
        | (p, written, true) =>
          let k := k.setPipe i (some p)
          if ¬ p.readOpen then
            (.ok written, if 0 < written then k.keyboardWake else k)
          else if 0 < written then (.ok written, k.keyboardWake)
          else (.ok 0, k.block (.pipeWrite pipeIdx))

def sysWrite (dev : Devices) (k : Kernel) (fd bufPtr count : Nat) : SysResult × Kernel :=
  if h : fd < MAX_FDS then
    if count = 0 then (.ok 0, k)
    else if ¬ isValidUserRange bufPtr count then (.error .EFAULT, k)
    else
      match k.current with
      | none => (.error .ESRCH, k)
      | some (_, proc) =>
        if ¬ isUserBufferMapped k.machine.ram proc.pml4Phys bufPtr count then (.error .EFAULT, k)
        else
          match proc.fdTypes ⟨fd, h⟩ with
          | .stdout | .stderr | .tty => (.ok count, k)
          | .stdin => (.error .EBADF, k)
          | .null => (.ok count, k)
          | .pipe pipeIdx writable =>
            k.writePipe pipeIdx writable (loadBytes k.machine.ram k.cr3 bufPtr count)
          | .fsFile index =>
            match handleAt proc index with
            | none => (.error .EBADF, k)
            | some handle =>
              (dev.fileWrite handle (loadBytes k.machine.ram k.cr3 bufPtr count), k)
          | .none => (.error .EBADF, k)
  else (.error .EBADF, k)

/-! ## Creating pipes -/

def allocPipe (k : Kernel) : Option (PipeIdx × Kernel) :=
  match (List.finRange MAX_PIPES).find? fun i => (k.pipes i).isNone with
  | none => none
  | some i => some (i, k.setPipe i (some Pipe.new))

def freePipe (k : Kernel) (i : PipeIdx) : Kernel := k.setPipe i none

/-- The first descriptor of a table that is not open, from a list of candidates. -/
def firstFree (fds : Fd → FdType) (l : List Fd) : Option Fd := l.find? fun fd => fds fd = .none

/-- The two descriptors that `sys_pipe` takes: the first two that are not open. -/
def twoFree (fds : Fd → FdType) : Option (Fd × Fd) :=
  match firstFree fds (List.finRange MAX_FDS) with
  | none => none
  | some r =>
    match firstFree fds ((List.finRange MAX_FDS).filter fun fd => decide (r < fd)) with
    | none => none
    | some w => some (r, w)

/-- `sys_pipe`: `(read_fd << 32) | write_fd`. -/
def sysPipe (k : Kernel) : SysResult × Kernel :=
  let limited :=
    match k.current with
    | some (_, p) => decide (MAX_PIPES_PER_PROCESS ≤ p.pipeCount)
    | none => false
  if limited then (.error .EMFILE, k)
  else
    match k.allocPipe with
    | none => (.error .ENOMEM, k)
    | some (i, k) =>
      match k.current with
      | none => (.error .ESRCH, k.freePipe i)
      | some (pid, p) =>
        match twoFree p.fdTypes with
        | none => (.error .EMFILE, k.freePipe i)
        | some (r, w) =>
          let fds := update p.fdTypes r (.pipe i.val false)
          let fds := update fds w (.pipe i.val true)
          (.ok (r.val * 2 ^ 32 + w.val),
            k.setProc pid (some { p with fdTypes := fds, pipeCount := (p.pipeCount + 2) % 256 }))

/-! ## Closing and duplicating -/

/-- Is a file-handle slot still used by another descriptor? -/
def stillReferenced (fds : Fd → FdType) (fd : Fd) (index : Nat) : Bool :=
  (List.finRange MAX_FDS).any fun i => decide (i ≠ fd) && decide (fds i = .fsFile index)

/-- `sys_close`.  The handle indices that the source collects are dropped unused there. -/
def sysClose (k : Kernel) (fd : Nat) : SysResult × Kernel :=
  if h : fd < MAX_FDS then
    match k.current with
    | none => (.error .ESRCH, k)
    | some (pid, p) =>
      let fdType := p.fdTypes ⟨fd, h⟩
      if fdType = .none then (.error .EBADF, k)
      else
        let closedPipe :=
          match fdType with
          | .pipe _ _ => true
          | _ => false
        let p' := { p with
          fdTypes := update p.fdTypes ⟨fd, h⟩ .none
          fdFlags := update p.fdFlags ⟨fd, h⟩ 0
          pipeCount := if closedPipe then p.pipeCount - 1 else p.pipeCount }
        let k := k.setProc pid (some p')
        match pipeOp fdType with
        | none => (.ok 0, k)
        | some (i, writable) =>
          (.ok 0, ({ k with pipes := closePipe k.pipes i writable } : Kernel).keyboardWake)
  else (.error .EBADF, k)

/-- `p.refcount.fetch_add(1)` on the pipe of a slot, if there is one. -/
def retainPipe (pipes : PipeSlots) (i : PipeIdx) : PipeSlots :=
  match pipes i with
  | none => pipes
  | some p => update pipes i (some { p with refcount := (p.refcount + 1) % 2 ^ 16 })

/-- Point the first free descriptor at `fdType`. -/
def dupInto (k : Kernel) (pid : Pid) (p : Process) (fdType : FdType) : SysResult × Kernel :=
  match firstFree p.fdTypes (List.finRange MAX_FDS) with
  | none => (.error .EMFILE, k)
  | some i =>
    (.ok i.val, k.setProc pid (some { p with
      fdTypes := update p.fdTypes i fdType
      fdFlags := update p.fdFlags i 0 }))

/-- `sys_dup`.  For a pipe the reference count goes up before a free descriptor is looked
for. -/
def sysDup (k : Kernel) (fd : Nat) : SysResult × Kernel :=
  if h : fd < MAX_FDS then
    match k.current with
    | none => (.error .EMFILE, k)
    | some (pid, p) =>
      match p.fdTypes ⟨fd, h⟩ with
      | .none => (.error .EBADF, k)
      | .fsFile index =>
        if MAX_FILE_HANDLES ≤ index then (.error .EBADF, k)
        else if (handleAt p index).isNone then (.error .EBADF, k)
        else k.dupInto pid p (.fsFile index)
      | .pipe pipeIdx writable =>
        let k :=
          match pipeSlot pipeIdx with
          | none => k
          | some i => { k with pipes := retainPipe k.pipes i }
        k.dupInto pid p (.pipe pipeIdx writable)
      | t => k.dupInto pid p t
  else (.error .EBADF, k)

/-- The closing of the target descriptor in `sys_dup2`: unlike `sys_close`, the count is
decremented without a test for 0. -/
def closePipeWrapping (pipes : PipeSlots) (i : PipeIdx) (writable : Bool) :
    PipeSlots :=
  match pipes i with
  | none => pipes
  | some p =>
    if p.refcount = 1 then update pipes i none
    else
      update pipes i
        (some { p.close writable with refcount := (p.refcount + 2 ^ 16 - 1) % 2 ^ 16 })

def sysDup2 (k : Kernel) (oldfd newfd : Nat) : SysResult × Kernel :=
  if ho : oldfd < MAX_FDS then
    if hn : newfd < MAX_FDS then
      match k.current with
      | none => (.error .ESRCH, k)
      | some (pid, p) =>
        let oldType := p.fdTypes ⟨oldfd, ho⟩
        if oldType = .none then (.error .EBADF, k)
        else if oldfd = newfd then (.ok newfd, k)
        else
          let newType := p.fdTypes ⟨newfd, hn⟩
          let handles :=
            match newType with
            | .fsFile index =>
              if hi : index < MAX_FILE_HANDLES then
                if stillReferenced p.fdTypes ⟨newfd, hn⟩ index then p.fileHandles
                else update p.fileHandles ⟨index, hi⟩ none
              else p.fileHandles
            | _ => p.fileHandles
          let p' := { p with
            fdTypes := update p.fdTypes ⟨newfd, hn⟩ oldType
            fdFlags := update p.fdFlags ⟨newfd, hn⟩ 0
            fileHandles := handles }
          let k := k.setProc pid (some p')
          let pipes :=
            match pipeOp newType with
            | none => k.pipes
            | some (i, writable) => closePipeWrapping k.pipes i writable
          let pipes :=
            match pipeOp oldType with
            | none => pipes
            | some (i, _) => retainPipe pipes i
          let k := { k with pipes := pipes }
          (.ok newfd, if (pipeOp newType).isSome then k.keyboardWake else k)
    else (.error .EBADF, k)
  else (.error .EBADF, k)

/-! ## Opening files -/

def O_CLOEXEC : Nat := 0x80000

/-- The flags that `sys_open` accepts; `O_CLOEXEC` is not among them. -/
def VALID_FLAGS : Nat := 0xFF

/-- `sys_open` after the path has been read; `file` is the open file that the virtual file system
returned. -/
def sysOpen (k : Kernel) (file : Except Errno Nat) (flags : Nat) : SysResult × Kernel :=
  if flags % 4 = 3 ∨ flags % 4 = 0 then (.error .EINVAL, k)
  else if VALID_FLAGS < flags then (.error .EINVAL, k)
  else
    match file with
    | .error e => (.error e, k)
    | .ok handle =>
      match k.current with
      | none => (.error .ESRCH, k)
      | some (pid, p) =>
        match firstFree p.fdTypes (List.finRange MAX_FDS),
          (List.finRange MAX_FILE_HANDLES).find? fun i => (p.fileHandles i).isNone with
        | some fd, some fh =>
          (.ok fd.val, k.setProc pid (some { p with
            fileHandles := update p.fileHandles fh (some handle)
            fdTypes := update p.fdTypes fd (.fsFile fh.val)
            fdFlags := if flags &&& O_CLOEXEC ≠ 0 then
              update p.fdFlags fd (p.fdFlags fd ||| 1) else p.fdFlags }))
        | _, _ => (.error .EMFILE, k)

/-! ## Close-on-exec -/

/-- Is this descriptor closed by `exec`?  Descriptors 0, 1 and 2 never are. -/
def closesOnExec (p : Process) (fd : Fd) : Bool :=
  decide (3 ≤ fd.val) && p.fdFlags fd % 2 == 1 &&
    match p.fdTypes fd with
    | .none => false
    | .fsFile index => decide (index < MAX_FILE_HANDLES)
    | _ => true

/-- One round of the close-on-exec loop on the descriptor table and the handles. -/
def cloexecStep (p : Process) (fd : Fd) : Process :=
  if closesOnExec p fd then
    let handles :=
      match p.fdTypes fd with
      | .fsFile index =>
        if hi : index < MAX_FILE_HANDLES then
          if stillReferenced p.fdTypes fd index then p.fileHandles
          else update p.fileHandles ⟨index, hi⟩ none
        else p.fileHandles
      | _ => p.fileHandles
    { p with fdTypes := update p.fdTypes fd .none, fileHandles := handles }
  else p

/-- The close-on-exec part of `sys_exec` and `sys_execve`. -/
def closeOnExec (k : Kernel) : Kernel :=
  match k.current with
  | none => k
  | some (pid, p) =>
    let ops := (List.finRange MAX_FDS).filterMap fun fd =>
      if closesOnExec p fd then pipeOp (p.fdTypes fd) else none
    let k := k.setProc pid (some ((List.finRange MAX_FDS).foldl cloexecStep p))
    { k with pipes := closePipes k.pipes ops }

end Kernel

end Indominus.Sys
