import Indominus.Sys.Fd
import Indominus.Fs.Mounts

/-!
# Files behind descriptors (`syscall/mod.rs`)

The descriptor side is that of `Sys.Fd`; a handle slot names an object of `Session.objects`.
-/

namespace Indominus.Fs

open Memory Sys

inductive OpenFile
  | file (handle : RamFileHandle)
  | dir (handle : RamDirHandle)
  deriving DecidableEq

/-- Why a call fails: an error of its own, or one of the file system. -/
inductive CallError
  | errno (e : Errno)
  | vfs (e : VfsError)
  deriving DecidableEq

def O_RDONLY : Nat := 0x0000

def O_WRONLY : Nat := 0x0001

def O_CREAT : Nat := 0x0040

def O_TRUNC : Nat := 0x0200

def O_APPEND : Nat := 0x0400

namespace Vfs

/-- `Vfs::open`. -/
def openPath (dev : Drivers Empty) (v : Vfs Empty) (path : Name) : Except VfsError OpenFile :=
  match v.resolve dev path with
  | .error e => .error e
  | .ok (.ram (.file data)) => .ok (.file ⟨data, 0⟩)
  | .ok (.ram (.dir d)) => .ok (.dir ⟨v.ram.listEntries d, 0⟩)

/-- `create_file` as an open file. -/
def createOpen (v : Vfs Empty) (path : Name) : Except VfsError OpenFile × Vfs Empty :=
  let out := v.createFile path
  (out.1.map .file, out.2)

/-- The file that `sys_open` gets from the virtual file system for its flags. -/
def openWith (dev : Drivers Empty) (v : Vfs Empty) (path : Name) (flags : Nat) :
    Except VfsError OpenFile × Vfs Empty :=
  match v.openPath dev path with
  | .ok file => if flags &&& O_TRUNC ≠ 0 then v.createOpen path else (.ok file, v)
  | .error e => if flags &&& O_CREAT ≠ 0 then v.createOpen path else (.error e, v)

/-- The size of a path's inode, if it can be resolved. -/
def sizeOf (dev : Drivers Empty) (v : Vfs Empty) (path : Name) : Option Nat :=
  match v.resolve dev path with
  | .error _ => none
  | .ok (.ram (.file data)) => some (v.ram.files data).length
  | .ok (.ram (.dir _)) => some 0

end Vfs

def OpenFile.seek : OpenFile → Nat → OpenFile
  | .file h, offset => .file (h.seek offset)
  | .dir h, offset => .dir { h with pos := offset }

/-- A kernel with the files of its processes. -/
structure Session where
  kernel : Kernel
  vfs : Vfs Empty
  objects : Nat → Option OpenFile
  nextObject : Nat

namespace Session

variable (dev : Drivers Empty)

/-- `sys_open`, after the path has been read. -/
def sysOpen (s : Session) (path : Name) (flags : Nat) : Except CallError Nat × Session :=
  if path = [] then (.error (.errno .EINVAL), s)
  else if flags % 4 = 3 ∨ flags % 4 = 0 then (.error (.errno .EINVAL), s)
  else if Kernel.VALID_FLAGS < flags then (.error (.errno .EINVAL), s)
  else
    match s.vfs.openWith dev path flags with
    | (.error e, v) => (.error (.vfs e), { s with vfs := v })
    | (.ok file, v) =>
      let file :=
        match if flags &&& O_APPEND ≠ 0 then v.sizeOf dev path else none with
        | some size => file.seek size
        | none => file
      let out := s.kernel.sysOpen (.ok s.nextObject) flags
      (out.1.mapError .errno, {
        kernel := out.2
        vfs := v
        objects := Function.update s.objects s.nextObject (some file)
        nextObject := s.nextObject + 1 })

/-- The open-file object behind a descriptor of the running process. -/
def objectOf (s : Session) (fd : Nat) : Option Nat :=
  if h : fd < MAX_FDS then
    match s.kernel.current with
    | none => none
    | some (_, proc) =>
      match proc.fdTypes ⟨fd, h⟩ with
      | .fsFile index => Kernel.handleAt proc index
      | _ => none
  else none

/-- `File::read`. -/
def readObject (s : Session) (object count : Nat) : Except Panic (List Byte × Option OpenFile) :=
  match s.objects object with
  | none => .ok ([], none)
  | some (.file h) => .ok ((h.read s.vfs.ram count).1, some (.file (h.read s.vfs.ram count).2))
  | some (.dir h) =>
    match h.read count with
    | .error e => .error e
    | .ok (bytes, h) => .ok (bytes, some (.dir h))

/-- The files as devices of the descriptor model. -/
def devices (s : Session) (readLine : Nat → List Byte) : Devices where
  readLine := readLine
  fileRead object count :=
    match s.readObject object count with
    | .error _ => .error Errno.EIO
    | .ok (bytes, _) => .ok bytes
  fileWrite object bytes :=
    match s.objects object with
    | some (.file _) => .ok bytes.length
    | _ => .error Errno.EIO

/-- `sys_read`: the return value and the bytes stored to the caller's buffer. -/
def sysRead (s : Session) (readLine : Nat → List Byte) (fd bufPtr count : Nat) :
    Except Panic (SysResult × List Byte × Session) :=
  let out := Kernel.sysRead (s.devices readLine) s.kernel fd bufPtr count
  match s.objectOf fd, out.ret with
  | some object, .ok _ =>
    match s.readObject object count with
    | .error e => .error e
    | .ok (_, file) =>
      .ok (out.ret, out.delivered,
        { s with kernel := out.kernel, objects := Function.update s.objects object file })
  | _, _ => .ok (out.ret, out.delivered, { s with kernel := out.kernel })

def sysWrite (s : Session) (readLine : Nat → List Byte) (fd bufPtr count : Nat) :
    Except Panic (SysResult × Session) :=
  let out := Kernel.sysWrite (s.devices readLine) s.kernel fd bufPtr count
  match (s.objectOf fd).bind s.objects, s.objectOf fd, out.1 with
  | some (.file h), some object, .ok _ =>
    if count = 0 then .ok (out.1, { s with kernel := out.2 })
    else
      match h.write s.vfs.ram (loadBytes s.kernel.machine.ram s.kernel.cr3 bufPtr count) with
      | .error e => .error e
      | .ok (_, h, r) =>
        .ok (out.1, { s with
          kernel := out.2
          vfs := { s.vfs with ram := r }
          objects := Function.update s.objects object (some (.file h)) })
  | _, _, _ => .ok (out.1, { s with kernel := out.2 })

/-- `sys_close`; the handle keeps its slot. -/
def sysClose (s : Session) (fd : Nat) : SysResult × Session :=
  let out := s.kernel.sysClose fd
  (out.1, { s with kernel := out.2 })

/-- Reads into one buffer until a read returns 0: the bytes of all reads. -/
def readAll (readLine : Nat → List Byte) (fd bufPtr count : Nat) :
    (fuel : Nat) → Session → (buf : List Byte) → Option (List Byte)
  | 0, _, _ => none
  | fuel + 1, s, buf =>
    match s.sysRead readLine fd bufPtr count with
    | .ok (.ok 0, _, _) => some buf
    | .ok (.ok _, bytes, s) => readAll readLine fd bufPtr count fuel s (buf ++ bytes)
    | _ => none

end Session

end Indominus.Fs
