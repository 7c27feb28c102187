import Indominus.Fs.Tree

/-!
# The virtual file system (`vfs/mod.rs`)

`init` mounts a RAM file system at `/`; the file systems mounted elsewhere are an argument
(`Drivers`).
-/

namespace Indominus.Fs

open Memory

/-- The file systems that are not RAM file systems. -/
structure Drivers (I : Type) where
  lookup : I → Name → Except VfsError I
  /-- `Inode::open`, and then reading to the end. -/
  readAll : I → Except VfsError (List Byte)

/-- `MountEntry`, with the root inode of the mounted file system. -/
structure Mount (I : Type) where
  path : Name
  root : I

/-- `Vfs`: the root file system, and what was mounted after it. -/
structure Vfs (I : Type) where
  ram : Ram
  mounts : List (Mount I)

/-- An inode that `resolve` returns. -/
inductive Inode (I : Type)
  | ram (node : RamNode)
  | mounted (inode : I)
  deriving DecidableEq

/-- `path.split('/').filter(|s| !s.is_empty())`. -/
def parts (path : Name) : List Name := (path.splitOn '/').filter (· ≠ [])

def Mount.matches {I : Type} (m : Mount I) (ps : List Name) : Bool :=
  decide ((parts m.path).length ≤ ps.length) &&
    ((parts m.path).zip ps).all fun pair => pair.1 == pair.2

/-- The mount that `resolve` takes for a path: the first one that matches; a mount at `/` is
skipped. -/
def Vfs.mountFor {I : Type} (v : Vfs I) (ps : List Name) : Option (Mount I) :=
  v.mounts.find? fun m => decide (m.path ≠ ['/']) && m.matches ps

namespace Vfs

variable {I : Type} (dev : Drivers I)

def resolve (v : Vfs I) (path : Name) : Except VfsError (Inode I) :=
  if path = ['/'] ∨ path = [] ∨ parts path = [] then .ok (.ram (.dir v.ram.root))
  else
    match v.mountFor (parts path) with
    | some m =>
      (walk dev.lookup m.root ((parts path).drop (parts m.path).length)).map .mounted
    | none => (walk v.ram.lookup (.dir v.ram.root) (parts path)).map .ram

/-- `resolve_or_create_parents`, from `current` on. -/
def resolveOrCreateParents (r : Ram) : RamNode → List Name → Except VfsError RamNode × Ram
  | current, [] => (.ok current, r)
  | current, part :: rest =>
    match r.lookup current part with
    | .ok inode =>
      if inode.isDir then resolveOrCreateParents r inode rest else (.error .notDirectory, r)
    | .error _ =>
      match r.createChildDir current part with
      | (.error e, r) => (.error e, r)
      | (.ok (), r) =>
        match r.lookup current part with
        | .error e => (.error e, r)
        | .ok inode => resolveOrCreateParents r inode rest

/-- The part of `create_file` and `create_dir` for a path of several components. -/
def createBelow {α : Type} (r : Ram) (create : Ram → RamNode → Name → Except VfsError α × Ram)
    (parents : List Name) (name : Name) : Except VfsError α × Ram :=
  match resolveOrCreateParents r (.dir r.root) parents with
  | (.error e, r) => (.error e, r)
  | (.ok parent, r) => if parent.isDir then create r parent name else (.error .notDirectory, r)

def isMountPoint (v : Vfs I) (name : Name) : Bool :=
  v.mounts.any fun m => decide (m.path ≠ ['/']) && decide (parts m.path = [name])

def createFile (v : Vfs I) (path : Name) : Except VfsError RamFileHandle × Vfs I :=
  match parts path with
  | [] => (.error .badPath, v)
  | [name] =>
    if v.isMountPoint name then (.error .permissionDenied, v)
    else
      let out := v.ram.createFile name
      (out.1, { v with ram := out.2 })
  | part :: rest =>
    let ps := part :: rest
    let out := createBelow v.ram Ram.createChildFile ps.dropLast (ps.getLastD [])
    (out.1, { v with ram := out.2 })

/-- `create_dir`; unlike `create_file` it does not look for a mount point. -/
def createDir (v : Vfs I) (path : Name) : Except VfsError Unit × Vfs I :=
  match parts path with
  | [] => (.error .badPath, v)
  | [name] =>
    let out := v.ram.createDir name
    (out.1, { v with ram := out.2 })
  | part :: rest =>
    let ps := part :: rest
    let out := createBelow v.ram Ram.createChildDir ps.dropLast (ps.getLastD [])
    (out.1, { v with ram := out.2 })

def deleteFile (v : Vfs I) (path : Name) : Except VfsError Unit × Vfs I :=
  match parts path with
  | [] => (.error .badPath, v)
  | part :: rest =>
    let ps := part :: rest
    match walk v.ram.lookup (.dir v.ram.root) ps.dropLast with
    | .error e => (.error e, v)
    | .ok current =>
      let out := v.ram.deleteChildFile current (ps.getLastD [])
      (out.1, { v with ram := out.2 })

/-! ## Whole files -/

/-- `write_file`. -/
def writeFile (v : Vfs I) (path : Name) (data : List Byte) :
    Except Panic (Except VfsError Nat × Vfs I) :=
  match v.createFile path with
  | (.error e, v) => .ok (.error e, v)
  | (.ok file, v) =>
    match file.write v.ram data with
    | .error e => .error e
    | .ok (n, _, r) => .ok (.ok n, { v with ram := r })

/-- The loop of `read_file` over a handle, in pieces of 512 bytes; `none` is not yet finished. -/
def readLoop {η : Type} (read : η → (count : Nat) → Except Panic (List Byte × η)) :
    (fuel : Nat) → η → (buf : List Byte) → Option (Except Panic (List Byte))
  | 0, _, _ => none
  | fuel + 1, file, buf =>
    match read file 512 with
    | .error e => some (.error e)
    | .ok ([], _) => some (.ok buf)
    | .ok (bytes, file) => readLoop read fuel file (buf ++ bytes)

/-- `read_file`, with fuel for its loop. -/
def readFile (v : Vfs I) (path : Name) (fuel : Nat) :
    Option (Except Panic (Except VfsError (List Byte))) :=
  match v.resolve dev path with
  | .error e => some (.ok (.error e))
  | .ok (.mounted inode) => some (.ok (dev.readAll inode))
  | .ok (.ram (.file data)) =>
    (readLoop (fun h count => .ok (RamFileHandle.read v.ram h count)) fuel ⟨data, 0⟩ []).map
      fun out => out.map .ok
  | .ok (.ram (.dir d)) =>
    (readLoop RamDirHandle.read fuel ⟨v.ram.listEntries d, 0⟩ []).map fun out => out.map .ok

end Vfs

end Indominus.Fs
