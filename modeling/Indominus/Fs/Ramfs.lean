import Indominus.Memory.PageTable

/-!
# The RAM file system (`vfs/ramfs.rs`)

Reference-counted cells live in two arenas, and a reference is an index.  A slice out of range, or a
vector longer than `isize::MAX`, halts the kernel; that the kernel heap has room for a vector is
assumed, here and in the FAT driver.
-/

namespace Indominus.Fs

open Memory Function

/-- A name or a path: the characters of a `String`. -/
abbrev Name := List Char

inductive VfsError
  | notFound
  | permissionDenied
  | alreadyExists
  | notFile
  | notDirectory
  | tooManyOpenFiles
  | invalidSeek
  | noSpace
  | ioError
  | badPath
  deriving DecidableEq, Repr

/-- `RamNode`: a file's data cell or a directory's cell, as the two inodes hold. -/
inductive RamNode
  | file (data : Nat)
  | dir (subdir : Nat)
  deriving DecidableEq, Repr

def RamNode.isDir : RamNode → Bool
  | .file _ => false
  | .dir _ => true

abbrev RamDir := Std.TreeMap Name RamNode

/-- A RAM file system with its arenas. -/
structure Ram where
  dirs : Nat → RamDir
  files : Nat → List Byte
  nextDir : Nat
  nextFile : Nat
  root : Nat

structure RamFileHandle where
  data : Nat
  pos : Nat
  deriving DecidableEq, Repr

structure RamDirHandle where
  entries : List Name
  pos : Nat
  deriving DecidableEq, Repr

namespace Ram

def new : Ram where
  dirs _ := ∅
  files _ := []
  nextDir := 1
  nextFile := 0
  root := 0

/-- `entries.get`. -/
def entry (r : Ram) (d : Nat) (name : Name) : Option RamNode := (r.dirs d)[name]?

/-- `entries.insert`. -/
def link (r : Ram) (d : Nat) (name : Name) (node : RamNode) : Ram :=
  { r with dirs := update r.dirs d ((r.dirs d).insert name node) }

/-- `entries.remove`. -/
def unlink (r : Ram) (d : Nat) (name : Name) : Ram :=
  { r with dirs := update r.dirs d ((r.dirs d).erase name) }

def newFile (r : Ram) : Ram :=
  { r with files := update r.files r.nextFile [], nextFile := r.nextFile + 1 }

def newDir (r : Ram) : Ram :=
  { r with dirs := update r.dirs r.nextDir ∅, nextDir := r.nextDir + 1 }

/-! ## Inodes -/

def lookup (r : Ram) : RamNode → Name → Except VfsError RamNode
  | .dir d, name =>
    match r.entry d name with
    | some node => .ok node
    | none => .error .notFound
  | .file _, _ => .error .notDirectory

/-- `create_child_file`; a file that is there already is opened as it is. -/
def createChildFile (r : Ram) : RamNode → Name → Except VfsError RamFileHandle × Ram
  | .dir d, name =>
    match r.entry d name with
    | some (.file existing) => (.ok ⟨existing, 0⟩, r)
    | some (.dir _) => (.error .alreadyExists, r)
    | none => (.ok ⟨r.nextFile, 0⟩, r.newFile.link d name (.file r.nextFile))
  | .file _, _ => (.error .notDirectory, r)

def createChildDir (r : Ram) : RamNode → Name → Except VfsError Unit × Ram
  | .dir d, name =>
    if (r.entry d name).isSome then (.error .alreadyExists, r)
    else (.ok (), r.newDir.link d name (.dir r.nextDir))
  | .file _, _ => (.error .notDirectory, r)

def deleteChildFile (r : Ram) : RamNode → Name → Except VfsError Unit × Ram
  | .dir d, name =>
    match r.entry d name with
    | some (.file _) => (.ok (), r.unlink d name)
    | some (.dir _) => (.error .notDirectory, r)
    | none => (.error .notFound, r)
  | .file _, _ => (.error .permissionDenied, r)

def createFile (r : Ram) (name : Name) : Except VfsError RamFileHandle × Ram :=
  r.createChildFile (.dir r.root) name

def createDir (r : Ram) (name : Name) : Except VfsError Unit × Ram :=
  r.createChildDir (.dir r.root) name

def listEntries (r : Ram) (d : Nat) : List Name := (r.dirs d).keys

end Ram

/-! ## Handles -/

/-- `isize::MAX`: a vector that would be longer panics. -/
def VEC_MAX : Nat := 2 ^ 63 - 1

/-- `data.resize(end, 0)` if the data ends before `end`, and then `buf` at `pos`. -/
def overwrite (data : List Byte) (pos : Nat) (buf : List Byte) : List Byte :=
  let end_ := pos + buf.length
  let data := if data.length < end_ then data ++ List.replicate (end_ - data.length) 0 else data
  data.take pos ++ buf ++ data.drop end_

namespace RamFileHandle

/-- `RamFileHandle::read` into a buffer of `count` bytes. -/
def read (r : Ram) (h : RamFileHandle) (count : Nat) : List Byte × RamFileHandle :=
  let bytes := ((r.files h.data).drop h.pos).take count
  (bytes, { h with pos := h.pos + bytes.length })

def write (r : Ram) (h : RamFileHandle) (buf : List Byte) :
    Except Panic (Nat × RamFileHandle × Ram) :=
  let data := r.files h.data
  let end_ := h.pos + buf.length
  if data.length < end_ ∧ VEC_MAX < end_ then .error .halt
  else
    .ok (buf.length, { h with pos := end_ },
      { r with files := update r.files h.data (overwrite data h.pos buf) })

def seek (h : RamFileHandle) (offset : Nat) : RamFileHandle := { h with pos := offset }

end RamFileHandle

namespace RamDirHandle

def utf8 (s : Name) : List Byte := s.flatMap fun c => (String.utf8EncodeChar c).map UInt8.toBitVec

/-- A name with its terminator, as a directory handle packs it. -/
def packName (name : Name) : List Byte := utf8 name ++ [0]

/-- How many of the names fit into `room` bytes as a whole. -/
def consumed : (room : Nat) → List Name → Nat
  | _, [] => 0
  | room, name :: names =>
    if (packName name).length ≤ room then consumed (room - (packName name).length) names + 1 else 0

/-- `RamDirHandle::read` into a buffer of `count` bytes. -/
def read (h : RamDirHandle) (count : Nat) : Except Panic (List Byte × RamDirHandle) :=
  if h.entries.length < h.pos then .error .halt
  else
    let left := h.entries.drop h.pos
    let bytes := (left.flatMap packName).take count
    .ok (bytes, { h with pos := h.pos + consumed bytes.length left })

def write (_h : RamDirHandle) (_buf : List Byte) : Except VfsError Nat := .error .permissionDenied

end RamDirHandle

end Indominus.Fs
