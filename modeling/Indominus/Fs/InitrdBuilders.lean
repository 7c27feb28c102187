import Mathlib.Data.Nat.Digits.Lemmas
import Mathlib.Data.List.DropRight
import Indominus.Fs.Initrd

/-!
# The initrd builders (`tools/build_initrd.py`, `tools/make_initrd.py`)

A directory on disk is a `Listing`, in the order in which the operating system lists it.
-/

namespace Indominus.Fs

open Memory

namespace Initrd

/-! ## Directories on disk -/

/-- The entries of a directory, in the order of `os.scandir`. -/
inductive Listing
  | empty
  | file (name : Name) (data : List Byte) (rest : Listing)
  | dir (name : Name) (entries : Listing) (rest : Listing)

namespace Listing

def files : Listing → List (Name × List Byte)
  | .empty => []
  | .file name data rest => (name, data) :: rest.files
  | .dir _ _ rest => rest.files

def subdirs : Listing → List (Name × Listing)
  | .empty => []
  | .file _ _ rest => rest.subdirs
  | .dir name entries rest => (name, entries) :: rest.subdirs

end Listing

/-! ## Python -/

/-- The order of Python strings. -/
def nameLe (a b : Name) : Bool := (compare a b).isLE

/-- `sorted`, of things that go by a name. -/
def sortedBy {α : Type} (name : α → Name) (l : List α) : List α :=
  l.mergeSort fun a b => nameLe (name a) (name b)

/-- `s.replace('\\', '/')`. -/
def slashes (s : Name) : Name := s.map fun c => if c = '\\' then '/' else c

/-- `os.path.join(rel, name) if rel else name`. -/
def joinName (rel name : Name) : Name := if rel = [] then name else rel ++ '/' :: name

def hexChar (d : Nat) : Byte := BitVec.ofNat 8 (if d < 10 then 0x30 + d else 0x61 + (d - 10))

/-- The format `08x`: at least eight digits. -/
def hex08 (val : Nat) : List Byte := ((Nat.digits 16 val).reverse.leftpad 8 0).map hexChar

/-- What the scripts write an entry for. -/
structure Entry where
  name : Name
  data : List Byte
  isDir : Bool

def fileEntries (rel : Name) (l : Listing) : List Entry :=
  (sortedBy Prod.fst l.files).map fun f => ⟨slashes (joinName rel f.1), f.2, false⟩

/-- The entry for the directory itself; the root has none. -/
def ownEntry (rel : Name) : List Entry :=
  if rel = [] then [] else [⟨slashes rel ++ ['/'], [], true⟩]

/-! ## `build_initrd.py` -/

def hex8 (val : Nat) : List Byte := hex08 (val % 2 ^ 32)

def padded (bytes : List Byte) : List Byte :=
  bytes ++ List.replicate (align4 bytes.length - bytes.length) 0

def buildEntry (name : Name) (data : List Byte) (mode : Nat) (isDir : Bool) : List Byte :=
  let mode := if isDir then 0o040755 else mode
  let data := if isDir then [] else data
  let nameWithNul := RamDirHandle.utf8 name ++ [0]
  let header := magic ++ hex8 0 ++ hex8 mode ++ hex8 0 ++ hex8 0 ++ hex8 1 ++ hex8 0
    ++ hex8 data.length ++ hex8 0 ++ hex8 0 ++ hex8 0 ++ hex8 0 ++ hex8 nameWithNul.length ++ hex8 0
  header ++ padded nameWithNul ++ padded data

def buildTrailer : List Byte := buildEntry trailer [] 0 false

/-- The entries that `build_initrd.py` writes for the directories in a directory. -/
def dirEntries (rel : Name) (l : Listing) : List Entry :=
  (sortedBy Prod.fst l.subdirs).map fun d => ⟨slashes (joinName rel d.1) ++ ['/'], [], true⟩

/-- One round of the loop over `os.walk`. -/
def buildVisit (rel : Name) (l : Listing) : List Entry :=
  ownEntry rel ++ fileEntries rel l ++ dirEntries rel l

/-- The rounds for the directories below a directory; `os.walk` takes them in the order of the
listing. -/
def buildBelow (rel : Name) : Listing → List Entry
  | .empty => []
  | .file _ _ rest => buildBelow rel rest
  | .dir name entries rest =>
    buildVisit (joinName rel name) entries ++ buildBelow (joinName rel name) entries
      ++ buildBelow rel rest

/-- `build_initrd` of `build_initrd.py`. -/
def buildInitrd (root : Listing) : List Byte :=
  (buildVisit [] root ++ buildBelow [] root).flatMap
    (fun e => buildEntry e.name e.data 0o100644 e.isDir) ++ buildTrailer

/-! ## `make_initrd.py` -/

/-- `encode("ascii")`; `none` is a `UnicodeEncodeError`. -/
def encodeAscii (s : Name) : Option (List Byte) :=
  if s.all (·.toNat < 128) then some (s.map fun c => BitVec.ofNat 8 c.toNat) else none

def cpioNewcEntry (name : Name) (data : List Byte) (isDir : Bool) : Option (List Byte) :=
  let nameStr := if isDir then name.rdropWhile (· = '/') ++ ['/'] else name
  let data := if isDir then [] else data
  let mode := if isDir then 0x41fd else 0x81a4
  let type := if isDir then 4 else 0
  let namesize := nameStr.length + 1
  let header := magic ++ hex08 0 ++ hex08 0 ++ hex08 mode ++ hex08 0 ++ hex08 0 ++ hex08 1
    ++ hex08 data.length ++ hex08 0 ++ hex08 0 ++ hex08 type ++ hex08 0 ++ hex08 namesize ++ hex08 0
  (encodeAscii nameStr).map fun bytes =>
    header ++ bytes ++ [0] ++ List.replicate (align4 namesize - namesize) 0 ++ padded data

def makeTrailer : Option (List Byte) := cpioNewcEntry trailer [] false

/-- One round of the loop over `os.walk`. -/
def makeVisit (rel : Name) (l : Listing) : List Entry := ownEntry rel ++ fileEntries rel l

/-- The rounds for the directories below a directory, in the order of their sorted names. -/
def makeBelow (rel : Name) : Listing → List (Name × List Entry)
  | .empty => []
  | .file _ _ rest => makeBelow rel rest
  | .dir name entries rest =>
    (name, makeVisit (joinName rel name) entries
      ++ (sortedBy Prod.fst (makeBelow (joinName rel name) entries)).flatMap Prod.snd)
      :: makeBelow rel rest

/-- The entries of `make_initrd.py`, after the one for the root. -/
def makeEntries (rel : Name) (l : Listing) : List Entry :=
  makeVisit rel l ++ (sortedBy Prod.fst (makeBelow rel l)).flatMap Prod.snd

/-- `build_initrd` of `make_initrd.py`. -/
def makeInitrd (root : Listing) : Option (List Byte) :=
  ((⟨[], [], true⟩ :: makeEntries [] root).mapM fun e => cpioNewcEntry e.name e.data e.isDir).bind
    fun entries => makeTrailer.map fun last => entries.flatten ++ last

end Initrd

end Indominus.Fs
