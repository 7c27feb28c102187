import Indominus.Memory.Vmm

/-!
# The ELF loader (`elf/mod.rs`)

The copy of a page is made at physical addresses and is not cut off at the end of the frame.  A
failed load returns the machine it leaves behind.
-/

namespace Indominus.Memory

open Lib

inductive ElfError
  | badMagic
  | notElf64
  | notLittleEndian
  | notExecutable
  | noProgramHeaders
  | segmentOutOfBounds
  | segmentOverlap
  | mapFailed
  | badEntry
  | badPhdrSize
  | segmentTooLarge
  deriving DecidableEq, Repr

/-- `MAX_USER_MEM`: 256 MiB. -/
def MAX_USER_MEM : Nat := 256 * 1024 * 1024

def PT_LOAD : Nat := 1

/-- The little-endian number in `n` bytes from `offset` on. -/
def leBytes (data : List Byte) (offset : Nat) : Nat → Nat
  | 0 => 0
  | n + 1 => (data.getD offset 0).toNat + 256 * leBytes data (offset + 1) n

/-- `read_u16`, `read_u32` and `read_u64`: `n` bytes, if they are inside the file. -/
def readLe (data : List Byte) (offset n : Nat) : Option Nat :=
  if offset + n > data.length then none else some (leBytes data offset n)

def readU16 (data : List Byte) (offset : Nat) : Option Nat := readLe data offset 2

def readU32 (data : List Byte) (offset : Nat) : Option Nat := readLe data offset 4

def readU64 (data : List Byte) (offset : Nat) : Option Nat := readLe data offset 8

/-- The header fields that `parse_ehdr` returns. -/
structure Ehdr where
  entry : Nat
  phoff : Nat
  phentsize : Nat
  phnum : Nat
  deriving DecidableEq, Repr

/-- `.ok_or(err)`. -/
def okOr {α : Type} (o : Option α) (err : ElfError) : Except ElfError α :=
  match o with
  | none => .error err
  | some a => .ok a

def parseEhdr (data : List Byte) : Except ElfError Ehdr := do
  if data.length < 64 then throw .badMagic
  if data.take 4 ≠ [0x7F, 0x45, 0x4C, 0x46] then throw .badMagic
  if data.getD 4 0 ≠ 2 then throw .notElf64
  if data.getD 5 0 ≠ 1 then throw .notLittleEndian
  let eType ← okOr (readU16 data 16) .badMagic
  if eType ≠ 2 ∧ eType ≠ 3 then throw .notExecutable
  let entry ← okOr (readU64 data 24) .badMagic
  let phoff ← okOr (readU64 data 32) .badMagic
  let phentsize ← okOr (readU16 data 54) .badMagic
  let phnum ← okOr (readU16 data 56) .badMagic
  if phnum = 0 then throw .noProgramHeaders
  if phentsize < 56 then throw .badPhdrSize
  if phoff ≥ data.length then throw .segmentOutOfBounds
  return { entry, phoff, phentsize, phnum }

/-- The fields of `Elf64Phdr` that the loader reads. -/
structure Phdr where
  type : Nat
  flags : Nat
  offset : Nat
  vaddr : Nat
  filesz : Nat
  memsz : Nat
  deriving DecidableEq, Repr

def parsePhdr (data : List Byte) (h : Ehdr) (index : Nat) : Option Phdr := do
  let offset := h.phoff + index * h.phentsize
  if offset + 56 > data.length then none
  let type ← readU32 data offset
  let flags ← readU32 data (offset + 4)
  let pOffset ← readU64 data (offset + 8)
  let vaddr ← readU64 data (offset + 16)
  let filesz ← readU64 data (offset + 32)
  let memsz ← readU64 data (offset + 40)
  return { type, flags, offset := pOffset, vaddr, filesz, memsz }

namespace Phdr

def virtStart (ph : Phdr) : Nat := ph.vaddr / PAGE_SIZE * PAGE_SIZE

def virtEnd (ph : Phdr) : Nat := (ph.vaddr + ph.memsz + PAGE_SIZE - 1) / PAGE_SIZE * PAGE_SIZE

def numPages (ph : Phdr) : Nat := (ph.virtEnd - ph.virtStart) / PAGE_SIZE

/-- The page-table flags of the segment: `PF_W` is bit 1 and `PF_X` bit 0 of `p_flags`. -/
def pageFlags (ph : Phdr) : Word :=
  let flags := Pte.PRESENT ||| Pte.USER_ACCESSIBLE
  let flags := if ph.flags.testBit 1 then flags ||| Pte.WRITABLE else flags
  if ph.flags.testBit 0 then flags else flags ||| Pte.NO_EXECUTE

/-- The checks of `load_elf` on a `PT_LOAD` header; returns the memory used so far. -/
def check (ph : Phdr) (dataLen totalMem : Nat) : Except ElfError Nat := do
  if min (ph.offset + ph.filesz) (2 ^ 64 - 1) > dataLen then throw .segmentOutOfBounds
  if ph.vaddr ≥ USER_SPACE_END then throw .segmentOverlap
  if ph.vaddr + ph.memsz ≥ 2 ^ 64 then throw .segmentOverlap
  if ph.vaddr + ph.memsz ≥ USER_SPACE_END then throw .segmentOverlap
  if ph.virtEnd ≥ USER_SPACE_END then throw .segmentOverlap
  let total := totalMem + (ph.virtEnd - ph.virtStart)
  if total ≥ 2 ^ 64 then throw .segmentTooLarge
  if total > MAX_USER_MEM then throw .segmentTooLarge
  return total

/-- The start of the page's bytes in the segment (`seg_data_start`). -/
def segDataStart (ph : Phdr) (pageVirt : Nat) : Nat :=
  if pageVirt ≥ ph.vaddr then pageVirt - ph.vaddr else 0

def segDataEnd (ph : Phdr) (pageVirt : Nat) : Nat :=
  min (ph.segDataStart pageVirt + PAGE_SIZE) ph.memsz

def dataInPage (ph : Phdr) (pageVirt : Nat) : Nat :=
  if ph.segDataStart pageVirt < ph.filesz then
    min (ph.segDataEnd pageVirt) ph.filesz - ph.segDataStart pageVirt
  else 0

def bssInPage (ph : Phdr) (pageVirt : Nat) : Nat :=
  if ph.segDataEnd pageVirt > ph.segDataStart pageVirt then
    ph.segDataEnd pageVirt - ph.segDataStart pageVirt - ph.dataInPage pageVirt
  else 0

def pageOffset (ph : Phdr) (pageVirt : Nat) : Nat :=
  if ph.vaddr > pageVirt then ph.vaddr - pageVirt else 0

/-- The bytes that the loader writes for one page, from `page_offset` on: the file's part,
then zeros. -/
def pageBytes (ph : Phdr) (data : List Byte) (pageVirt : Nat) : List Byte :=
  (data.drop (ph.offset + ph.segDataStart pageVirt)).take (ph.dataInPage pageVirt) ++
    List.replicate (ph.bssInPage pageVirt) 0

end Phdr

/-- How `load_elf` can stop early. -/
inductive LoadStop
  | panic (p : Panic)
  | fail (e : ElfError) (s : Machine)

/-- One round of the page loop of `load_elf`. -/
def loadPage (M : Mapper) (data : List Byte) (pml4 : Nat) (ph : Phdr) (pageIdx : Nat)
    (s : Machine) : Except LoadStop Machine :=
  let pageVirt := ph.virtStart + pageIdx * PAGE_SIZE
  match s.allocateFrame with
  | none => .error (.fail .mapFailed s)
  | some (frame, s) =>
    match mapPage M s pml4 pageVirt frame ph.pageFlags with
    | .error p => .error (.panic p)
    | .ok s =>
      .ok { s with
        ram := s.ram.writeBytes (frame * PAGE_SIZE + ph.pageOffset pageVirt)
          (ph.pageBytes data pageVirt) }

/-- The page loop of `load_elf`. -/
def loadPages (M : Mapper) (data : List Byte) (pml4 : Nat) (ph : Phdr) :
    List Nat → Machine → Except LoadStop Machine
  | [], s => .ok s
  | i :: is, s =>
    match loadPage M data pml4 ph i s with
    | .error e => .error e
    | .ok s => loadPages M data pml4 ph is s

/-- The loop over the program headers: `totalMem` and `entry_in_segment` are its
accumulators. -/
def loadSegments (M : Mapper) (data : List Byte) (pml4 : Nat) (h : Ehdr) :
    List Nat → (totalMem : Nat) → (entryInSegment : Bool) → Machine →
      Except LoadStop (Bool × Machine)
  | [], _, entryInSegment, s => .ok (entryInSegment, s)
  | i :: is, totalMem, entryInSegment, s =>
    match parsePhdr data h i with
    | none => .error (.fail .segmentOutOfBounds s)
    | some ph =>
      if ph.type ≠ PT_LOAD then loadSegments M data pml4 h is totalMem entryInSegment s
      else
        match ph.check data.length totalMem with
        | .error e => .error (.fail e s)
        | .ok totalMem =>
          let entryInSegment :=
            entryInSegment || (decide (ph.virtStart ≤ h.entry) && decide (h.entry < ph.virtEnd))
          match loadPages M data pml4 ph (List.range ph.numPages) s with
          | .error e => .error e
          | .ok s => loadSegments M data pml4 h is totalMem entryInSegment s

/-- `load_elf`: the entry point. -/
def loadElf (M : Mapper) (data : List Byte) (pml4 : Nat) (s : Machine) :
    Except LoadStop (Nat × Machine) :=
  match parseEhdr data with
  | .error e => .error (.fail e s)
  | .ok h =>
    match loadSegments M data pml4 h (List.range h.phnum) 0 false s with
    | .error e => .error e
    | .ok (entryInSegment, s) =>
      if entryInSegment then .ok (h.entry, s) else .error (.fail .badEntry s)

/-! ## Small files -/

def wordBytes (w : Nat) : List Byte :=
  (List.range 8).map fun i => BitVec.ofNat 8 (w / 256 ^ i)

/-- An executable that starts at 4 MiB.  A segment has an address and a size in memory, and an
offset and a size in the file. -/
def elfOf (segments : List ((Nat × Nat) × Nat × Nat)) (contents : List Byte) : List Byte :=
  -- the header: magic number, class, byte order, type, entry point, program header table
  [0x7F, 0x45, 0x4C, 0x46, 2, 1] ++ List.replicate 10 0 ++ [2, 0] ++ List.replicate 6 0 ++
    wordBytes 0x400000 ++ wordBytes 64 ++ List.replicate 14 0 ++
    [56, 0, BitVec.ofNat 8 segments.length, 0] ++ List.replicate 6 0 ++
  -- the segments: type, flags, offset, addresses, sizes in the file and in memory, alignment
  (segments.flatMap fun s => [1, 0, 0, 0, 7, 0, 0, 0] ++ wordBytes s.2.1 ++ wordBytes s.1.1 ++
    wordBytes 0 ++ wordBytes s.2.2 ++ wordBytes s.1.2 ++ wordBytes 0) ++ contents

/-- Segments that are not in the file: they are all zeros. -/
def zeroElf (segments : List (Nat × Nat)) : List Byte := elfOf (segments.map fun s => (s, 0, 0)) []

/-- A page of zeros at 4 MiB. -/
def tinyElf : List Byte := zeroElf [(0x400000, 1)]

end Indominus.Memory
