import Indominus.Lib.Bytes
import Indominus.Memory.Elf

/-!
# Loading and relocating the kernel (`indo-boot/src/main.rs`, `memory/mod.rs`)

The bootloader copies the segments into one block and relocates them there; `fixup_pic_relocations`
later moves the pointers to virtual addresses.  Memory is a byte image, indexed from the start of
the block or by virtual address; 64-bit arithmetic wraps, and an index outside the file panics.
-/

namespace Indominus.Boot

open Lib Lib.Bytes
open Memory (Byte readLe leBytes PT_LOAD)

def KERNEL_VIRT_BASE : Nat := 0xFFFFFFFF80000000

/-- What `load_elf` returns as an error; `panic` stops the bootloader. -/
inductive BootError
  | badMagic
  | notElf64
  | phdrOutOfBounds
  | noLoadSegments
  | noMemory
  | panic
  deriving DecidableEq, Repr

def orElse {α : Type} (o : Option α) (err : BootError) : Except BootError α :=
  match o with
  | none => .error err
  | some a => .ok a

/-- `elf_read_u16`; `none` is the panic of an index outside the file. -/
def elfReadU16 (buf : List Byte) (off : Nat) : Option Nat := readLe buf off 2

def elfReadU32 (buf : List Byte) (off : Nat) : Option Nat := readLe buf off 4

/-- `elf_read_u64`, and `elf_read_i64` as a bit pattern. -/
def elfReadU64 (buf : List Byte) (off : Nat) : Option Nat := readLe buf off 8

/-! ## Relocations in the bootloader -/

structure Rela where
  /-- `r_offset`: the virtual address of the target. -/
  offset : Nat
  /-- `r_info`, with the type in the low 32 bits. -/
  info : Nat
  /-- `r_addend`, as a bit pattern. -/
  addend : Nat
  deriving DecidableEq, Repr, Inhabited

/-- The relocation has the type `R_X86_64_RELATIVE`. -/
def Rela.isRelative (r : Rela) : Bool := r.info % 2 ^ 32 == 8

def relaAt (elf : List Byte) (ent : Nat) : Option Rela := do
  let offset ← elfReadU64 elf ent
  let info ← elfReadU64 elf (ent + 8)
  let addend ← elfReadU64 elf (ent + 16)
  return ⟨offset, info, addend⟩

/-- The fields of a section header that the bootloader reads. -/
structure RelaSection where
  addr : Nat
  offset : Nat
  size : Nat
  entsize : Nat
  deriving DecidableEq, Repr

def SHT_RELA : Nat := 4

/-- The section header at an offset: `none` is a panic, `some none` a section of another type. -/
def sectionAt (elf : List Byte) (off : Nat) : Option (Option RelaSection) := do
  let shType ← elfReadU32 elf ((off + 4) % 2 ^ 64)
  if shType ≠ SHT_RELA then
    return none
  let addr ← elfReadU64 elf ((off + 16) % 2 ^ 64)
  let offset ← elfReadU64 elf ((off + 24) % 2 ^ 64)
  let size ← elfReadU64 elf ((off + 32) % 2 ^ 64)
  let entsize ← elfReadU64 elf ((off + 56) % 2 ^ 64)
  return some ⟨addr, offset, size, entsize⟩

/-- The block that the bootloader has allocated for the kernel. -/
structure Block where
  size : Nat
  base : Nat
  minVaddr : Nat
  deriving DecidableEq, Repr

/-- `target_offset`. -/
def Block.target (b : Block) (r : Rela) : Nat := (r.offset + 2 ^ 64 - b.minVaddr) % 2 ^ 64

/-- The value that the bootloader stores: `base_phys + r_addend - min_vaddr`. -/
def Block.value (b : Block) (r : Rela) : Nat := (b.base + r.addend + 2 ^ 64 - b.minVaddr) % 2 ^ 64

/-- One relocation: other types and targets behind the block are skipped. -/
def applyRela (b : Block) (img : Image) (r : Rela) : Image :=
  if ¬ r.isRelative then img
  else if b.size < (b.target r + 8) % 2 ^ 64 then img
  else put img (b.target r) 8 (b.value r)

/-- The loop over the entries of a section; `n` are left, and `j` is the next one. -/
def applySection (elf : List Byte) (b : Block) (s : RelaSection) :
    Nat → Nat → Image → Option Image
  | 0, _, img => some img
  | n + 1, j, img =>
    match relaAt elf ((s.offset + j * s.entsize) % 2 ^ 64) with
    | none => none
    | some r => applySection elf b s n (j + 1) (applyRela b img r)

/-- The loop over the section headers; `n` are left, and `i` is the next one.  `dyn` are
`rela_dyn_vaddr` and `rela_dyn_size`. -/
def applySections (elf : List Byte) (b : Block) (shoff shentsize : Nat) :
    Nat → Nat → Nat × Nat → Image → Option ((Nat × Nat) × Image)
  | 0, _, dyn, img => some (dyn, img)
  | n + 1, i, dyn, img =>
    if elf.length < ((shoff + i * shentsize) % 2 ^ 64 + shentsize) % 2 ^ 64 then some (dyn, img)
    else
      match sectionAt elf ((shoff + i * shentsize) % 2 ^ 64) with
      | none => none
      | some none => applySections elf b shoff shentsize n (i + 1) dyn img
      | some (some s) =>
        if s.entsize = 0 ∨ elf.length < (s.offset + s.size) % 2 ^ 64 then
          applySections elf b shoff shentsize n (i + 1) dyn img
        else
          match applySection elf b s (s.size / s.entsize) 0 img with
          | none => none
          | some img => applySections elf b shoff shentsize n (i + 1) (s.addr, s.size) img

/-- `apply_relocations`; `none` is a panic. -/
def applyRelocations (elf : List Byte) (b : Block) (img : Image) :
    Option ((Nat × Nat) × Image) := do
  let shoff ← elfReadU64 elf 40
  let shentsize ← elfReadU16 elf 58
  let shnum ← elfReadU16 elf 60
  if shoff = 0 ∨ shnum = 0 then
    return ((0, 0), img)
  applySections elf b shoff shentsize shnum 0 (0, 0) img

/-! ## Loading -/

/-- The fields of a program header that the bootloader reads. -/
structure Phdr where
  type : Nat
  offset : Nat
  vaddr : Nat
  filesz : Nat
  memsz : Nat
  deriving DecidableEq, Repr

/-- Program header `i`.  Slices that are too short panic. -/
def phdrAt (data : List Byte) (phoff phentsize i : Nat) : Except BootError Phdr := do
  let phOffset := (phoff + i * phentsize) % 2 ^ 64
  if data.length < (phOffset + phentsize) % 2 ^ 64 then
    throw .phdrOutOfBounds
  if phentsize < 48 then
    throw .panic
  let type ← orElse (elfReadU32 data phOffset) .panic
  let offset ← orElse (elfReadU64 data (phOffset + 8)) .panic
  let vaddr ← orElse (elfReadU64 data (phOffset + 16)) .panic
  let filesz ← orElse (elfReadU64 data (phOffset + 32)) .panic
  let memsz ← orElse (elfReadU64 data (phOffset + 40)) .panic
  return ⟨type, offset, vaddr, filesz, memsz⟩

/-- What the bootloader finds on the machine it runs on. -/
structure Firmware where
  /-- `allocate_pages`: the address of a block of so many pages. -/
  allocatePages : Nat → Option Nat
  /-- The memory behind the block, by its distance from the start of the block. -/
  behindBlock : Nat → Byte
  /-- The memory behind the buffer of the file, by its distance from the start of the buffer. -/
  behindFile : Nat → Byte

/-- The byte at a distance from the start of the file's buffer. -/
def Firmware.fileByte (fw : Firmware) (data : List Byte) (i : Nat) : Byte :=
  data.getD i (fw.behindFile i)

/-- `copy_nonoverlapping` of a segment to its place; nothing checks that the place is inside the
block. -/
def copySegment (fw : Firmware) (data : List Byte) (minVaddr : Nat) (img : Image) (ph : Phdr) :
    Image := fun i =>
  if ph.vaddr - minVaddr ≤ i ∧ i < ph.vaddr - minVaddr + ph.filesz then
    fw.fileByte data (ph.offset + (i - (ph.vaddr - minVaddr)))
  else img i

/-- The kernel in memory before its relocation. -/
structure Placed where
  block : Block
  maxVaddr : Nat
  physStart : Nat
  physEnd : Nat
  image : Image

/-- `load_elf` up to the relocations.  Both passes read the same program headers. -/
def loadSegments (fw : Firmware) (data : List Byte) : Except BootError Placed := do
  if data.length < 4 ∨ data.take 4 ≠ [0x7F, 0x45, 0x4C, 0x46] then
    throw .badMagic
  let elfClass ← orElse data[4]? .panic
  if elfClass ≠ 2 then
    throw .notElf64
  let phoff ← orElse (elfReadU64 data 32) .panic
  let phentsize ← orElse (elfReadU16 data 54) .panic
  let phnum ← orElse (elfReadU16 data 56) .panic
  let headers ← (List.range phnum).mapM (phdrAt data phoff phentsize)
  let segments := headers.filter (·.type == PT_LOAD)
  let minVaddr := segments.foldl (fun m ph => min m ph.vaddr) (2 ^ 64 - 1)
  let maxVaddr := segments.foldl (fun m ph => max m ((ph.vaddr + ph.memsz) % 2 ^ 64)) 0
  let totalMemsz := segments.foldl (fun t ph => (t + ph.memsz) % 2 ^ 64) 0
  if minVaddr = 2 ^ 64 - 1 then
    throw .noLoadSegments
  let totalPages := (totalMemsz + 4095) % 2 ^ 64 / 4096
  let base ← orElse (fw.allocatePages totalPages) .noMemory
  let size := totalPages * 4096
  let zeroed : Image := fun i => if i < size then 0 else fw.behindBlock i
  let segPhys := fun ph : Phdr => (base + (ph.vaddr - minVaddr)) % 2 ^ 64
  return {
    block := ⟨size, base, minVaddr⟩
    maxVaddr := maxVaddr
    physStart := segments.foldl (fun m ph => min m (segPhys ph)) (2 ^ 64 - 1)
    physEnd := segments.foldl (fun m ph => max m ((segPhys ph + ph.memsz) % 2 ^ 64)) 0
    image := segments.foldl (copySegment fw data minVaddr) zeroed }

/-- What the bootloader hands to the kernel. -/
structure Handover where
  physStart : Nat
  physEnd : Nat
  /-- `load_offset`, as a bit pattern. -/
  loadOffset : Nat
  relaDynVaddr : Nat
  relaDynSize : Nat
  image : Image

def loadElf (fw : Firmware) (data : List Byte) : Except BootError Handover := do
  let p ← loadSegments fw data
  let (dyn, image) ← orElse (applyRelocations data p.block p.image) .panic
  return {
    physStart := p.physStart
    physEnd := p.physEnd
    loadOffset := (p.block.base + 2 ^ 64 - p.block.minVaddr) % 2 ^ 64
    relaDynVaddr := dyn.1
    relaDynSize := dyn.2
    image := image }

/-! ## Relocations in the kernel -/

/-- One entry of the table that `fixup_pic_relocations` walks. -/
def fixupEntry (kps : Nat) (mem : Image) (entry : Nat) : Image :=
  if le mem (entry + 8) 8 % 2 ^ 32 ≠ 8 then mem
  else
    let target := le mem entry 8
    put mem target 8 ((le mem target 8 + 2 ^ 64 - kps + KERNEL_VIRT_BASE) % 2 ^ 64)

/-- `fixup_pic_relocations`, on the kernel's virtual memory. -/
def fixupPicRelocations (kps relaDynVaddr relaDynSize : Nat) (mem : Image) : Image :=
  if kps = 0 ∨ relaDynVaddr = 0 ∨ relaDynSize = 0 then mem
  else
    (List.range (relaDynSize / 24)).foldl
      (fun mem i => fixupEntry kps mem ((relaDynVaddr + i * 24) % 2 ^ 64)) mem

/-- The kernel's virtual memory: the block from `KERNEL_VIRT_BASE` on, above other memory. -/
def virtualMemory (low img : Image) : Image := fun a =>
  if KERNEL_VIRT_BASE ≤ a then img (a - KERNEL_VIRT_BASE) else low a

/-- The block, after the kernel has moved its pointers (`kernel_main`). -/
def Handover.kernelImage (h : Handover) (low : Image) : Image := fun i =>
  fixupPicRelocations h.physStart h.relaDynVaddr h.relaDynSize (virtualMemory low h.image)
    (KERNEL_VIRT_BASE + i)

end Indominus.Boot
