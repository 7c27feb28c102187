import Indominus.Boot.LoadElf

/-!
# The two relocation stages

Each stage is a list of patches of 8-byte slots: what a slot holds depends on the lists it is in.
-/

namespace Indominus.Boot

open Lib Lib.Bytes List
open Memory (Byte readLe leBytes PT_LOAD)

/-! ## Reading the file -/

variable {n o kps : Nat} {data : List Byte} {s : RelaSection} {b : Block} {p : Placed} {r : Rela}
  {mem : Image}

lemma readLe_of_le (h : o + n ≤ data.length) : readLe data o n = some (leBytes data o n) := by
  rw [readLe, if_neg (by omega)]

lemma leBytes_eq_le (data : List Byte) (o n : Nat) :
    leBytes data o n = le (fun i => data.getD i 0) o n := by
  induction n generalizing o with
  | zero => rfl
  | succ n ih => rw [leBytes, le, ih]

lemma readLe_lt {v : Nat} (h : readLe data o n = some v) : v < 256 ^ n := by
  unfold readLe at h
  split_ifs at h
  rw [← Option.some_injective _ h, leBytes_eq_le]
  exact le_lt ..

def relaOf (elf : List Byte) (ent : Nat) : Rela :=
  ⟨leBytes elf ent 8, leBytes elf (ent + 8) 8, leBytes elf (ent + 16) 8⟩

lemma relaAt_of_le {elf : List Byte} {ent : Nat} (h : ent + 24 ≤ elf.length) :
    relaAt elf ent = some (relaOf elf ent) := by
  simp only [relaAt, elfReadU64, readLe_of_le (show ent + 8 ≤ elf.length by omega),
    readLe_of_le (show ent + 8 + 8 ≤ elf.length by omega),
    readLe_of_le (show ent + 16 + 8 ≤ elf.length by omega)]
  rfl

lemma sectionAt_of_le {elf : List Byte} {off : Nat} (h : off + 64 ≤ elf.length)
    (hfile : elf.length < 2 ^ 64) : ∃ s, sectionAt elf off = some s := by
  have hread : ∀ d n, d + n ≤ 64 →
      readLe elf ((off + d) % 2 ^ 64) n = some (leBytes elf (off + d) n) := by
    intro d n hd
    rw [Nat.mod_eq_of_lt (by omega), readLe_of_le (by omega)]
  by_cases htype : leBytes elf (off + 4) 4 = SHT_RELA
  · exact ⟨_, by
      simp only [sectionAt, elfReadU32, elfReadU64, hread 4 4 (by omega), hread 16 8 (by omega),
        hread 24 8 (by omega), hread 32 8 (by omega), hread 56 8 (by omega), htype]
      rfl⟩
  exact ⟨none, by
    simp only [sectionAt, elfReadU32, hread 4 4 (by omega), Option.bind_eq_bind,
      Option.bind_some, ne_eq, htype, not_false_eq_true, if_true]
    rfl⟩

/-! ## The relocations of a kernel file -/

/-- The section header table of a file, inside the file. -/
structure SectionHeaders (elf : List Byte) where
  shoff : Nat
  shentsize : Nat
  shnum : Nat
  read_shoff : elfReadU64 elf 40 = some shoff
  read_shentsize : elfReadU16 elf 58 = some shentsize
  read_shnum : elfReadU16 elf 60 = some shnum
  size : 64 ≤ shentsize
  inFile : shoff + shnum * shentsize ≤ elf.length
  fileSize : elf.length < 2 ^ 64

variable {elf : List Byte}

/-- The `SHT_RELA` sections among the section headers of a list of indices. -/
def SectionHeaders.relaAmong (H : SectionHeaders elf) (is : List Nat) : List RelaSection :=
  is.filterMap fun i => (sectionAt elf (H.shoff + i * H.shentsize)).join

/-- The `SHT_RELA` sections, in the order of the section header table. -/
def SectionHeaders.relaSections (H : SectionHeaders elf) : List RelaSection :=
  if H.shoff = 0 then [] else H.relaAmong (List.range H.shnum)

def relaEntries (elf : List Byte) (s : RelaSection) : List Rela :=
  (List.range (s.size / 24)).map fun j => relaOf elf (s.offset + j * 24)

/-- The relocations of type `R_X86_64_RELATIVE` in a list of sections. -/
def relatives (elf : List Byte) (ss : List RelaSection) : List Rela :=
  (ss.flatMap (relaEntries elf)).filter Rela.isRelative

/-- A relocation section as the ELF format has it: entries of 24 bytes, inside the file. -/
structure RelaSection.WellFormed (elf : List Byte) (s : RelaSection) : Prop where
  entsize : s.entsize = 24
  inFile : s.offset + s.size ≤ elf.length

lemma applySection_eq (hs : s.WellFormed elf) (hfile : elf.length < 2 ^ 64) (n j : Nat)
    (img : Image) (hn : (j + n) * 24 ≤ s.size) : applySection elf b s n j img
      = some (((range' j n).map fun j => relaOf elf (s.offset + j * 24)).foldl
          (applyRela b) img) := by
  induction n generalizing j img with
  | zero => rfl
  | succ n ih =>
    have hin := hs.inFile
    have hent : relaAt elf ((s.offset + j * s.entsize) % 2 ^ 64)
        = some (relaOf elf (s.offset + j * 24)) := by
      rw [hs.entsize, Nat.mod_eq_of_lt (by omega)]
      exact relaAt_of_le (by omega)
    rw [applySection, hent, range'_succ, map_cons, foldl_cons]
    exact ih (j + 1) _ (by omega)

/-- The address and the size that the kernel is given: those of the last section. -/
def lastTable (ss : List RelaSection) (dyn : Nat × Nat) : Nat × Nat :=
  ss.foldl (fun _ s => (s.addr, s.size)) dyn

/-- The section loop applies the entries of all RELA sections in order. -/
lemma applySections_eq (H : SectionHeaders elf)
    (hs : ∀ s ∈ H.relaAmong (range H.shnum), s.WellFormed elf) (n i : Nat) (dyn : Nat × Nat)
    (img : Image) (hn : i + n ≤ H.shnum) : applySections elf b H.shoff H.shentsize n i dyn img
      = some (lastTable (H.relaAmong (range' i n)) dyn,
          ((H.relaAmong (range' i n)).flatMap (relaEntries elf)).foldl (applyRela b) img) := by
  induction n generalizing i dyn img with
  | zero => rfl
  | succ n ih =>
    have hfile := H.fileSize
    have hsize := H.size
    have hbnd : H.shoff + i * H.shentsize + H.shentsize ≤ elf.length := by
      have hle : (i + 1) * H.shentsize ≤ H.shnum * H.shentsize :=
        Nat.mul_le_mul_right _ (by omega)
      have := H.inFile
      rw [Nat.succ_mul] at hle
      omega
    obtain ⟨o, ho⟩ := sectionAt_of_le
      (show H.shoff + i * H.shentsize + 64 ≤ elf.length by omega) hfile
    rw [applySections, Nat.mod_eq_of_lt (a := H.shoff + i * H.shentsize) (by omega),
      if_neg (by omega), ho]
    have hcons : H.relaAmong (range' i (n + 1))
        = o.toList ++ H.relaAmong (range' (i + 1) n) := by
      rw [SectionHeaders.relaAmong, range'_succ, filterMap_cons, ho]
      cases o <;> rfl
    cases o with
    | none => exact (ih (i + 1) dyn img (by omega)).trans (by rw [hcons]; rfl)
    | some s =>
      have hmem : s ∈ H.relaAmong (range H.shnum) :=
        mem_filterMap.mpr ⟨i, mem_range.mpr (by omega), by rw [ho]; rfl⟩
      have hwf := hs s hmem
      have hin := hwf.inFile
      have hskip : ¬ (24 = 0 ∨ elf.length < (s.offset + s.size) % 2 ^ 64) := by
        omega
      have hent := applySection_eq (b := b) hwf hfile (s.size / 24) 0 img (by omega)
      simp only [hwf.entsize, hent]
      rw [if_neg hskip, ih (i + 1) _ _ (by omega), hcons]
      simp only [Option.toList_some, singleton_append, flatMap_cons, foldl_append,
        lastTable, foldl_cons, relaEntries, range_eq_range']

lemma applyRelocations_sections (H : SectionHeaders elf) (img : Image)
    (hs : ∀ s ∈ H.relaSections, s.WellFormed elf) : applyRelocations elf b img
      = some (lastTable H.relaSections (0, 0),
          (H.relaSections.flatMap (relaEntries elf)).foldl (applyRela b) img) := by
  simp only [applyRelocations, H.read_shoff, H.read_shentsize, H.read_shnum, Option.bind_eq_bind,
    Option.bind_some]
  by_cases hnone : H.shoff = 0
  · rw [if_pos (.inl hnone), SectionHeaders.relaSections, if_pos hnone]
    rfl
  rw [SectionHeaders.relaSections, if_neg hnone] at hs ⊢
  by_cases hzero : H.shnum = 0
  · rw [if_pos (.inr hzero), hzero]
    rfl
  · rw [if_neg (by tauto), applySections_eq H hs _ _ _ _ (Nat.zero_add _).le,
      range_eq_range']

/-! ## The bootloader's stage -/

def Block.holds (b : Block) (r : Rela) : Bool := decide (r.offset - b.minVaddr + 8 ≤ b.size)

/-- The slot of a relocation, with what the bootloader stores in it. -/
def Block.patchOf (b : Block) (r : Rela) : Nat × (Nat → Nat) :=
  (r.offset - b.minVaddr, fun _ => b.value r)

/-- The target of a relocation is an 8-byte slot of the image. -/
def InImage (p : Placed) (r : Rela) : Prop :=
  p.block.minVaddr ≤ r.offset ∧ r.offset + 8 ≤ p.maxVaddr

lemma applyRela_eq {img : Image} (hmax : p.maxVaddr < 2 ^ 64) (hr : r.isRelative → InImage p r) :
    applyRela p.block img r =
      patchAll 8 img (([r].filter fun r => p.block.holds r && r.isRelative).map
          p.block.patchOf) := by
  unfold applyRela
  by_cases hrel : r.isRelative
  · obtain ⟨hlow, hhigh⟩ := hr hrel
    have htgt : p.block.target r = r.offset - p.block.minVaddr := by
      unfold Block.target
      rw [show r.offset + 2 ^ 64 - p.block.minVaddr = r.offset - p.block.minVaddr + 2 ^ 64 by omega,
        Nat.add_mod_right, Nat.mod_eq_of_lt (by omega)]
    rw [if_neg (by simpa using hrel), htgt]
    by_cases hblk : r.offset - p.block.minVaddr + 8 ≤ p.block.size
    · rw [if_neg (by omega), filter_singleton, Block.holds]
      simp [hrel, hblk, patchAll, patch, Block.patchOf]
    · rw [if_pos (by omega), filter_singleton, Block.holds]
      simp [hblk, patchAll]
  · rw [if_pos (by simpa using hrel), filter_singleton]
    simp [hrel, patchAll]

lemma foldl_applyRela_eq (hmax : p.maxVaddr < 2 ^ 64) (rs : List Rela) (img : Image)
    (hrs : ∀ r ∈ rs.filter Rela.isRelative, InImage p r) : rs.foldl (applyRela p.block) img
      = patchAll 8 img
        (((rs.filter Rela.isRelative).filter p.block.holds).map p.block.patchOf) := by
  simp only [filter_filter] at hrs ⊢
  induction rs generalizing img with
  | nil => rfl
  | cons r rs ih =>
    have hr : r.isRelative → InImage p r := fun h => hrs r (by simp [h])
    have hrest : ∀ r ∈ rs.filter Rela.isRelative, InImage p r := by
      intro q hq
      rw [mem_filter] at hq
      exact hrs q (mem_filter.mpr ⟨mem_cons_of_mem r hq.1, hq.2⟩)
    rw [foldl_cons, ih _ hrest, applyRela_eq hmax hr, ← patchAll_append, ← map_append,
      ← filter_append, singleton_append]

lemma applyRelocations_eq (H : SectionHeaders elf) (hs : ∀ s ∈ H.relaSections, s.WellFormed elf)
    (hmax : p.maxVaddr < 2 ^ 64) (hin : ∀ r ∈ relatives elf H.relaSections, InImage p r) :
    applyRelocations elf p.block p.image = some (lastTable H.relaSections (0, 0), patchAll 8 p.image
          (((relatives elf H.relaSections).filter p.block.holds).map p.block.patchOf)) := by
  rw [applyRelocations_sections H _ hs, foldl_applyRela_eq hmax _ _ hin]
  rfl

/-! ## The kernel's stage -/

/-- The slot of a relocation in the kernel's memory, with what the kernel does to it. -/
def kernelPatch (kps : Nat) (r : Rela) : Nat × (Nat → Nat) :=
  (r.offset, fun w => (w + 2 ^ 64 - kps + KERNEL_VIRT_BASE) % 2 ^ 64)

/-- The kernel's memory holds a relocation section of the file at its address. -/
structure Holds (elf : List Byte) (s : RelaSection) (mem : Image) : Prop where
  bound : s.addr + s.size ≤ 2 ^ 64
  bytes : ∀ i < s.size, mem (s.addr + i) = elf.getD (s.offset + i) 0

lemma Holds.le_eq (h : Holds elf s mem) {d : Nat} (hd : d + n ≤ s.size) :
    le mem (s.addr + d) n = leBytes elf (s.offset + d) n := by
  rw [leBytes_eq_le]
  apply le_congr
  intro i hi
  rw [Nat.add_assoc, Nat.add_assoc]
  exact h.bytes (d + i) (by omega)

/-- The relocation's slot is not in a relocation section. -/
def RelaSection.Avoids (s : RelaSection) (r : Rela) : Prop :=
  r.offset + 8 ≤ s.addr ∨ s.addr + s.size ≤ r.offset

lemma Holds.put (h : Holds elf s mem) {w : Nat} (hr : s.Avoids r) :
    Holds elf s (put mem r.offset 8 w) where
  bound := h.bound
  bytes i hi := by
    rw [put_of_not_mem, h.bytes i hi]
    unfold RelaSection.Avoids at hr
    omega

lemma fixupEntry_eq (h : Holds elf s mem) (kps : Nat) {j : Nat} (hj : j * 24 + 24 ≤ s.size) :
    fixupEntry kps mem ((s.addr + j * 24) % 2 ^ 64)
      = patchAll 8 mem (([relaOf elf (s.offset + j * 24)].filter Rela.isRelative).map
          (kernelPatch kps)) := by
  have hbnd := h.bound
  have hoff := h.le_eq (d := j * 24) (n := 8) (by omega)
  have hinfo := h.le_eq (d := j * 24 + 8) (n := 8) (by omega)
  rw [← Nat.add_assoc, ← Nat.add_assoc] at hinfo
  rw [Nat.mod_eq_of_lt (by omega), fixupEntry, hoff, hinfo]
  by_cases hrel : (relaOf elf (s.offset + j * 24)).isRelative
  · rw [filter_cons_of_pos hrel, if_neg (by simpa [Rela.isRelative, relaOf] using hrel)]
    simp only [filter_nil, map_cons, map_nil, patchAll_cons, patchAll_nil, patch,
      kernelPatch, relaOf]
  · rw [filter_cons_of_neg hrel, if_pos (by simpa [Rela.isRelative, relaOf] using hrel)]
    simp only [filter_nil, map_nil, patchAll_nil]

lemma foldl_fixupEntry_eq (js : List Nat) (mem : Image) (h : Holds elf s mem)
    (hjs : ∀ j ∈ js, j * 24 + 24 ≤ s.size)
    (havo : ∀ j ∈ js, (relaOf elf (s.offset + j * 24)).isRelative →
      s.Avoids (relaOf elf (s.offset + j * 24))) :
    js.foldl (fun mem i => fixupEntry kps mem ((s.addr + i * 24) % 2 ^ 64)) mem
      = patchAll 8 mem (((js.map fun j => relaOf elf (s.offset + j * 24)).filter
          Rela.isRelative).map (kernelPatch kps)) := by
  induction js generalizing mem with
  | nil => rfl
  | cons j js ih =>
    have hhead := fixupEntry_eq h kps (hjs j (mem_cons_self ..))
    have hnext : Holds elf s (fixupEntry kps mem ((s.addr + j * 24) % 2 ^ 64)) := by
      rw [hhead]
      by_cases hrel : (relaOf elf (s.offset + j * 24)).isRelative
      · rw [filter_cons_of_pos hrel, filter_nil, map_cons, map_nil,
          patchAll_cons, patchAll_nil]
        exact h.put (havo j (mem_cons_self ..) hrel)
      · rw [filter_cons_of_neg hrel, filter_nil, map_nil]
        exact h
    rw [foldl_cons, ih _ hnext (fun i hi => hjs i (mem_cons_of_mem j hi))
      (fun i hi => havo i (mem_cons_of_mem j hi)), hhead, ← patchAll_append,
      ← map_append, ← filter_append, map_cons, singleton_append]

lemma fixupPicRelocations_eq (hkps : kps ≠ 0) (haddr : s.addr ≠ 0) (h : Holds elf s mem)
    (havo : ∀ r ∈ relatives elf [s], s.Avoids r) : fixupPicRelocations kps s.addr s.size mem
      = patchAll 8 mem ((relatives elf [s]).map (kernelPatch kps)) := by
  have hrel : relatives elf [s] = (relaEntries elf s).filter Rela.isRelative := by
    simp [relatives]
  unfold fixupPicRelocations
  by_cases hsize : s.size = 0
  · rw [if_pos (by tauto), hrel, relaEntries, hsize]
    rfl
  rw [if_neg (by tauto), hrel]
  apply foldl_fixupEntry_eq _ _ h
  · intro j hj
    have := mem_range.mp hj
    omega
  intro j hj hr
  apply havo
  rw [hrel]
  exact mem_filter.mpr ⟨mem_map.mpr ⟨j, hj, rfl⟩, hr⟩

end Indominus.Boot
