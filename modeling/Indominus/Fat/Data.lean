import Indominus.Fat.Table

/-! # The data of a cluster chain (`read_file_data`, `write_file_data`) -/

namespace Indominus.Fat

open Memory (Byte)
open Fs Lib.Bytes Lib.Sectors List

def FatBpb.clusterSectors (bpb : FatBpb) (cluster : Nat) : List Nat :=
  (List.range bpb.sectorsPerCluster).map (bpb.clusterToSector cluster + ·)

def FatBpb.sectors (bpb : FatBpb) (chain : List Nat) : List Nat := chain.flatMap bpb.clusterSectors

def firstBytes (buf : Image) (n : Nat) : List Byte := (List.range n).map buf

/-! ## Reading -/

/-- The inner loop of `read_file_data`: `got` has been read, the buffer holds `bufLen` bytes. -/
def readSectorsInto (bufLen : Nat) : List Nat → List Byte → FatM (List Byte)
  | [], got => pure got
  | sector :: sectors, got =>
    if bufLen ≤ got.length then pure got
    else do
      let sectorBuf ← readSector sector
      let toCopy := min 512 (bufLen - got.length)
      readSectorsInto bufLen sectors (got ++ firstBytes sectorBuf toCopy)

/-- The outer loop of `read_file_data`. -/
def readFileDataFrom (bpb : FatBpb) (bufLen : Nat) : List Nat → List Byte → FatM (List Byte)
  | [], got => pure got
  | cluster :: chain, got =>
    if bufLen ≤ got.length then pure got
    else do
      let got ← readSectorsInto bufLen (bpb.clusterSectors cluster) got
      readFileDataFrom bpb bufLen chain got

/-- `read_file_data`: the bytes that are copied to the front of a buffer of `bufLen` bytes. -/
def readFileData (bpb : FatBpb) (chain : List Nat) (bufLen : Nat) : FatM (List Byte) :=
  readFileDataFrom bpb bufLen chain []

/-- All sectors of a list, one after the other: `read_sectors`, and the directory loops. -/
def readRaw : List Nat → FatM (List Byte)
  | [] => pure []
  | sector :: sectors => do
    let sectorBuf ← readSector sector
    let rest ← readRaw sectors
    pure (firstBytes sectorBuf 512 ++ rest)

/-! ## Writing -/

/-- The inner loop of `write_file_data`: `written` bytes of `buf` have been written. -/
def writeSectorsFrom (sector clusterByteOffset : Nat) (buf : List Byte) : List Nat → Nat → FatM Nat
  | [], written => pure written
  | s :: ss, written =>
    if buf.length ≤ written then pure written
    else do
      let bytesIntoSector := (s * 512 + clusterByteOffset) % 512
      let sectorBuf ← readSector (sector + s)
      let toWrite := min (512 - bytesIntoSector) (buf.length - written)
      writeSector (sector + s) (overlay sectorBuf bytesIntoSector ((buf.drop written).take toWrite))
      writeSectorsFrom sector clusterByteOffset buf ss (written + toWrite)

/-- The outer loop of `write_file_data`: the next cluster is number `i` of the chain. -/
def writeFileDataFrom (bpb : FatBpb) (offset : Nat) (buf : List Byte) :
    (i : Nat) → List Nat → Nat → FatM Nat
  | _, [], written => pure written
  | i, cluster :: chain, written =>
    if i < offset / bpb.bytesPerCluster then writeFileDataFrom bpb offset buf (i + 1) chain written
    else if buf.length ≤ written then pure written
    else do
      let clusterByteOffset :=
        if i = offset / bpb.bytesPerCluster then offset % bpb.bytesPerCluster else 0
      let written ← writeSectorsFrom (bpb.clusterToSector cluster) clusterByteOffset buf
        (List.range bpb.sectorsPerCluster) written
      writeFileDataFrom bpb offset buf (i + 1) chain written

def writeFileData (bpb : FatBpb) (chain : List Nat) (offset : Nat) (buf : List Byte) : FatM Nat :=
  writeFileDataFrom bpb offset buf 0 chain 0

/-! ## The sectors of a chain in range -/

namespace FatBpb

variable {bpb : FatBpb} {count c n : Nat} {chain : List Nat}

lemma mem_sectors : n ∈ bpb.sectors chain ↔ ∃ c ∈ chain, n ∈ bpb.clusterSectors c :=
  mem_flatMap

lemma length_sectors : (bpb.sectors chain).length = chain.length * bpb.sectorsPerCluster := by
  induction chain with
  | nil => rw [sectors, flatMap_nil, length_nil, Nat.zero_mul]
  | cons c chain ih =>
    unfold sectors at ih ⊢
    rw [flatMap_cons, length_append, ih, clusterSectors, length_map,
      length_range, length_cons, Nat.add_one_mul, Nat.add_comm]

lemma sectors_cons : bpb.sectors (c :: chain) = bpb.clusterSectors c ++ bpb.sectors chain :=
  flatMap_cons

namespace Sound

section

variable (h : bpb.Sound count) (hc : bpb.IsCluster c)

include h hc

lemma mem_clusterSectors : n ∈ bpb.clusterSectors c ↔ ∃ s < bpb.sectorsPerCluster, n =
    bpb.baseSector + bpb.dataStartSector + (c - 2) * bpb.sectorsPerCluster + s := by
  unfold clusterSectors
  rw [mem_map, h.clusterToSector_eq hc]
  constructor
  · rintro ⟨s, hs, rfl⟩
    exact ⟨s, mem_range.mp hs, rfl⟩
  · rintro ⟨s, hs, rfl⟩
    exact ⟨s, mem_range.mpr hs, rfl⟩

lemma clusterSectors_range (hn : n ∈ bpb.clusterSectors c) :
    bpb.baseSector + bpb.dataStartSector ≤ n ∧ n < bpb.baseSector + bpb.totalSectors := by
  obtain ⟨s, hs, rfl⟩ := (h.mem_clusterSectors hc).mp hn
  have := h.cluster_end hc
  omega

lemma clusterSectors_inj {c' : Nat} (hc' : bpb.IsCluster c') (hn : n ∈ bpb.clusterSectors c)
    (hn' : n ∈ bpb.clusterSectors c') : c = c' := by
  obtain ⟨s, hs, rfl⟩ := (h.mem_clusterSectors hc).mp hn
  obtain ⟨s', hs', heq⟩ := (h.mem_clusterSectors hc').mp hn'
  have hquot : c - 2 = c' - 2 := by
    have hdiv : ((c - 2) * bpb.sectorsPerCluster + s) / bpb.sectorsPerCluster
        = ((c' - 2) * bpb.sectorsPerCluster + s') / bpb.sectorsPerCluster := by
      congr 1
      omega
    rwa [Nat.add_comm _ s, Nat.add_comm _ s', Nat.add_mul_div_right _ _ h.spc,
      Nat.add_mul_div_right _ _ h.spc, Nat.div_eq_of_lt hs, Nat.div_eq_of_lt hs', Nat.zero_add,
      Nat.zero_add] at hdiv
  have := hc.1
  have := hc'.1
  omega

end

section

variable (h : bpb.Sound count) (hin : ∀ c ∈ chain, bpb.IsCluster c)

include h hin

lemma sectors_nodup (hchn : chain.Nodup) : (bpb.sectors chain).Nodup := by
  unfold sectors
  rw [nodup_flatMap]
  constructor
  · intro c _
    exact nodup_range.map fun s s' heq => Nat.add_left_cancel heq
  refine hchn.imp_of_mem ?_
  intro c c' hc hc' hne n hn hn'
  exact hne (h.clusterSectors_inj (hin c hc) (hin c' hc') hn hn')

lemma sectors_disjoint {chain' : List Nat} (hin' : ∀ c ∈ chain', bpb.IsCluster c)
    (hdisj : chain.Disjoint chain') : (bpb.sectors chain).Disjoint (bpb.sectors chain') := by
  intro n hn hn'
  obtain ⟨c, hc, hnc⟩ := mem_sectors.mp hn
  obtain ⟨c', hc', hnc'⟩ := mem_sectors.mp hn'
  have heq := h.clusterSectors_inj (hin c hc) (hin' c' hc') hnc hnc'
  exact hdisj hc (heq ▸ hc')

lemma sectors_range (hn : n ∈ bpb.sectors chain) :
    bpb.baseSector + bpb.dataStartSector ≤ n ∧ n < bpb.baseSector + bpb.totalSectors := by
  obtain ⟨c, hc, hnc⟩ := mem_sectors.mp hn
  exact h.clusterSectors_range (hin c hc) hnc

lemma sectors_lt_count : ∀ n ∈ bpb.sectors chain, n < count := by
  intro n hn
  have := h.sectors_range hin hn
  have := h.device
  omega

lemma not_inTables_of_mem (hn : n ∈ bpb.sectors chain) : ¬ bpb.InTables n := by
  have := h.sectors_range hin hn
  have := h.dataStart
  unfold InTables
  omega

end

end Sound

end FatBpb

/-! ## Reading and writing a chain in range -/

variable {bpb : FatBpb} {d : Device} {chain S : List Nat} {got : List Byte} {bufLen : Nat}

lemma readSectorsInto_ok (hS : ∀ n ∈ S, n < d.count) :
    readSectorsInto bufLen S got d = (.ok (got ++ contents d.bytes S
      (min (bufLen - got.length) (512 * S.length))), d) := by
  induction S generalizing got with
  | nil =>
    rw [length_nil, Nat.min_zero, contents_zero, append_nil]
    rfl
  | cons n S ih =>
    unfold readSectorsInto
    by_cases hdone : bufLen ≤ got.length
    · rw [if_pos hdone, Nat.sub_eq_zero_of_le hdone, Nat.zero_min, contents_zero, append_nil]
      rfl
    have hcnt : min 512 (min (bufLen - got.length) (512 * (S.length + 1)))
        = min 512 (bufLen - got.length) := by omega
    have hrest : min (bufLen - (got.length + min 512 (bufLen - got.length))) (512 * S.length)
        = min (bufLen - got.length) (512 * (S.length + 1)) - 512 := by omega
    rw [if_neg hdone, FatM.bind_ok (readSector_ok (hS n (mem_cons_self ..))),
      ih fun n' hn' => hS n' (mem_cons_of_mem n hn'), contents_cons, length_cons,
      hcnt, length_append, firstBytes, length_map, length_range, hrest,
      append_assoc]

lemma readFileDataFrom_ok (hS : ∀ n ∈ bpb.sectors chain, n < d.count) :
    readFileDataFrom bpb bufLen chain got d = (.ok (got ++ contents d.bytes (bpb.sectors chain)
      (min (bufLen - got.length) (512 * (bpb.sectors chain).length))), d) := by
  induction chain generalizing got with
  | nil =>
    rw [FatBpb.length_sectors, length_nil, Nat.zero_mul, Nat.min_zero,
      contents_zero, append_nil]
    rfl
  | cons c chain ih =>
    rw [FatBpb.sectors_cons] at hS ⊢
    have hfst : ∀ n ∈ bpb.clusterSectors c, n < d.count :=
      fun n hn => hS n (mem_append_left _ hn)
    have hrest : ∀ n ∈ bpb.sectors chain, n < d.count :=
      fun n hn => hS n (mem_append_right _ hn)
    unfold readFileDataFrom
    by_cases hdone : bufLen ≤ got.length
    · rw [if_pos hdone, Nat.sub_eq_zero_of_le hdone, Nat.zero_min, contents_zero, append_nil]
      rfl
    rw [if_neg hdone, FatM.bind_ok (readSectorsInto_ok hfst), ih hrest, contents_append,
      length_append, length_append, length_contents, append_assoc]
    congr 4
    · congr 1
      omega
    · congr 1
      omega

lemma readFileData_ok (hS : ∀ n ∈ bpb.sectors chain, n < d.count) :
    ∃ got, readFileData bpb chain bufLen d = (.ok got, d) ∧
      got ++ replicate (bufLen - got.length) 0 = contents d.bytes (bpb.sectors chain) bufLen := by
  refine ⟨_, readFileDataFrom_ok hS, ?_⟩
  rw [nil_append, length_nil, length_contents]
  exact contents_pad.symm

lemma readRaw_ok (hS : ∀ n ∈ S, n < d.count) :
    readRaw S d = (.ok (contents d.bytes S (512 * S.length)), d) := by
  induction S with
  | nil => rfl
  | cons n S ih =>
    unfold readRaw
    rw [FatM.bind_ok (readSector_ok (hS n (mem_cons_self ..))),
      FatM.bind_ok (ih fun n' hn' => hS n' (mem_cons_of_mem n hn')),
      contents_cons, length_cons, Nat.mul_succ, Nat.add_sub_cancel,
      Nat.min_eq_left (Nat.le_add_left ..)]
    rfl

lemma writeSectorsFrom_ok {sector written : Nat} {buf : List Byte} {ss : List Nat}
    (hS : ∀ s ∈ ss, sector + s < d.count) (hwrt : written ≤ buf.length) :
    writeSectorsFrom sector 0 buf ss written d = (.ok (min buf.length (written + 512 * ss.length)),
        d.after (spreadWrites (ss.map (sector + ·)) d.bytes (buf.drop written))) := by
  induction ss generalizing written d with
  | nil =>
    rw [length_nil, Nat.add_zero, Nat.min_eq_right hwrt, map_nil,
      spreadWrites, Device.after_nil]
    rfl
  | cons s ss ih =>
    unfold writeSectorsFrom
    by_cases hdone : buf.length ≤ written
    · rw [if_pos hdone, drop_eq_nil_of_le hdone, spreadWrites_nil, Device.after_nil,
        Nat.min_eq_left (by omega), Nat.le_antisymm hdone hwrt]
      rfl
    have hs := hS s (mem_cons_self ..)
    have hinto : (s * 512 + 0) % 512 = 0 := by omega
    have htake : (buf.drop written).take (min (512 - 0) (buf.length - written))
        = (buf.drop written).take 512 := by
      rw [← length_drop, ← take_take, take_length]
    have hdrop : buf.drop (written + min (512 - 0) (buf.length - written))
        = (buf.drop written).drop 512 := by
      rw [drop_drop]
      rcases Nat.le_total 512 (buf.length - written) with hle | hle
      · rw [Nat.min_eq_left hle]
      · rw [drop_eq_nil_of_le (by omega), drop_eq_nil_of_le (by omega)]
    have hnonempty : buf.drop written ≠ [] := by
      rw [Ne, drop_eq_nil_iff]
      exact hdone
    rw [if_neg hdone, hinto, FatM.bind_ok (readSector_ok hs), FatM.bind_ok (writeSector_ok hs),
      htake, @ih (d.after _) _ (fun s' hs' => hS s' (mem_cons_of_mem s hs')) (by omega), hdrop,
      map_cons, spreadWrites_cons hnonempty, Device.after_after, length_cons]
    congr 2
    omega

/-- The cluster loop of a write spreads the rest of the buffer over the chain. -/
lemma writeFileDataFrom_ok {i written : Nat} {buf : List Byte}
    (hS : ∀ n ∈ bpb.sectors chain, n < d.count) (hwrt : written ≤ buf.length) :
    writeFileDataFrom bpb 0 buf i chain written d
      = (.ok (min buf.length (written + 512 * (bpb.sectors chain).length)),
        d.after (spreadWrites (bpb.sectors chain) d.bytes (buf.drop written))) := by
  induction chain generalizing i written d with
  | nil =>
    rw [FatBpb.length_sectors, length_nil, Nat.zero_mul, Nat.add_zero,
      Nat.min_eq_right hwrt, FatBpb.sectors, flatMap_nil, spreadWrites, Device.after_nil]
    rfl
  | cons c chain ih =>
    rw [FatBpb.sectors_cons] at hS ⊢
    unfold writeFileDataFrom
    rw [Nat.zero_div, if_neg (Nat.not_lt_zero i), Nat.zero_mod, ite_self]
    by_cases hdone : buf.length ≤ written
    · rw [if_pos hdone, drop_eq_nil_of_le hdone, spreadWrites_nil, Device.after_nil,
        Nat.min_eq_left (by omega), Nat.le_antisymm hdone hwrt]
      rfl
    have hfst : ∀ s ∈ range bpb.sectorsPerCluster, bpb.clusterToSector c + s < d.count :=
      fun s hs => hS _ (mem_append_left _ (mem_map.mpr ⟨s, hs, rfl⟩))
    have hrest : ∀ n ∈ bpb.sectors chain, n < d.count :=
      fun n hn => hS n (mem_append_right _ hn)
    have hlen : (bpb.clusterSectors c).length = bpb.sectorsPerCluster := by
      rw [FatBpb.clusterSectors, length_map, length_range]
    rw [if_neg hdone, FatM.bind_ok (writeSectorsFrom_ok hfst hwrt),
      @ih (d.after _) _ _ hrest (Nat.min_le_left ..), spreadWrites_append, Device.after_after,
      drop_drop, length_append, length_range, hlen]
    have hdrop : buf.drop (min buf.length (written + 512 * bpb.sectorsPerCluster))
        = buf.drop (written + 512 * bpb.sectorsPerCluster) := by
      rcases Nat.le_total buf.length (written + 512 * bpb.sectorsPerCluster) with hle | hle
      · rw [Nat.min_eq_left hle, drop_length, drop_eq_nil_of_le hle]
      · rw [Nat.min_eq_right hle]
    have hcnt : min buf.length (min buf.length (written + 512 * bpb.sectorsPerCluster)
          + 512 * (bpb.sectors chain).length)
        = min buf.length (written + 512 *
          (bpb.sectorsPerCluster + (bpb.sectors chain).length)) := by
      rw [Nat.mul_add, ← Nat.add_assoc]
      rcases Nat.le_total buf.length (written + 512 * bpb.sectorsPerCluster) with hle | hle
      · rw [Nat.min_eq_left hle, Nat.min_eq_left (Nat.le_add_right ..),
          Nat.min_eq_left (Nat.le_add_right_of_le hle)]
      · rw [Nat.min_eq_right hle]
    rw [hdrop, hcnt]
    rfl

lemma writeFileData_ok {buf : List Byte} (hS : ∀ n ∈ bpb.sectors chain, n < d.count) :
    ∃ n, writeFileData bpb chain 0 buf d
      = (.ok n, d.after (spreadWrites (bpb.sectors chain) d.bytes buf)) :=
  ⟨_, writeFileDataFrom_ok hS (Nat.zero_le _)⟩

/-! ## The geometry of a boot sector -/

namespace FatBpb

variable {bpb : FatBpb}

/-- Where the file allocation tables end, as a natural number. -/
def fatAreaEnd (bpb : FatBpb) : Nat := bpb.reservedSectors + bpb.numFats * bpb.fatSizeSectors

/-- The 32-bit fields are the natural numbers that they stand for, and a cluster is read as a
whole. -/
structure GeometryExact (bpb : FatBpb) : Prop where
  rootStart : bpb.variant = .fat16 → bpb.rootDirStartSector = bpb.fatAreaEnd
  rootSectors : bpb.variant = .fat16 → bpb.rootDirSectors
    = (bpb.rootEntryCount * 32 + (bpb.bytesPerSector - 1)) / bpb.bytesPerSector
  dataStart : bpb.dataStartSector = bpb.fatAreaEnd + bpb.rootDirSectors
  sector : ∀ c, 2 ≤ c → c < bpb.eoc → bpb.clusterToSector c
    = bpb.baseSector + (bpb.fatAreaEnd + bpb.rootDirSectors) + (c - 2) * bpb.sectorsPerCluster
  covers : ∀ c, 512 * (bpb.clusterSectors c).length = bpb.bytesPerCluster

/-- The fields that `parse` computes from the others. -/
lemma parse_fields {buf : Image} {base : Nat} (h : parse buf base = .ok bpb) :
    0 < bpb.sectorsPerCluster ∧ bpb.bytesPerCluster = bpb.bytesPerSector * bpb.sectorsPerCluster ∧
    (bpb.variant = .fat16 → bpb.rootDirStartSector = bpb.fatAreaEnd % 2 ^ 32 ∧ bpb.rootDirSectors
      = (bpb.rootEntryCount * 32 + (bpb.bytesPerSector - 1)) / bpb.bytesPerSector) ∧
    bpb.dataStartSector = (bpb.fatAreaEnd + bpb.rootDirSectors) % 2 ^ 32 := by
  obtain ⟨variant, bps, spc, rs, nf, root, fatSize, total, count, hspc, rfl⟩ :
      ∃ variant bps spc rs nf root fatSize total count, 0 < spc ∧
        bpb = layout variant bps spc rs nf root fatSize total base count := by
    unfold parse at h
    dsimp only at h
    split_ifs at h with hzero <;> cases h <;>
      exact ⟨_, _, _, _, _, _, _, _, _, Nat.pos_of_ne_zero fun hspc => hzero (.inr hspc), rfl⟩
  cases variant with
  | fat16 => exact ⟨hspc, rfl, fun _ => ⟨rfl, rfl⟩, Nat.mod_add_mod ..⟩
  | fat32 => exact ⟨hspc, rfl, fun hvar => (by cases hvar), rfl⟩

/-- The arithmetic is exact if the sectors have 512 bytes and the last cluster that the walk takes
has a 32-bit sector number. -/
theorem geometryExact_iff {buf : Image} {base : Nat} (h : parse buf base = .ok bpb) :
    bpb.GeometryExact ↔ bpb.bytesPerSector = 512 ∧ bpb.baseSector
      + (bpb.fatAreaEnd + bpb.rootDirSectors) + (bpb.eoc - 3) * bpb.sectorsPerCluster < 2 ^ 32 := by
  obtain ⟨hspc, hbpc, hroot, hdata⟩ := parse_fields h
  have hlen : ∀ c, (bpb.clusterSectors c).length = bpb.sectorsPerCluster := fun c => by
    rw [clusterSectors, length_map, length_range]
  have heoc : 3 ≤ bpb.eoc := by
    unfold eoc
    cases bpb.variant <;> decide
  constructor
  · intro hex
    have hcovers := hex.covers 2
    have hlast := hex.sector (bpb.eoc - 1) (by omega) (by omega)
    rw [hlen, hbpc] at hcovers
    rw [Nat.sub_sub] at hlast
    exact ⟨(Nat.eq_of_mul_eq_mul_right hspc hcovers).symm, hlast ▸ Nat.mod_lt _ (by decide)⟩
  · rintro ⟨hbps, hsm⟩
    have hdata : bpb.dataStartSector = bpb.fatAreaEnd + bpb.rootDirSectors := by
      rw [hdata, Nat.mod_eq_of_lt (by omega)]
    refine ⟨fun hvar => ?_, fun hvar => (hroot hvar).2, hdata, fun c hc hlt => ?_, fun c => ?_⟩
    · rw [(hroot hvar).1, Nat.mod_eq_of_lt (by omega)]
    · have hle : (c - 2) * bpb.sectorsPerCluster ≤ (bpb.eoc - 3) * bpb.sectorsPerCluster :=
        Nat.mul_le_mul_right _ (by omega)
      rw [clusterToSector, hdata, Nat.mod_eq_of_lt (by omega)]
    · rw [hlen, hbpc, hbps]

/-- A FAT16 volume with clusters of one sector. -/
theorem geometryExact_iff_small : (layout .fat16 512 1 1 1 0 1 0 0 16).GeometryExact := by
  have hpar : parse (put (fun _ => 0) 11 13 0x010000000010010001010200) 0
      = .ok (layout .fat16 512 1 1 1 0 1 0 0 16) := rfl
  exact (geometryExact_iff hpar).mpr (by decide)

/-- A FAT32 boot sector with 64 sectors in a cluster. -/
def wideBoot : Image := put (put (fun _ => 0) 11 6 0x020020400200) 36 4 1

/-- The sector number of a high cluster wraps around. -/
theorem wideBoot_inexact : ∃ bpb, parse wideBoot 0 = .ok bpb ∧ ¬ bpb.GeometryExact := by
  refine ⟨layout .fat32 512 64 32 2 0 1 0 0 0, rfl, fun hex => ?_⟩
  exact absurd (hex.sector 0x0FFFFFF0 (by decide) (by decide)) (by decide)

end FatBpb

end Indominus.Fat
