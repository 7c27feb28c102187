import Indominus.Fat.Device

/-!
# The BIOS parameter block

Sector numbers are 32-bit and wrap in a release build.
-/

namespace Indominus.Fat

open Fs Lib.Bytes Lib.Sectors

inductive FatVariant
  | fat16
  | fat32
  deriving DecidableEq, Repr

structure FatBpb where
  variant : FatVariant
  bytesPerSector : Nat
  sectorsPerCluster : Nat
  reservedSectors : Nat
  numFats : Nat
  rootCluster : Nat
  fatSizeSectors : Nat
  totalSectors : Nat
  baseSector : Nat
  dataStartSector : Nat
  bytesPerCluster : Nat
  rootEntryCount : Nat
  rootDirStartSector : Nat
  rootDirSectors : Nat
  deriving DecidableEq, Repr

namespace FatBpb

/-- The end of the two parts of `parse`: the areas of the volume. -/
def layout
    (variant : FatVariant) (bps spc rs nf rootCluster fatSize total base rootEntryCount : Nat) :
    FatBpb :=
  let fatAreaEnd := (rs + nf * fatSize) % 2 ^ 32
  let rootDirSectors := (rootEntryCount * 32 + (bps - 1)) / bps
  { variant, bytesPerSector := bps, sectorsPerCluster := spc, reservedSectors := rs, numFats := nf,
    rootCluster, fatSizeSectors := fatSize, totalSectors := total, baseSector := base,
    dataStartSector :=
      match variant with
      | .fat16 => (fatAreaEnd + rootDirSectors) % 2 ^ 32
      | .fat32 => fatAreaEnd
    bytesPerCluster := bps * spc, rootEntryCount,
    rootDirStartSector :=
      match variant with
      | .fat16 => fatAreaEnd
      | .fat32 => 0
    rootDirSectors :=
      match variant with
      | .fat16 => rootDirSectors
      | .fat32 => 0 }

/-- `FatBpb::parse` of a boot sector. -/
def parse (buf : Image) (baseSector : Nat) : Except VfsError FatBpb :=
  let bps := le buf 11 2
  let spc := le buf 13 1
  let rs := le buf 14 2
  let nf := le buf 16 1
  if bps = 0 ∨ spc = 0 then .error .ioError
  else
    let fatSz32 := le buf 36 4
    let fatSz16 := le buf 22 2
    let rootEntryCount := le buf 17 2
    if fatSz16 ≠ 0 ∧ rootEntryCount ≠ 0 then
      let ts16 := le buf 19 2
      let total := if ts16 ≠ 0 then ts16 else le buf 32 4
      .ok (layout .fat16 bps spc rs nf 0 fatSz16 total baseSector rootEntryCount)
    else if fatSz32 ≠ 0 then
      .ok (layout .fat32 bps spc rs nf (le buf 44 4) fatSz32
        (le buf 32 4) baseSector rootEntryCount)
    else .error .ioError

def clusterToSector (bpb : FatBpb) (cluster : Nat) : Nat :=
  (bpb.baseSector + bpb.dataStartSector + (cluster - 2) * bpb.sectorsPerCluster) % 2 ^ 32

def eoc (bpb : FatBpb) : Nat :=
  match bpb.variant with
  | .fat16 => 0xFFF8
  | .fat32 => 0x0FFFFFF8

def maxCluster (bpb : FatBpb) : Nat :=
  match bpb.variant with
  | .fat16 => 0xFFF0
  | .fat32 => 0x0FFFFFF0

def width (bpb : FatBpb) : Nat :=
  match bpb.variant with
  | .fat16 => 2
  | .fat32 => 4

/-- A table entry holds a number below this one. -/
def entryBound (bpb : FatBpb) : Nat :=
  match bpb.variant with
  | .fat16 => 2 ^ 16
  | .fat32 => 2 ^ 28

/-! ## Proper volumes -/

def clusters (bpb : FatBpb) : Nat :=
  (bpb.totalSectors - bpb.dataStartSector) / bpb.sectorsPerCluster

def IsCluster (bpb : FatBpb) (c : Nat) : Prop := 2 ≤ c ∧ c < bpb.clusters + 2

instance (bpb : FatBpb) (c : Nat) : Decidable (bpb.IsCluster c) :=
  inferInstanceAs (Decidable (_ ∧ _))

/-- The geometry of a proper volume on a device of `count` sectors. -/
structure Sound (bpb : FatBpb) (count : Nat) : Prop where
  bytesPerSector : bpb.bytesPerSector = 512
  bytesPerCluster : bpb.bytesPerCluster = 512 * bpb.sectorsPerCluster
  spc : 0 < bpb.sectorsPerCluster
  numFats : 0 < bpb.numFats
  root : bpb.variant = .fat16 →
    bpb.rootDirStartSector = bpb.reservedSectors + bpb.numFats * bpb.fatSizeSectors
  dataStart : bpb.dataStartSector =
    bpb.reservedSectors + bpb.numFats * bpb.fatSizeSectors + bpb.rootDirSectors
  dataArea : bpb.dataStartSector ≤ bpb.totalSectors
  entries : (bpb.clusters + 2) * bpb.width ≤ bpb.fatSizeSectors * 512
  numbers : bpb.clusters + 1 ≤ bpb.maxCluster
  device : bpb.baseSector + bpb.totalSectors ≤ count
  addressable : bpb.baseSector + bpb.totalSectors < 2 ^ 32

variable {bpb : FatBpb} {count c : Nat}

lemma width_pos : 0 < bpb.width := by
  unfold width
  cases bpb.variant <;> decide

namespace Sound

lemma cluster_end (h : bpb.Sound count) (hc : bpb.IsCluster c) :
    bpb.dataStartSector + (c - 2) * bpb.sectorsPerCluster + bpb.sectorsPerCluster
      ≤ bpb.totalSectors := by
  have hidx : c - 2 + 1 ≤ bpb.clusters := by
    have := hc.1
    have := hc.2
    omega
  have hfits : (c - 2 + 1) * bpb.sectorsPerCluster ≤ bpb.totalSectors - bpb.dataStartSector :=
    calc (c - 2 + 1) * bpb.sectorsPerCluster
      _ ≤ bpb.clusters * bpb.sectorsPerCluster := Nat.mul_le_mul_right _ hidx
      _ ≤ bpb.totalSectors - bpb.dataStartSector := Nat.div_mul_le_self ..
  have := h.dataArea
  rw [Nat.add_one_mul] at hfits
  omega

lemma clusterToSector_eq (h : bpb.Sound count) (hc : bpb.IsCluster c) : bpb.clusterToSector c
      = bpb.baseSector + bpb.dataStartSector + (c - 2) * bpb.sectorsPerCluster := by
  have hend := h.cluster_end hc
  have hdevice := h.addressable
  apply Nat.mod_eq_of_lt
  omega

end Sound

end FatBpb

end Indominus.Fat
