import Indominus.Fat.Bpb
import Indominus.Lib.LinkedTable

/-!
# The allocation table

The two variants differ in the width of an entry; the top four bits of a FAT32 entry are kept.
-/

namespace Indominus.Fat

open Fs Lib.Bytes Lib.Sectors Lib.LinkedTable

def readFatEntry (bpb : FatBpb) (cluster : Nat) : FatM Nat := do
  let entryByte := cluster * bpb.width
  let fatSector := bpb.baseSector + bpb.reservedSectors + entryByte / 512
  let entryInSector := entryByte % 512
  let buf ← readSector fatSector
  pure (le buf entryInSector bpb.width % bpb.entryBound)

/-- The new value of an entry with the bits that are not part of the number kept. -/
def FatBpb.masked (bpb : FatBpb) (old value : Nat) : Nat :=
  value % bpb.entryBound + bpb.entryBound * (old / bpb.entryBound)

/-- The body of the loop of `write_fat_entry`: one copy of the table. -/
def writeFatCopy (bpb : FatBpb) (cluster value fatCopy : Nat) : FatM Unit := do
  let fatOffset := (bpb.reservedSectors + fatCopy * bpb.fatSizeSectors) % 2 ^ 32
  let entryByte := cluster * bpb.width
  let fatSector := bpb.baseSector + fatOffset + entryByte / 512
  let entryInSector := entryByte % 512
  let buf ← readSector fatSector
  let old := le buf entryInSector bpb.width
  writeSector fatSector (put buf entryInSector bpb.width (bpb.masked old value))

/-- The loop of `write_fat_entry` over some of the copies. -/
def writeFatCopies (bpb : FatBpb) (cluster value : Nat) : List Nat → FatM Unit
  | [] => pure ()
  | fatCopy :: copies => do
    writeFatCopy bpb cluster value fatCopy
    writeFatCopies bpb cluster value copies

def writeFatEntry (bpb : FatBpb) (cluster value : Nat) : FatM Unit :=
  writeFatCopies bpb cluster value (List.range bpb.numFats)

/-- A loop of `allocate_cluster`: the first free one of `n` clusters is taken. -/
def claimFree (bpb : FatBpb) : (n : Nat) → (cluster : Nat) → FatM (Option Nat)
  | 0, _ => pure none
  | n + 1, cluster => do
    let val ← readFatEntry bpb cluster
    if val = 0 then
      writeFatEntry bpb cluster bpb.eoc
      pure (some cluster)
    else claimFree bpb n (cluster + 1)

def allocateCluster (bpb : FatBpb) (hint : Nat) : FatM Nat := do
  match ← claimFree bpb (bpb.maxCluster + 1 - hint) hint with
  | some cluster => pure cluster
  | none =>
    match ← claimFree bpb (hint - 2) 2 with
    | some cluster => pure cluster
    | none => FatM.fail .noSpace

def extendChain (bpb : FatBpb) (lastCluster newCluster : Nat) : FatM Unit := do
  writeFatEntry bpb lastCluster newCluster
  writeFatEntry bpb newCluster bpb.eoc

/-- The loop of `read_cluster_chain`, for at most `n` clusters. -/
def readChainFrom (bpb : FatBpb) : (n : Nat) → (cluster : Nat) → FatM (List Nat)
  | 0, _ => pure []
  | n + 1, cluster =>
    if cluster < 2 ∨ bpb.eoc ≤ cluster then pure []
    else do
      let next ← readFatEntry bpb cluster
      let rest ← readChainFrom bpb n next
      pure (cluster :: rest)

/-- `read_cluster_chain`; it breaks when the chain is longer than `0x100000`. -/
def readClusterChain (bpb : FatBpb) (startCluster : Nat) : FatM (List Nat) :=
  readChainFrom bpb (0x100000 + 1) startCluster

/-- The loop of `free_cluster_chain`. -/
def freeAll (bpb : FatBpb) : List Nat → FatM Unit
  | [] => pure ()
  | cluster :: chain => do
    writeFatEntry bpb cluster 0
    freeAll bpb chain

def freeClusterChain (bpb : FatBpb) (startCluster : Nat) : FatM Unit := do
  let chain ← readClusterChain bpb startCluster
  freeAll bpb chain

/-! ## The table as numbers -/

namespace FatBpb

variable {bpb : FatBpb} {count c c' : Nat} {b b' : Image}

def entryByte (bpb : FatBpb) (fatCopy c : Nat) : Nat :=
  512 * (bpb.baseSector + (bpb.reservedSectors + fatCopy * bpb.fatSizeSectors)) + c * bpb.width

def entry (bpb : FatBpb) (b : Image) (c : Nat) : Nat :=
  le b (bpb.entryByte 0 c) bpb.width % bpb.entryBound

def InTable (bpb : FatBpb) (n : Nat) : Prop :=
  bpb.baseSector + bpb.reservedSectors ≤ n ∧
    n < bpb.baseSector + bpb.reservedSectors + bpb.fatSizeSectors

def InTables (bpb : FatBpb) (n : Nat) : Prop :=
  bpb.baseSector + bpb.reservedSectors ≤ n ∧
    n < bpb.baseSector + (bpb.reservedSectors + bpb.numFats * bpb.fatSizeSectors)

lemma Sound.entry_end (h : bpb.Sound count) (hc : c < bpb.clusters + 2) :
    c * bpb.width + bpb.width ≤ bpb.fatSizeSectors * 512 :=
  calc c * bpb.width + bpb.width
    _ = (c + 1) * bpb.width := (Nat.add_one_mul ..).symm
    _ ≤ (bpb.clusters + 2) * bpb.width := Nat.mul_le_mul_right _ hc
    _ ≤ bpb.fatSizeSectors * 512 := h.entries

lemma Sound.copy_le (h : bpb.Sound count) {fatCopy : Nat} (hcopy : fatCopy < bpb.numFats) :
    bpb.reservedSectors + fatCopy * bpb.fatSizeSectors + bpb.fatSizeSectors ≤
      bpb.dataStartSector := by
  have hmul : (fatCopy + 1) * bpb.fatSizeSectors ≤ bpb.numFats * bpb.fatSizeSectors :=
    Nat.mul_le_mul_right _ hcopy
  rw [Nat.add_one_mul] at hmul
  have := h.dataStart
  omega

lemma Sound.entry_congr (h : bpb.Sound count) (hc : c < bpb.clusters + 2)
    (hsame : ∀ a, bpb.InTable (a / 512) → b' a = b a) : bpb.entry b' c = bpb.entry b c := by
  unfold entry
  congr 1
  apply le_congr
  intro i hi
  apply hsame
  have hend := h.entry_end hc
  unfold entryByte InTable
  omega

end FatBpb

variable {bpb : FatBpb} {d : Device} {c : Nat}

open FatBpb

/-- The entry of a cluster in the first copy is on the device. -/
def FatBpb.Readable (bpb : FatBpb) (count c : Nat) : Prop :=
  bpb.baseSector + bpb.reservedSectors + c * bpb.width / 512 < count

lemma FatBpb.Sound.readable (h : bpb.Sound d.count) (hc : c < bpb.clusters + 2) :
    bpb.Readable d.count c := by
  have hend := h.entry_end hc
  have hcopy := h.copy_le h.numFats
  have := h.device
  have := h.dataArea
  have := bpb.width_pos
  unfold Readable
  omega

lemma readFatEntry_readable (hc : bpb.Readable d.count c) :
    readFatEntry bpb c d = (.ok (bpb.entry d.bytes c), d) := by
  unfold readFatEntry
  rw [FatM.bind_ok (readSector_ok hc), FatM.pure_apply, le_sectorAt]
  congr 4
  unfold entryByte
  omega

/-! ## Chains -/

namespace FatBpb

variable {b b' : Image} {count start : Nat}

/-- A number that ends a chain. -/
def Ends (bpb : FatBpb) (c : Nat) : Prop := c < 2 ∨ bpb.eoc ≤ c

instance (bpb : FatBpb) : DecidablePred bpb.Ends := fun c =>
  inferInstanceAs (Decidable (c < 2 ∨ bpb.eoc ≤ c))

def chain (bpb : FatBpb) (b : Image) (start : Nat) : List Nat :=
  follow (bpb.entry b) bpb.Ends (0x100000 + 1) start

end FatBpb

variable {n start : Nat}

/-- Reading the table gives the chain if every sector it needs is on the device. -/
lemma readChainFrom_ok
    (hin : ∀ c ∈ follow (bpb.entry d.bytes) bpb.Ends n start, bpb.Readable d.count c) :
    readChainFrom bpb n start d = (.ok (follow (bpb.entry d.bytes) bpb.Ends n start), d) := by
  induction n generalizing start with
  | zero => rfl
  | succ n ih =>
    by_cases hend : bpb.Ends start
    · rw [follow, if_pos hend]
      exact congrFun (if_pos hend) d
    rw [follow, if_neg hend] at hin ⊢
    have hst := hin start (List.mem_cons_self ..)
    have hrest := ih fun c hc => hin c (List.mem_cons_of_mem start hc)
    refine (congrFun (if_neg hend) d).trans ?_
    rw [FatM.bind_ok (readFatEntry_readable hst), FatM.bind_ok hrest, FatM.pure_apply]

lemma readClusterChain_ok (h : bpb.Sound d.count)
    (hin : ∀ c ∈ bpb.chain d.bytes start, bpb.IsCluster c) :
    readClusterChain bpb start d = (.ok (bpb.chain d.bytes start), d) :=
  readChainFrom_ok fun c hc => h.readable (hin c hc).2

end Indominus.Fat
