import Indominus.Fat.Handle

/-! # What a volume holds, as functions of the bytes on the disk -/

namespace Indominus.Fat

open Memory (Byte)
open Fs Lib.Bytes Lib.Sectors List

variable {bpb : FatBpb} {d : Device} {b b' : Image} {location : DirLocation} {name : Name}
  {first size count : Nat}

namespace FatBpb

def dirSectors (bpb : FatBpb) (b : Image) : DirLocation → List Nat
  | .fat16Root => bpb.rootSectors
  | .clusterChain cluster => bpb.sectors (bpb.chain b cluster)

def rawDir (bpb : FatBpb) (b : Image) (location : DirLocation) : List Byte :=
  contents b (bpb.dirSectors b location) (512 * (bpb.dirSectors b location).length)

def entries (bpb : FatBpb) (b : Image) (location : DirLocation) : List FatDirEntry :=
  parseDirEntries (bpb.rawDir b location)

def fileData (bpb : FatBpb) (b : Image) (first size : Nat) : List Byte :=
  contents b (bpb.sectors (bpb.chain b first)) size

/-- The chain of a directory in the table; the root directory of a FAT16 volume has none. -/
def dirChain (bpb : FatBpb) (b : Image) : DirLocation → List Nat
  | .fat16Root => []
  | .clusterChain cluster => bpb.chain b cluster

def InRange (bpb : FatBpb) (b : Image) : DirLocation → Prop
  | .fat16Root => bpb.variant = .fat16
  | .clusterChain cluster => ∀ c ∈ bpb.chain b cluster, bpb.IsCluster c

lemma Sound.dirSectors_range {n : Nat} (h : bpb.Sound count) (hdir : bpb.InRange b location)
    (hn : n ∈ bpb.dirSectors b location) : ¬ bpb.InTables n ∧ n < count := by
  have hdevice := h.device
  have hdata := h.dataArea
  cases location with
  | fat16Root =>
    obtain ⟨i, hi, rfl⟩ := mem_map.mp hn
    have hi := mem_range.mp hi
    have hroot := h.root hdir
    have hst := h.dataStart
    unfold InTables
    omega
  | clusterChain cluster =>
    exact ⟨h.not_inTables_of_mem hdir hn, h.sectors_lt_count hdir n hn⟩

lemma chain_zero : bpb.chain b 0 = [] := by
  have hends : bpb.Ends 0 := Or.inl (by decide)
  rw [chain, Lib.LinkedTable.follow, if_pos hends]

lemma Sound.chain_congr (h : bpb.Sound count) (hin : ∀ c ∈ bpb.chain b first, bpb.IsCluster c)
    (hsame : ∀ a, bpb.InTable (a / 512) → b' a = b a) : bpb.chain b' first = bpb.chain b first := by
  apply Lib.LinkedTable.follow_congr
  intro c hc
  exact h.entry_congr (hin c hc).2 hsame

end FatBpb

/-! ## Inodes -/

lemma readEntries_ok (h : bpb.Sound d.count) (hdir : bpb.InRange d.bytes location) :
    readEntries bpb location d = (.ok (bpb.entries d.bytes location), d) := by
  have hraw := readRaw_ok fun n hn => (h.dirSectors_range hdir hn).2
  cases location with
  | fat16Root =>
    exact FatM.bind_ok hraw
  | clusterChain cluster =>
    rw [readEntries, FatM.bind_ok (readClusterChain_ok h hdir)]
    exact FatM.bind_ok hraw

lemma getChain_ok (h : bpb.Sound d.count) (hdir : bpb.InRange d.bytes location) :
    getChain bpb location d = (.ok (bpb.dirChain d.bytes location), d) := by
  cases location with
  | fat16Root => rfl
  | clusterChain cluster => exact readClusterChain_ok h hdir

lemma loadData_ok (h : bpb.Sound d.count)
    (hchn : ∀ c ∈ bpb.chain d.bytes first, bpb.IsCluster c) :
    loadData bpb first size d = (.ok (bpb.fileData d.bytes first size), d) := by
  obtain ⟨got, hread, hgot⟩ := @readFileData_ok bpb d _ size (h.sectors_lt_count hchn)
  unfold loadData
  rw [FatM.bind_ok (readClusterChain_ok h hchn), FatM.bind_ok hread, hgot]
  rfl

lemma openFile_ok (h : bpb.Sound d.count)
    (hchn : ∀ c ∈ bpb.chain d.bytes first, bpb.IsCluster c) :
    openFile bpb first size d = (.ok
      { data := bpb.fileData d.bytes first size, pos := 0, firstCluster := first, diskSize := size,
        dirChain := none, dirEntryName := [], dirty := false, isNew := false }, d) := by
  unfold openFile
  rw [FatM.bind_ok (loadData_ok h hchn), FatM.pure_apply]

/-! ## Handles -/

namespace FatFileHandle

/-- Reads with a buffer of `count` bytes until one returns nothing, at most `n` of them. -/
def readLoop (count : Nat) : (n : Nat) → FatFileHandle → List Byte
  | 0, _ => []
  | n + 1, h =>
    let r := h.read count
    if r.1 = [] then [] else r.1 ++ readLoop count n r.2

def readToEnd (count : Nat) (h : FatFileHandle) : List Byte := readLoop count (h.data.length + 1) h

lemma readLoop_eq {n : Nat} {h : FatFileHandle} (hcnt : 0 < count)
    (hn : h.data.length < h.pos + n) : readLoop count n h = h.data.drop h.pos := by
  induction n generalizing h with
  | zero => rw [readLoop, drop_eq_nil_of_le (by omega)]
  | succ n ih =>
    unfold readLoop
    by_cases hend : h.data.length ≤ h.pos
    · rw [if_pos, drop_eq_nil_of_le hend]
      rw [read, drop_eq_nil_of_le hend, take_nil]
    have hlen : (h.read count).1.length = min count (h.data.length - h.pos) := by
      rw [read, length_take, length_drop]
    have hne : (h.read count).1 ≠ [] := by
      rw [Ne, ← length_eq_zero_iff]
      omega
    have hpos : (h.read count).2.pos = h.pos + min count (h.data.length - h.pos) := by
      rw [← hlen]
      rfl
    have hrest : readLoop count n (h.read count).2
        = h.data.drop (h.pos + min count (h.data.length - h.pos)) := by
      rw [ih (by rw [hpos]; show h.data.length < _; omega), hpos]
      rfl
    have htake : (h.read count).1
        = (h.data.drop h.pos).take (min count (h.data.length - h.pos)) := by
      rw [← length_drop, ← take_take, take_length]
      rfl
    rw [if_neg hne, hrest, htake, ← drop_drop, take_append_drop]

lemma readToEnd_eq {h : FatFileHandle} (hcnt : 0 < count) (hpos : h.pos = 0) :
    h.readToEnd count = h.data := by
  rw [readToEnd, readLoop_eq hcnt (by omega), hpos, drop_zero]

inductive Call
  | read (count : Nat)
  | seek (offset : Nat)
  | write (buf : List Byte)
  deriving DecidableEq, Repr

def call (h : FatFileHandle) : Call → Except Fault FatFileHandle
  | .read count => .ok (h.read count).2
  | .seek offset => .ok (h.seek offset)
  | .write buf => (h.write buf).map Prod.snd

/-- Calls, one after the other, none of which panics. -/
def calls (h : FatFileHandle) : List Call → Except Fault FatFileHandle
  | [] => .ok h
  | c :: cs => (h.call c).bind fun h => h.calls cs

/-- The handle `h'` comes from `h` by calls. -/
structure Uses (h h' : FatFileHandle) : Prop where
  firstCluster : h'.firstCluster = h.firstCluster
  dirChain : h'.dirChain = h.dirChain
  dirEntryName : h'.dirEntryName = h.dirEntryName
  grows : h.data.length ≤ h'.data.length
  dirty : h.dirty = true → h'.dirty = true
  clean : h'.dirty = false → h'.data = h.data
  nonempty : h.dirty = false → h'.dirty = true → h'.data ≠ []

lemma length_overwrite (data buf : List Byte) (pos : Nat) :
    (overwrite data pos buf).length = max data.length (pos + buf.length) := by
  unfold overwrite
  dsimp only
  split_ifs with hlt
  · simp only [length_append, length_take, length_drop, length_replicate]
    omega
  · simp only [length_append, length_take, length_drop]
    omega

namespace Uses

variable {h h' h'' : FatFileHandle}

lemma refl (h : FatFileHandle) : Uses h h where
  firstCluster := rfl
  dirChain := rfl
  dirEntryName := rfl
  grows := Nat.le_refl _
  dirty := id
  clean _ := rfl
  nonempty hcln hdty := by rw [hcln] at hdty; cases hdty

lemma write {buf : List Byte} {n : Nat} (hrun : h.write buf = .ok (n, h')) : Uses h h' := by
  unfold FatFileHandle.write at hrun
  dsimp only at hrun
  split_ifs at hrun with hemp
  · cases hrun
    exact refl h
  cases hrun
  have hlen := length_overwrite h.data buf h.pos
  refine ⟨rfl, rfl, rfl, ?_, fun _ => rfl, ?_, ?_⟩
  · show h.data.length ≤ (overwrite h.data h.pos buf).length
    omega
  · intro hcln
    cases hcln
  intro _ _ hnil
  have hpos := length_pos_iff.mpr hemp
  have hzero : (overwrite h.data h.pos buf).length = 0 := length_eq_zero_iff.mpr hnil
  omega

lemma call {c : Call} (hrun : h.call c = .ok h') : Uses h h' := by
  cases c with
  | read count =>
    cases hrun
    exact ⟨rfl, rfl, rfl, Nat.le_refl _, id, fun _ => rfl, (refl h).nonempty⟩
  | seek offset =>
    cases hrun
    exact ⟨rfl, rfl, rfl, Nat.le_refl _, id, fun _ => rfl, (refl h).nonempty⟩
  | write buf =>
    rw [FatFileHandle.call] at hrun
    cases hwr : h.write buf with
    | error e => rw [hwr] at hrun; cases hrun
    | ok r =>
      rw [hwr] at hrun
      cases hrun
      exact write hwr

lemma trans (h1 : Uses h h') (h2 : Uses h' h'') : Uses h h'' where
  firstCluster := h2.firstCluster.trans h1.firstCluster
  dirChain := h2.dirChain.trans h1.dirChain
  dirEntryName := h2.dirEntryName.trans h1.dirEntryName
  grows := h1.grows.trans h2.grows
  dirty hdty := h2.dirty (h1.dirty hdty)
  clean hcln := by
    have hmiddle : h'.dirty = false := by
      by_contra hne
      rw [h2.dirty (Bool.eq_true_of_not_eq_false hne)] at hcln
      cases hcln
    rw [h2.clean hcln, h1.clean hmiddle]
  nonempty hcln hdty := by
    cases hmiddle : h'.dirty with
    | false => exact h2.nonempty hmiddle hdty
    | true =>
      have hpos := length_pos_iff.mpr (h1.nonempty hcln hmiddle)
      exact length_pos_iff.mp (Nat.lt_of_lt_of_le hpos h2.grows)

lemma run {cs : List Call} {h : FatFileHandle} (hrun : h.calls cs = .ok h') : Uses h h' := by
  induction cs generalizing h with
  | nil =>
    cases hrun
    exact refl _
  | cons c cs ih =>
    rw [FatFileHandle.calls] at hrun
    cases hcall : h.call c with
    | error e =>
      rw [hcall] at hrun
      cases hrun
    | ok h1 =>
      rw [hcall] at hrun
      exact (call hcall).trans (ih hrun)

end Uses

end FatFileHandle

/-! ## Reading a file back -/

/-- A fresh lookup, and the opened file read to its end with a buffer of `count` bytes. -/
def readFile (bpb : FatBpb) (location : DirLocation) (name : Name) (count : Nat) :
    FatM (List Byte) := do
  match ← lookup bpb location name with
  | .file firstCluster size =>
    let h ← openFile bpb firstCluster size
    pure (h.readToEnd count)
  | .dir _ => FatM.fail .notFile

/-- The file with a name, as `lookup` finds it. -/
def FatBpb.IsFile (bpb : FatBpb) (b : Image) (location : DirLocation) (name : Name)
    (e : FatDirEntry) : Prop :=
  ((bpb.entries b location).find? fun e => e.name = name) = some e ∧ e.isDir = false

section

variable {e : FatDirEntry} {count : Nat} (h : bpb.Sound d.count)
  (hdir : bpb.InRange d.bytes location) (hfile : bpb.IsFile d.bytes location name e)

include h hdir hfile

lemma lookup_file : lookup bpb location name d = (.ok (.file e.firstCluster e.size), d) := by
  unfold lookup
  rw [FatM.bind_ok (readEntries_ok h hdir), hfile.1]
  dsimp only
  rw [hfile.2]
  rfl

lemma readFile_ok (hchn : ∀ c ∈ bpb.chain d.bytes e.firstCluster, bpb.IsCluster c)
    (hcnt : 0 < count) :
    readFile bpb location name count d = (.ok (bpb.fileData d.bytes e.firstCluster e.size), d) := by
  unfold readFile
  rw [FatM.bind_ok (lookup_file h hdir hfile)]
  dsimp only
  rw [FatM.bind_ok (openFile_ok h hchn), FatM.pure_apply,
    FatFileHandle.readToEnd_eq hcnt rfl]

end

end Indominus.Fat
