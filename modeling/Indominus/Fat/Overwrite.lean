import Indominus.Fat.Volume

/-!
# Overwriting a file in place

`close` of a handle whose contents fit into the chain of the file.
-/

namespace Indominus.Fat

open Memory (Byte)
open Fs Lib.Bytes Lib.Sectors

variable {bpb : FatBpb} {d : Device} {b : Image} {location : DirLocation} {name : Name}
  {e : FatDirEntry} {cluster : Nat} {data : List Byte}

namespace FatFileHandle

variable {h h' : FatFileHandle}

lemma oldChain_ok (hs : bpb.Sound d.count)
    (hchn : ∀ c ∈ bpb.chain d.bytes h.firstCluster, bpb.IsCluster c) :
    oldChain bpb h d = (.ok (bpb.chain d.bytes h.firstCluster), d) := by
  unfold oldChain
  by_cases hzero : h.firstCluster = 0
  · rw [hzero]
    rfl
  · rw [if_pos hzero, FatM.bind_ok (FatM.attempt_ok (readClusterChain_ok hs hchn))]
    rfl

lemma clustersNeeded_le {size n : Nat} (hpos : 0 < bpb.bytesPerCluster) :
    clustersNeeded bpb size ≤ n ↔ size ≤ n * bpb.bytesPerCluster := by
  unfold clustersNeeded
  rw [Nat.div_le_iff_le_mul_add_pred hpos, Nat.mul_comm]
  omega

/-- The writes that store the contents of a handle in the chain of its file. -/
def dataWrites (bpb : FatBpb) (b : Image) (h : FatFileHandle) : List (Nat × Image) :=
  spreadWrites (bpb.sectors (bpb.chain b h.firstCluster)) b h.data

lemma flushData_inPlace (hs : bpb.Sound d.count)
    (hchn : ∀ c ∈ bpb.chain d.bytes h.firstCluster, bpb.IsCluster c) (hpos : 0 < h.data.length)
    (hlt : h.data.length < 2 ^ 32)
    (hfits : h.data.length ≤ (bpb.chain d.bytes h.firstCluster).length * bpb.bytesPerCluster) :
    flushData bpb h d = (.ok (h, true), d.after (dataWrites bpb d.bytes h)) := by
  have hbpc : 0 < bpb.bytesPerCluster := by
    rw [hs.bytesPerCluster]
    have := hs.spc
    omega
  have hneeded := Nat.sub_eq_zero_of_le ((clustersNeeded_le hbpc).mpr hfits)
  have hfst : h.firstCluster ≠ 0 := by
    intro hzero
    rw [hzero, FatBpb.chain_zero, List.length_nil] at hfits
    omega
  obtain ⟨n, hwr⟩ := @writeFileData_ok bpb d _ h.data (hs.sectors_lt_count hchn)
  unfold flushData
  rw [Nat.mod_eq_of_lt hlt, if_pos hpos, FatM.bind_ok (oldChain_ok hs hchn), hneeded, allocateMore,
    FatM.bind_ok (FatM.pure_apply _)]
  dsimp only
  rw [if_neg hfst, FatM.bind_ok (FatM.attempt_ok hwr)]
  rfl

variable {dirChain : List Nat} {d' : Device} {newSize : Nat}

lemma close_of_flush {d'' : Device} (hdty : h.dirty = true) (hdir : h.dirChain = some dirChain)
    (hflush : flushData bpb h d = (.ok (h', true), d'))
    (hsize : flushSize bpb dirChain h.dirEntryName (h.data.length % 2 ^ 32) d' = (.ok (), d'')) :
    close bpb h d
      = (.ok { h' with dirty := false, diskSize := h.data.length % 2 ^ 32 }, d'') := by
  unfold close
  rw [if_neg (not_not_intro hdty), hdir]
  dsimp only
  rw [FatM.bind_ok hflush]
  rw [if_pos rfl, FatM.bind_ok hsize]
  rfl

lemma flushSize_ok (hne : dirChain ≠ [])
    (hupd : updateDirEntrySize bpb dirChain name newSize d = (.ok (), d')) :
    flushSize bpb dirChain name newSize d = (.ok (), d') := by
  unfold flushSize
  rw [if_neg hne, FatM.bind_ok (FatM.attempt_ok hupd)]
  rfl

end FatFileHandle

/-! ## A file and its directory -/

/-- A file in a directory that has a cluster chain; both chains are disjoint, and names are
distinct. -/
structure FatBpb.HasFile (bpb : FatBpb) (b : Image) (cluster : Nat) (e : FatDirEntry) : Prop where
  mem : e ∈ bpb.entries b (.clusterChain cluster)
  file : e.isDir = false
  names : ((bpb.entries b (.clusterChain cluster)).map FatDirEntry.name).Nodup
  dirRange : ∀ c ∈ bpb.chain b cluster, bpb.IsCluster c
  dirOnce : (bpb.chain b cluster).Nodup
  range : ∀ c ∈ bpb.chain b e.firstCluster, bpb.IsCluster c
  once : (bpb.chain b e.firstCluster).Nodup
  disjoint : (bpb.chain b cluster).Disjoint (bpb.chain b e.firstCluster)

lemma find_of_names {l : List FatDirEntry} (he : e ∈ l) (hnms : (l.map FatDirEntry.name).Nodup) :
    (l.find? fun x => x.name = e.name) = some e := by
  induction l with
  | nil => cases he
  | cons x l ih =>
    rw [List.map_cons, List.nodup_cons] at hnms
    by_cases hx : x.name = e.name
    · rcases List.mem_cons.mp he with rfl | hmem
      · simp
      · exact absurd (hx ▸ List.mem_map_of_mem hmem) hnms.1
    have hmem : e ∈ l := by
      rcases List.mem_cons.mp he with rfl | hmem
      · exact absurd rfl hx
      · exact hmem
    rw [List.find?_cons_of_neg (by simpa using hx)]
    exact ih hmem hnms.2

lemma FatBpb.HasFile.isFile (hf : bpb.HasFile b cluster e) :
    bpb.IsFile b (.clusterChain cluster) e.name e :=
  ⟨find_of_names hf.mem hf.names, hf.file⟩

lemma FatBpb.IsFile.scan (hf : bpb.IsFile b location name e) :
    ∃ offset, scanDir (bpb.rawDir b location) name = some (e, offset) := by
  have hfind := hf.1
  unfold FatBpb.entries at hfind
  rw [← scanDir_eq_find] at hfind
  obtain ⟨⟨e', offset⟩, hscan, rfl⟩ := Option.map_eq_some_iff.mp hfind
  exact ⟨offset, hscan⟩

lemma createChildFile_existing (hs : bpb.Sound d.count) (hdir : bpb.InRange d.bytes location)
    (hf : bpb.IsFile d.bytes location name e)
    (hrg : ∀ c ∈ bpb.chain d.bytes e.firstCluster, bpb.IsCluster c) :
    createChildFile bpb location name d = (.ok
      { data := bpb.fileData d.bytes e.firstCluster e.size, pos := 0,
        firstCluster := e.firstCluster, diskSize := e.size,
        dirChain := some (bpb.dirChain d.bytes location), dirEntryName := name, dirty := false,
        isNew := false }, d) := by
  have hfind : ((bpb.entries d.bytes location).find? fun x => x.name = name ∧ ¬ x.isDir) =
    some e := by
    obtain ⟨hname, before, after, hspl, hbef⟩ := List.find?_eq_some_iff_append.mp hf.1
    rw [List.find?_eq_some_iff_append]
    refine ⟨?_, before, after, hspl, ?_⟩
    · simpa [hf.2] using hname
    intro x hx
    have := hbef x hx
    simp only [Bool.not_eq_true', decide_eq_false_iff_not] at this ⊢
    exact fun h => this h.1
  unfold createChildFile
  rw [FatM.bind_ok (readEntries_ok hs hdir), hfind]
  dsimp only
  rw [FatM.bind_ok (loadData_ok hs hrg), FatM.bind_ok (getChain_ok hs hdir)]
  rfl

/-! ## The writes of `close` -/

lemma FatBpb.Sound.isFile_put {count offset a v : Nat} (hs : bpb.Sound count)
    (hdir : ∀ c ∈ bpb.chain b cluster, bpb.IsCluster c) (honce : (bpb.chain b cluster).Nodup)
    (hscan : scanDir (bpb.rawDir b (.clusterChain cluster)) name = some (e, offset))
    (ha : place (bpb.sectors (bpb.chain b cluster)) (offset + 28) = some a)
    (hfile : e.isDir = false) :
    bpb.IsFile (put b a 4 v) (.clusterChain cluster) name { e with size := v % 2 ^ 32 } := by
  obtain ⟨hslot, -⟩ := scanDir_offset hscan
  have hsector : (offset + 28) % 512 + 4 ≤ 512 := by omega
  have htab : ∀ x, bpb.InTable (x / 512) → put b a 4 v x = b x := by
    intro x hx
    apply put_of_not_mem
    by_contra hin
    have hmem := place_mem ha
    have hrg := hs.sectors_range hdir hmem
    have hcopy := hs.copy_le hs.numFats
    unfold FatBpb.InTable at hx
    omega
  have hchn := hs.chain_congr hdir htab
  have hraw : bpb.rawDir (put b a 4 v) (.clusterChain cluster)
      = patchRaw (bpb.rawDir b (.clusterChain cluster)) (offset + 28) 4 v := by
    rw [FatBpb.rawDir, FatBpb.rawDir, FatBpb.dirSectors, FatBpb.dirSectors, hchn]
    exact contents_put (hs.sectors_nodup hdir honce) ha hsector
  refine ⟨?_, hfile⟩
  unfold FatBpb.entries
  rw [hraw, ← scanDir_eq_find, scanDir_patchRaw hscan]
  rfl

variable {chain : List Nat} {x : Nat}

section

variable {count : Nat} (hs : bpb.Sound count) (hin : ∀ c ∈ chain, bpb.IsCluster c)

include hs hin

lemma FatBpb.Sound.applyWrites_spread_table (m : Nat) (hx : bpb.InTable (x / 512)) :
    applyWrites b ((spreadWrites (bpb.sectors chain) b data).take m) x = b x := by
  apply applyWrites_spread_of_not_mem
  intro hmem
  have hrg := hs.sectors_range hin hmem
  have hcopy := hs.copy_le hs.numFats
  unfold FatBpb.InTable at hx
  omega

lemma FatBpb.Sound.chain_spread {first : Nat} (m : Nat)
    (hfst : ∀ c ∈ bpb.chain b first, bpb.IsCluster c) :
    bpb.chain (applyWrites b ((spreadWrites (bpb.sectors chain) b data).take m)) first =
      bpb.chain b first :=
  hs.chain_congr hfst fun _ hx => hs.applyWrites_spread_table hin m hx

lemma FatBpb.Sound.rawDir_spread (m : Nat) (hdir : bpb.InRange b location)
    (hdisj : (bpb.dirSectors b location).Disjoint (bpb.sectors chain)) :
    bpb.dirSectors (applyWrites b ((spreadWrites (bpb.sectors chain) b data).take m)) location =
      bpb.dirSectors b location ∧
      bpb.rawDir (applyWrites b ((spreadWrites (bpb.sectors chain) b data).take m)) location =
      bpb.rawDir b location := by
  have hsectors : bpb.dirSectors (applyWrites b ((spreadWrites (bpb.sectors chain) b data).take m))
      location = bpb.dirSectors b location := by
    cases location with
    | fat16Root => rfl
    | clusterChain cluster =>
      rw [FatBpb.dirSectors, FatBpb.dirSectors, hs.chain_spread hin m hdir]
  refine ⟨hsectors, ?_⟩
  rw [FatBpb.rawDir, hsectors]
  apply contents_congr
  intro x hx
  exact applyWrites_spread_of_not_mem (fun hmem => hdisj hx hmem) m

end

lemma FatFileHandle.close_inPlace {h : FatFileHandle} {offset : Nat}
    (hs : bpb.Sound d.count) (hdty : h.dirty = true)
    (hdch : h.dirChain = some (bpb.chain d.bytes cluster))
    (hdir : ∀ c ∈ bpb.chain d.bytes cluster, bpb.IsCluster c)
    (hrg : ∀ c ∈ bpb.chain d.bytes h.firstCluster, bpb.IsCluster c)
    (hdisj : (bpb.chain d.bytes cluster).Disjoint (bpb.chain d.bytes h.firstCluster))
    (hpos : 0 < h.data.length) (hlt : h.data.length < 2 ^ 32)
    (hfits : h.data.length ≤ (bpb.chain d.bytes h.firstCluster).length * bpb.bytesPerCluster)
    (hscan : scanDir (bpb.rawDir d.bytes (.clusterChain cluster)) h.dirEntryName =
      some (e, offset)) :
    ∃ a w, place (bpb.sectors (bpb.chain d.bytes cluster)) (offset + 28) = some a ∧
      close bpb h d = (.ok { h with dirty := false, diskSize := h.data.length },
        d.after (dataWrites bpb d.bytes h ++ [w])) ∧
      storeAt (applyWrites d.bytes (dataWrites bpb d.bytes h)) w.1 w.2
        = put (applyWrites d.bytes (dataWrites bpb d.bytes h)) a 4 h.data.length := by
  have hflush := flushData_inPlace hs hrg hpos hlt hfits
  -- the data are not in the directory, so that the scan finds the same slot
  have hsame :
      bpb.dirData (applyWrites d.bytes (dataWrites bpb d.bytes h)) (bpb.chain d.bytes cluster)
      = bpb.rawDir d.bytes (.clusterChain cluster) := by
    apply contents_congr
    intro x hx
    apply applyWrites_of_not_mem
    intro w hw heq
    exact hs.sectors_disjoint hdir hrg hdisj hx (heq ▸ spreadWrites_mem hw)
  obtain ⟨a, w, ha, hupd, -, hsto⟩ := @updateDirEntrySize_ok h.dirEntryName e bpb
    (d.after (dataWrites bpb d.bytes h)) (bpb.chain d.bytes cluster) hs hdir offset h.data.length
    (hsame ▸ hscan)
  have hne : bpb.chain d.bytes cluster ≠ [] := by
    intro hnil
    rw [hnil] at ha
    cases ha
  have hsize := flushSize_ok hne hupd
  rw [← Nat.mod_eq_of_lt hlt] at hsize
  refine ⟨a, w, ha, ?_, hsto⟩
  rw [close_of_flush hdty hdch hflush hsize, Nat.mod_eq_of_lt hlt, Device.after_after]

namespace FatBpb.HasFile

variable {cluster offset a count : Nat} {data : List Byte}

lemma sectors_disjoint (hf : bpb.HasFile b cluster e) (hs : bpb.Sound count) :
    (bpb.dirSectors b (.clusterChain cluster)).Disjoint
      (bpb.sectors (bpb.chain b e.firstCluster)) :=
  hs.sectors_disjoint hf.dirRange hf.range hf.disjoint

lemma sizeByte_sector
    (hscan : scanDir (bpb.rawDir b (.clusterChain cluster)) e.name = some (e, offset))
    (ha : place (bpb.sectors (bpb.chain b cluster)) (offset + 28) = some a)
    (hx : a ≤ x ∧ x < a + 4) :
    place (bpb.sectors (bpb.chain b cluster)) (offset + 28 + (x - a)) = some x := by
  obtain ⟨⟨k, rfl⟩, -⟩ := scanDir_offset hscan
  have hplc := place_add (k := x - a) ha (by omega)
  rwa [Nat.add_sub_cancel' hx.1] at hplc

/-- On the new disk the file has its old chain and reads `data`. -/
lemma stored (hf : bpb.HasFile b cluster e) (hs : bpb.Sound count)
    (hfits : data.length ≤ (bpb.chain b e.firstCluster).length * bpb.bytesPerCluster)
    (hscan : scanDir (bpb.rawDir b (.clusterChain cluster)) e.name = some (e, offset))
    (ha : place (bpb.sectors (bpb.chain b cluster)) (offset + 28) = some a) {b' : Image}
    (hb' : b' = put (applyWrites b (spreadWrites (bpb.sectors (bpb.chain b e.firstCluster)) b data))
      a 4 data.length) :
    bpb.IsFile b' (.clusterChain cluster) e.name { e with size := data.length % 2 ^ 32 } ∧
      bpb.chain b' cluster = bpb.chain b cluster ∧
      bpb.chain b' e.firstCluster = bpb.chain b e.firstCluster ∧
      bpb.fileData b' e.firstCluster data.length = data := by
  have hall : (spreadWrites (bpb.sectors (bpb.chain b e.firstCluster)) b data).take
      (spreadWrites (bpb.sectors (bpb.chain b e.firstCluster)) b data).length
        = spreadWrites (bpb.sectors (bpb.chain b e.firstCluster)) b data := List.take_length
  generalize hb1 :
      applyWrites b (spreadWrites (bpb.sectors (bpb.chain b e.firstCluster)) b data) = b1
    at hb'
  -- the data leave the tables and the directory as they are
  have hdch : bpb.chain b1 cluster = bpb.chain b cluster := by
    rw [← hb1, ← hall, hs.chain_spread hf.range _ hf.dirRange]
  have hchn : bpb.chain b1 e.firstCluster = bpb.chain b e.firstCluster := by
    rw [← hb1, ← hall, hs.chain_spread hf.range _ hf.range]
  have hraw : bpb.rawDir b1 (.clusterChain cluster) = bpb.rawDir b (.clusterChain cluster) := by
    rw [← hb1, ← hall]
    exact (hs.rawDir_spread hf.range _ (show bpb.InRange b (.clusterChain cluster) from hf.dirRange)
      (hf.sectors_disjoint hs)).2
  -- the size bytes are in the directory
  have hmem : ∀ x, a ≤ x → x < a + 4 → x / 512 ∈ bpb.sectors (bpb.chain b cluster) :=
    fun x hle hlt => place_mem (sizeByte_sector hscan ha ⟨hle, hlt⟩)
  have hput : ∀ x, x / 512 ∉ bpb.sectors (bpb.chain b cluster) → b' x = b1 x := by
    intro x hx
    rw [hb']
    apply put_of_not_mem
    by_contra hin
    exact hx (hmem x (by omega) (by omega))
  have htab : ∀ x, bpb.InTable (x / 512) → b' x = b1 x := by
    intro x hx
    apply hput
    intro hin
    have hrg := hs.sectors_range hf.dirRange hin
    have hcopy := hs.copy_le hs.numFats
    unfold FatBpb.InTable at hx
    omega
  have hchn' : bpb.chain b' e.firstCluster = bpb.chain b e.firstCluster :=
    (hs.chain_congr (hchn ▸ hf.range) htab).trans hchn
  refine ⟨?_, (hs.chain_congr (hdch ▸ hf.dirRange) htab).trans hdch, hchn', ?_⟩
  · rw [hb']
    exact hs.isFile_put (hdch ▸ hf.dirRange) (hdch ▸ hf.dirOnce) (hraw ▸ hscan)
      (hdch ▸ ha) hf.file
  have hlen : data.length ≤ 512 * (bpb.sectors (bpb.chain b e.firstCluster)).length := by
    rw [length_sectors, Nat.mul_comm 512, Nat.mul_assoc, Nat.mul_comm _ 512, ← hs.bytesPerCluster]
    exact hfits
  rw [fileData, hchn']
  calc contents b' (bpb.sectors (bpb.chain b e.firstCluster)) data.length
    _ = contents b1 (bpb.sectors (bpb.chain b e.firstCluster)) data.length :=
      contents_congr fun x hx => hput x fun hin => hf.sectors_disjoint hs hin hx
    _ = data := by
      rw [← hb1]
      exact contents_applyWrites (hs.sectors_nodup hf.range hf.once) hlen

end FatBpb.HasFile

def FatBpb.IsSizeByte (bpb : FatBpb) (b : Image) (cluster : Nat) (e : FatDirEntry)
    (a : Nat) : Prop :=
  ∃ offset k, scanDir (bpb.rawDir b (.clusterChain cluster)) e.name = some (e, offset) ∧ k < 4 ∧
    place (bpb.sectors (bpb.chain b cluster)) (offset + 28 + k) = some a

/-- **Overwriting in place.**  After `close`, a fresh lookup and read returns the contents of the
handle, and only the file's data clusters and the size in its entry have changed. -/
theorem overwrite_in_place (hs : bpb.Sound d.count) {cluster : Nat}
    (hf : bpb.HasFile d.bytes cluster e) {h0 h : FatFileHandle} {d0 : Device}
    {cs : List FatFileHandle.Call}
    (hcreate : createChildFile bpb (.clusterChain cluster) e.name d = (.ok h0, d0))
    (hcalls : h0.calls cs = .ok h)
    (hfits : h.data.length ≤ (bpb.chain d.bytes e.firstCluster).length * bpb.bytesPerCluster)
    (hlt : h.data.length < 2 ^ 32) :
    ∃ h' d', h.close bpb d0 = (.ok h', d') ∧ (∀ count, 0 < count →
        (readFile bpb (.clusterChain cluster) e.name count d').1 = .ok h.data) ∧
      ∀ a, d'.bytes a ≠ d.bytes a → a / 512 ∈ bpb.sectors (bpb.chain d.bytes e.firstCluster) ∨
          bpb.IsSizeByte d.bytes cluster e a := by
  have hdir : bpb.InRange d.bytes (.clusterChain cluster) := hf.dirRange
  cases (createChildFile_existing hs hdir hf.isFile hf.range).symm.trans hcreate
  have huses := FatFileHandle.Uses.run hcalls
  cases hdty : h.dirty with
  | false =>
    -- nothing has been written to the handle
    refine ⟨h, d, ?_, ?_, fun a hne => absurd rfl hne⟩
    · unfold FatFileHandle.close
      rw [if_pos (by rw [hdty]; decide)]
      rfl
    · intro count hcnt
      rw [readFile_ok hs hdir hf.isFile hf.range hcnt, huses.clean hdty]
  | true =>
    have hpos := List.length_pos_iff.mpr (huses.nonempty rfl hdty)
    obtain ⟨offset, hscan⟩ := hf.isFile.scan
    have hfst : h.firstCluster = e.firstCluster := huses.firstCluster
    have hname : h.dirEntryName = e.name := huses.dirEntryName
    obtain ⟨a, w, ha, hcl, hsto⟩ := FatFileHandle.close_inPlace hs hdty huses.dirChain
      hf.dirRange (hfst ▸ hf.range) (hfst ▸ hf.disjoint) hpos hlt (hfst ▸ hfits)
      (hname ▸ hscan)
    have hbs : (d.after (FatFileHandle.dataWrites bpb d.bytes h ++ [w])).bytes
        = put (applyWrites d.bytes (spreadWrites (bpb.sectors (bpb.chain d.bytes e.firstCluster))
            d.bytes h.data)) a 4 h.data.length := by
      rw [← hfst]
      exact (applyWrites_append _ _).trans hsto
    obtain ⟨hfile, hdch, hchn, hdata⟩ := hf.stored hs hfits hscan ha hbs
    refine ⟨_, _, hcl, ?_, ?_⟩
    · intro count hcnt
      rw [readFile_ok (d := d.after _) hs (show bpb.InRange _ (.clusterChain cluster) from
        fun c hc => hf.dirRange c (hdch ▸ hc)) hfile (fun c hc => hf.range c (hchn ▸ hc)) hcnt]
      rw [Nat.mod_eq_of_lt hlt, hdata]
    intro x hx
    rw [hbs] at hx
    by_cases hin : a ≤ x ∧ x < a + 4
    · exact .inr ⟨offset, x - a, hscan, by omega, FatBpb.HasFile.sizeByte_sector hscan ha hin⟩
    left
    rw [put_of_not_mem (by omega)] at hx
    by_contra hmem
    have hold := @applyWrites_spread_of_not_mem d.bytes _ h.data x hmem
      (spreadWrites (bpb.sectors (bpb.chain d.bytes e.firstCluster)) d.bytes h.data).length
    rw [List.take_length] at hold
    exact hx hold

/-! ## A small volume -/

namespace Sample

/-- A FAT16 volume with six clusters of one sector, in nine sectors. -/
def volume : FatBpb where
  variant := .fat16
  bytesPerSector := 512
  sectorsPerCluster := 1
  reservedSectors := 1
  numFats := 1
  rootCluster := 0
  fatSizeSectors := 1
  totalSectors := 9
  baseSector := 0
  dataStartSector := 3
  bytesPerCluster := 512
  rootEntryCount := 16
  rootDirStartSector := 2
  rootDirSectors := 1

/-- The slot of a file `a`. -/
def slot (first size k : Nat) : Byte :=
  if k = 0 then 0x41
  else if k ≤ 11 then 0x20
  else if k = 26 then byteOf first 0
  else if 28 ≤ k ∧ k < 32 then byteOf size (k - 28)
  else 0

/-- A disk with the table `fat` and, in a directory in cluster 2, a file `a`. -/
def disk (fat : List Nat) (first size : Nat) (data : Image) : Device where
  bytes a :=
    if a / 512 = 1 then byteOf (fat.getD (a % 512 / 2) 0) (a % 2)
    else if a / 512 = 3 then slot first size (a % 512)
    else if 4 ≤ a / 512 then data a
    else 0
  count := 9
  log := []

lemma sound : volume.Sound 9 := by
  constructor <;> decide

def shortFile : Device := disk [0xFFF8, 0xFFFF, 0xFFF8, 0xFFF8] 3 2 fun _ => 7

def entry (first size : Nat) : FatDirEntry := ⟨['a'], 0x20, first, size, false⟩

lemma shortFile_hasFile : volume.HasFile shortFile.bytes 2 (entry 3 2) where
  mem := by decide +kernel
  file := by decide
  names := by decide +kernel
  dirRange := by decide +kernel
  dirOnce := by decide +kernel
  range := by decide +kernel
  once := by decide +kernel
  disjoint := by
    have hdisj : ∀ c ∈ volume.chain shortFile.bytes 2, c ∉ volume.chain shortFile.bytes 3 := by
      decide +kernel
    exact fun c hc => hdisj c hc

end Sample

/-- Three bytes over a file of two. -/
theorem overwrite_in_place_sample : ∃ h0 d0 h h' d',
    createChildFile Sample.volume (.clusterChain 2) ['a'] Sample.shortFile = (.ok h0, d0) ∧
      h0.calls [.write [1, 2, 3]] = .ok h ∧ h.close Sample.volume d0 = (.ok h', d') ∧
      (readFile Sample.volume (.clusterChain 2) ['a'] 512 d').1 = .ok [1, 2, 3] := by
  let h0 : FatFileHandle := ⟨[7, 7], 0, 3, 2, some [2], ['a'], false, false⟩
  let h : FatFileHandle := ⟨[1, 2, 3], 3, 3, 2, some [2], ['a'], true, false⟩
  have hcr : (createChildFile Sample.volume (.clusterChain 2) ['a'] Sample.shortFile).1
      = .ok h0 := by decide +kernel
  have hcalls : h0.calls [.write [1, 2, 3]] = .ok h := by decide +kernel
  have hfits : h.data.length ≤ (Sample.volume.chain Sample.shortFile.bytes
      (Sample.entry 3 2).firstCluster).length * Sample.volume.bytesPerCluster := by decide +kernel
  obtain ⟨d0, hd0⟩ := FatM.exists_device hcr
  obtain ⟨h', d', hcl, hread, -⟩ := overwrite_in_place (d := Sample.shortFile) Sample.sound
    Sample.shortFile_hasFile hd0 hcalls hfits (by decide)
  exact ⟨h0, d0, h, h', d', hd0, hcalls, hcl, hread 512 (by decide)⟩

end Indominus.Fat
