import Indominus.Fat.Directory

/-!
# Inodes and file handles of a FAT volume

A handle keeps the contents of its file in memory; `close` stores them.  A handle that is dirty
after `close` has not been stored.
-/

namespace Indominus.Fat

open Memory (Byte)
open Fs Lib.Bytes Lib.Sectors

inductive DirLocation
  | fat16Root
  | clusterChain (cluster : Nat)
  deriving DecidableEq, Repr

/-- The inodes: `FatDirInode` and `FatFileInode`. -/
inductive FatInode
  | dir (location : DirLocation)
  | file (firstCluster size : Nat)
  deriving DecidableEq, Repr

structure FatFileHandle where
  data : List Byte
  pos : Nat
  firstCluster : Nat
  diskSize : Nat
  dirChain : Option (List Nat)
  dirEntryName : Name
  dirty : Bool
  isNew : Bool
  deriving DecidableEq, Repr

/-! ## Inodes -/

def FatBpb.rootSectors (bpb : FatBpb) : List Nat :=
  (List.range bpb.rootDirSectors).map (bpb.baseSector + bpb.rootDirStartSector + ·)

def readEntries (bpb : FatBpb) : DirLocation → FatM (List FatDirEntry)
  | .fat16Root => do
    let raw ← readRaw bpb.rootSectors
    pure (parseDirEntries raw)
  | .clusterChain cluster => do
    let chain ← readClusterChain bpb cluster
    let raw ← readRaw (bpb.sectors chain)
    pure (parseDirEntries raw)

def getChain (bpb : FatBpb) : DirLocation → FatM (List Nat)
  | .fat16Root => pure []
  | .clusterChain cluster => readClusterChain bpb cluster

def lookup (bpb : FatBpb) (location : DirLocation) (name : Name) : FatM FatInode := do
  let entries ← readEntries bpb location
  match entries.find? fun entry => entry.name = name with
  | some entry =>
    if entry.isDir then pure (.dir (.clusterChain entry.firstCluster))
    else pure (.file entry.firstCluster entry.size)
  | none => FatM.fail .notFound

/-- The contents of a file: `vec![0; size]`, filled by `read_file_data`. -/
def loadData (bpb : FatBpb) (firstCluster size : Nat) : FatM (List Byte) := do
  let chain ← readClusterChain bpb firstCluster
  let got ← readFileData bpb chain size
  pure (got ++ List.replicate (size - got.length) 0)

/-- `FatFileInode::open`. -/
def openFile (bpb : FatBpb) (firstCluster size : Nat) : FatM FatFileHandle := do
  let data ← loadData bpb firstCluster size
  pure { data, pos := 0, firstCluster, diskSize := size, dirChain := none, dirEntryName := [],
         dirty := false, isNew := false }

def createChildFile (bpb : FatBpb) (location : DirLocation) (name : Name) : FatM FatFileHandle := do
  let entries ← readEntries bpb location
  match entries.find? fun entry => entry.name = name ∧ ¬ entry.isDir with
  | some entry => do
    let data ← loadData bpb entry.firstCluster entry.size
    let dirChain ← getChain bpb location
    pure { data, pos := 0, firstCluster := entry.firstCluster, diskSize := entry.size,
           dirChain := some dirChain, dirEntryName := name, dirty := false, isNew := false }
  | none => do
    let dirChain ← getChain bpb location
    pure { data := [], pos := 0, firstCluster := 0, diskSize := 0, dirChain := some dirChain,
           dirEntryName := name, dirty := false, isNew := true }

namespace FatFileHandle

/-! ## Handles -/

/-- `FatFileHandle::read` into a buffer of `count` bytes. -/
def read (h : FatFileHandle) (count : Nat) : List Byte × FatFileHandle :=
  let bytes := (h.data.drop h.pos).take count
  (bytes, { h with pos := h.pos + bytes.length })

def write (h : FatFileHandle) (buf : List Byte) : Except Fault (Nat × FatFileHandle) :=
  if buf = [] then .ok (0, h)
  else
    let end_ := h.pos + buf.length
    if h.data.length < end_ ∧ VEC_MAX < end_ then .error .halt
    else .ok (buf.length, { h with data := overwrite h.data h.pos buf, pos := end_, dirty := true })

def seek (h : FatFileHandle) (offset : Nat) : FatFileHandle := { h with pos := offset }

/-- The loop of `close` that allocates `n` more clusters; `none` is a failed allocation, a failed
link ends it. -/
def allocateMore (bpb : FatBpb) : (n lastCluster : Nat) → List Nat → FatM (Option (List Nat))
  | 0, _, chain => pure (some chain)
  | n + 1, lastCluster, chain => do
    let hint := if 2 ≤ lastCluster then lastCluster + 1 else 2
    match ← FatM.attempt (allocateCluster bpb hint) with
    | none => pure none
    | some newCl =>
      if 2 ≤ lastCluster then
        match ← FatM.attempt (extendChain bpb lastCluster newCl) with
        | none => pure (some chain)
        | some () => allocateMore bpb n newCl (chain ++ [newCl])
      else do
        let _ ← FatM.attempt (writeFatEntry bpb newCl bpb.eoc)
        allocateMore bpb n newCl (chain ++ [newCl])

def clustersNeeded (bpb : FatBpb) (newSize : Nat) : Nat :=
  (newSize + bpb.bytesPerCluster - 1) / bpb.bytesPerCluster

/-- The chain of the file when `close` starts. -/
def oldChain (bpb : FatBpb) (h : FatFileHandle) : FatM (List Nat) :=
  if h.firstCluster ≠ 0 then do
    let chain ← FatM.attempt (readClusterChain bpb h.firstCluster)
    pure (chain.getD [])
  else pure []

/-- The first step of `close`: the chain and the data.  `false` says that `close` returns. -/
def flushData (bpb : FatBpb) (h : FatFileHandle) : FatM (FatFileHandle × Bool) := do
  let newSize := h.data.length % 2 ^ 32
  if 0 < newSize then do
    let chain ← oldChain bpb h
    match ← allocateMore bpb (clustersNeeded bpb newSize - chain.length) h.firstCluster chain with
    | none => pure (h, false)
    | some chain =>
      let h := if h.firstCluster = 0 then { h with firstCluster := chain.headD 0 } else h
      match ← FatM.attempt (writeFileData bpb chain 0 h.data) with
      | none => pure (h, false)
      | some _ => pure (h, true)
  else if 2 ≤ h.firstCluster then
    match ← FatM.attempt (freeClusterChain bpb h.firstCluster) with
    | none => pure (h, true)
    | some () => pure ({ h with firstCluster := 0 }, true)
  else pure (h, true)

/-- The size in the directory entry; the root directory of a FAT16 volume, which has no chain, is
left as it is. -/
def flushSize (bpb : FatBpb) (dirChain : List Nat) (name : Name) (newSize : Nat) : FatM Unit :=
  if dirChain = [] then pure ()
  else do
    let _ ← FatM.attempt (updateDirEntrySize bpb dirChain name newSize)
    pure ()

def close (bpb : FatBpb) (h : FatFileHandle) : FatM FatFileHandle :=
  if ¬ h.dirty then pure h
  else
    match h.dirChain with
    | none => pure h
    | some dirChain => do
      let newSize := h.data.length % 2 ^ 32
      let (h', stored) ← flushData bpb h
      if stored then do
        flushSize bpb dirChain h.dirEntryName newSize
        pure { h' with dirty := false, diskSize := newSize }
      else pure h'

end FatFileHandle

end Indominus.Fat
