import Indominus.Fat.Data

/-!
# Directories

Slots of 32 bytes; a slot with attribute `0x0F` adds to the long name of the next entry.  The
scanners of the source share their loop body, `readSlot`.
-/

namespace Indominus.Fat

open Memory (Byte)
open Fs Lib.Bytes Lib.Sectors List

structure FatDirEntry where
  name : Name
  attributes : Byte
  firstCluster : Nat
  size : Nat
  isLfn : Bool
  deriving DecidableEq, Repr

namespace FatDirEntry

/-- A byte of a short name: capitals become small letters. -/
def lowerChar (b : Byte) : Char :=
  Char.ofNat (if 0x41 ≤ b.toNat ∧ b.toNat ≤ 0x5A then b.toNat + 32 else b.toNat)

/-- The name or the extension of a short name; it ends at a space or a zero. -/
def shortPart (buf : Image) (start n : Nat) : Name :=
  (((List.range n).map fun i => buf (start + i)).takeWhile fun b => b ≠ 0x20 ∧ b ≠ 0).map lowerChar

def shortName (buf : Image) : Name :=
  let namePart := shortPart buf 0 8
  let extPart := shortPart buf 8 3
  if extPart = [] then namePart else namePart ++ '.' :: extPart

/-- `FatDirEntry::parse` of a slot. -/
def parse (buf : Image) : Option FatDirEntry :=
  if buf 0 = 0xE5 ∨ buf 0 = 0 then none
  else
    let attr := buf 11
    if attr = 0x0F then some ⟨[], attr, 0, 0, true⟩
    else if attr &&& 0x08 ≠ 0 then none
    else some ⟨shortName buf, attr, le buf 20 2 * 2 ^ 16 + le buf 26 2, le buf 28 4, false⟩

def isDir (e : FatDirEntry) : Bool := e.attributes &&& 0x10 ≠ 0

end FatDirEntry

/-- The offsets of the 13 characters of a long-name slot. -/
def lfnOffsets : List Nat := [1, 3, 5, 7, 9, 14, 16, 18, 20, 22, 24, 28, 30]

def lfnChars (buf : Image) : Name :=
  (((lfnOffsets.map fun o => le buf o 2).takeWhile fun c => c ≠ 0 ∧ c ≠ 0xFFFF).filter
    fun c => c < 128).map Char.ofNat

inductive Slot
  | stop
  | lfn (pending : Name)
  | entry (e : FatDirEntry)
  | skip

def readSlot (buf : Image) (pendingLfn : Name) : Slot :=
  if buf 0 = 0 then .stop
  else if buf 11 = 0x0F then .lfn (pendingLfn ++ lfnChars buf)
  else
    match FatDirEntry.parse buf with
    | some e => .entry (if pendingLfn ≠ [] then { e with name := pendingLfn } else e)
    | none => .skip

def slotAt (rawData : List Byte) (i : Nat) : Image := fun k => rawData.getD (i + k) 0

/-- The loop of `parse_dir_entries` over the `n` slots that are left. -/
def parseDirEntriesFrom (rawData : List Byte) : (n i : Nat) → Name → List FatDirEntry
  | 0, _, _ => []
  | n + 1, i, pendingLfn =>
    match readSlot (slotAt rawData i) pendingLfn with
    | .stop => []
    | .lfn pendingLfn => parseDirEntriesFrom rawData n (i + 32) pendingLfn
    | .entry e => e :: parseDirEntriesFrom rawData n (i + 32) []
    | .skip => parseDirEntriesFrom rawData n (i + 32) []

def parseDirEntries (rawData : List Byte) : List FatDirEntry :=
  parseDirEntriesFrom rawData (rawData.length / 32) 0 []

def scanDirFrom (rawData : List Byte) (name : Name) : (n offset : Nat) → Name →
    Option (FatDirEntry × Nat)
  | 0, _, _ => none
  | n + 1, offset, pendingLfn =>
    match readSlot (slotAt rawData offset) pendingLfn with
    | .stop => none
    | .lfn pendingLfn => scanDirFrom rawData name n (offset + 32) pendingLfn
    | .entry e =>
      if e.name = name then some (e, offset) else scanDirFrom rawData name n (offset + 32) []
    | .skip => scanDirFrom rawData name n (offset + 32) []

/-- The scan for a name: the entry and the offset of its slot. -/
def scanDir (rawData : List Byte) (name : Name) : Option (FatDirEntry × Nat) :=
  scanDirFrom rawData name (rawData.length / 32) 0 []

def patchRaw (rawData : List Byte) (o n w : Nat) : List Byte :=
  firstBytes (put (slotAt rawData 0) o n w) rawData.length

/-- The end of the functions that change a slot: the sector of the slot is written back. -/
def flushSlot (bpb : FatBpb) (dirChain : List Nat) (rawData : List Byte) (offset : Nat) :
    FatM Unit :=
  let bpc := bpb.bytesPerCluster
  let clusterIdx := offset / bpc
  let sectorInCluster := offset % bpc / 512
  match dirChain[clusterIdx]? with
  | none => FatM.halt
  | some cluster =>
    writeSector (bpb.clusterToSector cluster + sectorInCluster)
      (slotAt rawData (clusterIdx * bpc + sectorInCluster * 512))

def findDirEntry (bpb : FatBpb) (dirChain : List Nat) (name : Name) : FatM (Nat × List Byte) := do
  let rawData ← readRaw (bpb.sectors dirChain)
  match scanDir rawData name with
  | none => FatM.fail .notFound
  | some (_, offset) => pure (offset, rawData)

def lookupDirEntry (bpb : FatBpb) (dirChain : List Nat) (name : Name) :
    FatM (FatDirEntry × Nat × List Byte) := do
  let rawData ← readRaw (bpb.sectors dirChain)
  match scanDir rawData name with
  | none => FatM.fail .notFound
  | some (e, offset) => pure (e, offset, rawData)

def updateDirEntrySize (bpb : FatBpb) (dirChain : List Nat) (entryName : Name) (newSize : Nat) :
    FatM Unit := do
  let rawData ← readRaw (bpb.sectors dirChain)
  match scanDir rawData entryName with
  | none => FatM.fail .notFound
  | some (_, offset) => flushSlot bpb dirChain (patchRaw rawData (offset + 28) 4 newSize) offset

/-! ## Slots -/

variable {buf buf' : Image} {pending name : Name} {raw : List Byte} {n i : Nat} {e : FatDirEntry}

lemma FatDirEntry.shortPart_congr {start : Nat} (h : ∀ k < start + n, buf' k = buf k) :
    FatDirEntry.shortPart buf' start n = FatDirEntry.shortPart buf start n := by
  have hbs : ((range n).map fun i => buf' (start + i))
      = (range n).map fun i => buf (start + i) := by
    apply map_congr_left
    intro i hi
    exact h (start + i) (Nat.add_lt_add_left (mem_range.mp hi) start)
  rw [shortPart, shortPart, hbs]

lemma FatDirEntry.shortName_congr (h : ∀ k < 28, buf' k = buf k) :
    FatDirEntry.shortName buf' = FatDirEntry.shortName buf := by
  have hname := @shortPart_congr buf buf' 8 0 fun k hk => h k (by omega)
  have hext := @shortPart_congr buf buf' 3 8 fun k hk => h k (by omega)
  rw [shortName, shortName, hname, hext]

lemma FatDirEntry.parse_size (h : ∀ k < 28, buf' k = buf k) (hattr : buf 11 ≠ 0x0F) :
    FatDirEntry.parse buf' = (FatDirEntry.parse buf).map fun e =>
      { e with size := le buf' 28 4 } := by
  have hhigh : le buf' 20 2 = le buf 20 2 := le_congr fun i hi => h (20 + i) (by omega)
  have hlow : le buf' 26 2 = le buf 26 2 := le_congr fun i hi => h (26 + i) (by omega)
  unfold parse
  rw [h 0 (by omega), h 11 (by omega), hhigh, hlow, shortName_congr h, if_neg hattr, if_neg hattr]
  split_ifs <;> rfl

lemma lfnChars_congr (h : ∀ k < 32, buf' k = buf k) : lfnChars buf' = lfnChars buf := by
  have hchars : lfnOffsets.map (fun o => le buf' o 2) = lfnOffsets.map fun o => le buf o 2 := by
    apply map_congr_left
    intro o ho
    have hbnd : ∀ o ∈ lfnOffsets, o ≤ 30 := by decide
    have := hbnd o ho
    exact le_congr fun i hi => h (o + i) (by omega)
  rw [lfnChars, lfnChars, hchars]

lemma readSlot_entry_iff : readSlot buf pending = .entry e ↔
    buf 0 ≠ 0 ∧ buf 11 ≠ 0x0F ∧ ∃ e', FatDirEntry.parse buf = some e' ∧
      e = if pending ≠ [] then { e' with name := pending } else e' := by
  unfold readSlot
  by_cases hstop : buf 0 = 0
  · rw [if_pos hstop]
    exact ⟨fun h => Slot.noConfusion h, fun h => absurd hstop h.1⟩
  rw [if_neg hstop]
  by_cases hlfn : buf 11 = 0x0F
  · rw [if_pos hlfn]
    exact ⟨fun h => Slot.noConfusion h, fun h => absurd hlfn h.2.1⟩
  rw [if_neg hlfn]
  cases FatDirEntry.parse buf with
  | none =>
    constructor
    · intro h
      cases h
    · rintro ⟨-, -, e', h, -⟩
      cases h
  | some e' =>
    constructor
    · intro h
      exact ⟨hstop, hlfn, e', rfl, (Slot.entry.inj h).symm⟩
    rintro ⟨-, -, e'', heq, rfl⟩
    cases heq
    rfl

lemma readSlot_congr (h : ∀ k < 32, buf' k = buf k) :
    readSlot buf' pending = readSlot buf pending := by
  have hpar : buf 11 ≠ 0x0F → FatDirEntry.parse buf' = FatDirEntry.parse buf := by
    intro hattr
    have hsize : le buf' 28 4 = le buf 28 4 := le_congr fun i hi => h (28 + i) (by omega)
    have hself := @FatDirEntry.parse_size buf buf (fun _ _ => rfl) hattr
    rw [FatDirEntry.parse_size (fun k hk => h k (by omega)) hattr, hsize, ← hself]
  unfold readSlot
  rw [h 0 (by omega), h 11 (by omega), lfnChars_congr h]
  by_cases hlfn : buf 11 = 0x0F
  · rw [if_pos hlfn, if_pos hlfn]
  · rw [hpar hlfn]

lemma readSlot_size (h : ∀ k < 28, buf' k = buf k) (hslot : readSlot buf pending = .entry e) :
    readSlot buf' pending = .entry { e with size := le buf' 28 4 } := by
  obtain ⟨hstop, hlfn, e', hpar, rfl⟩ := readSlot_entry_iff.mp hslot
  rw [readSlot_entry_iff, h 0 (by omega), h 11 (by omega), FatDirEntry.parse_size h hlfn, hpar]
  refine ⟨hstop, hlfn, _, rfl, ?_⟩
  split_ifs <;> rfl

/-! ## Scans -/

/-- The entries that `parse_dir_entries` lists, with the offsets of their slots. -/
def entrySlotsFrom (rawData : List Byte) : (n offset : Nat) → Name → List (FatDirEntry × Nat)
  | 0, _, _ => []
  | n + 1, offset, pendingLfn =>
    match readSlot (slotAt rawData offset) pendingLfn with
    | .stop => []
    | .lfn pendingLfn => entrySlotsFrom rawData n (offset + 32) pendingLfn
    | .entry e => (e, offset) :: entrySlotsFrom rawData n (offset + 32) []
    | .skip => entrySlotsFrom rawData n (offset + 32) []

lemma map_entrySlotsFrom :
    (entrySlotsFrom raw n i pending).map Prod.fst = parseDirEntriesFrom raw n i pending := by
  induction n generalizing i pending with
  | zero => rfl
  | succ n ih =>
    unfold entrySlotsFrom parseDirEntriesFrom
    cases readSlot (slotAt raw i) pending with
    | stop => rfl
    | lfn pending' => exact ih
    | skip => exact ih
    | entry e => exact congrArg (e :: ·) ih

lemma scanDirFrom_eq_find : scanDirFrom raw name n i pending
    = (entrySlotsFrom raw n i pending).find? fun x => x.1.name = name := by
  induction n generalizing i pending with
  | zero => rfl
  | succ n ih =>
    unfold scanDirFrom entrySlotsFrom
    cases readSlot (slotAt raw i) pending with
    | stop => rfl
    | lfn pending' => exact ih
    | skip => exact ih
    | entry e =>
      by_cases hname : e.name = name
      · simp [hname]
      · simp only [hname, if_false, find?_cons, decide_false]
        exact ih

lemma scanDir_eq_find :
    (scanDir raw name).map Prod.fst = (parseDirEntries raw).find? fun e => e.name = name := by
  rw [scanDir, scanDirFrom_eq_find, parseDirEntries, ← map_entrySlotsFrom, find?_map]
  rfl

def entrySlots (rawData : List Byte) : List (FatDirEntry × Nat) :=
  entrySlotsFrom rawData (rawData.length / 32) 0 []

/-- All scanners choose the slot of the first entry with the name. -/
theorem scanners_agree {bpb : FatBpb} {dirChain : List Nat} {d : Device} (name : Name)
    (newSize : Nat) (hraw : readRaw (bpb.sectors dirChain) d = (.ok raw, d)) :
    (entrySlots raw).map Prod.fst = parseDirEntries raw ∧
    ∃ found, found = (entrySlots raw).find? (fun x => x.1.name = name) ∧
      (found = none ↔ ∀ e ∈ parseDirEntries raw, e.name ≠ name) ∧
      findDirEntry bpb dirChain name d
        = (found.elim (.error (.err .notFound)) fun x => .ok (x.2, raw), d) ∧
      lookupDirEntry bpb dirChain name d
        = (found.elim (.error (.err .notFound)) fun x => .ok (x.1, x.2, raw), d) ∧
      updateDirEntrySize bpb dirChain name newSize d
        = found.elim (.error (.err .notFound), d) fun x =>
          flushSlot bpb dirChain (patchRaw raw (x.2 + 28) 4 newSize) x.2 d := by
  refine ⟨map_entrySlotsFrom, scanDir raw name, scanDirFrom_eq_find, ?_, ?_, ?_, ?_⟩
  · rw [← Option.map_eq_none_iff (f := Prod.fst), scanDir_eq_find, find?_eq_none]
    simp
  · unfold findDirEntry
    rw [FatM.bind_ok hraw]
    cases scanDir raw name <;> rfl
  · unfold lookupDirEntry
    rw [FatM.bind_ok hraw]
    cases scanDir raw name <;> rfl
  · unfold updateDirEntrySize
    rw [FatM.bind_ok hraw]
    cases scanDir raw name <;> rfl

/-- A first cluster with a deleted slot, a slot with the long name `b`, and the entry that the name
is for. -/
def threeSlots : Device :=
  ⟨fun a => (0xE5 :: replicate 31 0x20 ++ 0x41 :: 0x62 :: replicate 9 0 ++ 0x0F :: replicate 20 0 ++
    0x41 :: replicate 31 0x20).getD (a - 1536) 0, 10, []⟩

/-- The look-up of `b` finds the third slot. -/
theorem scanners_agree_threeSlots : ∃ raw e,
    readRaw ((FatBpb.layout .fat16 512 1 1 1 0 1 10 0 16).sectors [2]) threeSlots =
      (.ok raw, threeSlots) ∧
      lookupDirEntry (.layout .fat16 512 1 1 1 0 1 10 0 16) [2] ['b'] threeSlots
        = (.ok (e, 64, raw), threeSlots) ∧ e.name = ['b'] := by
  obtain ⟨-, found, hfound, -, -, hlookup, -⟩ :=
    @scanners_agree _ (.layout .fat16 512 1 1 1 0 1 10 0 16) [2] threeSlots ['b'] 5 rfl
  have hoffset : found.map Prod.snd = some 64 := by
    rw [hfound]
    decide +kernel
  obtain ⟨⟨e, offset⟩, rfl, rfl⟩ := Option.map_eq_some_iff.mp hoffset
  have hname := find?_some hfound.symm
  exact ⟨_, e, rfl, hlookup, of_decide_eq_true hname⟩

variable {offset k w o m : Nat}

lemma scanDirFrom_offset (h : scanDirFrom raw name n i pending = some (e, offset)) :
    ∃ k < n, offset = i + 32 * k := by
  induction n generalizing i pending with
  | zero => cases h
  | succ n ih =>
    have hlat : ∀ pending', scanDirFrom raw name n (i + 32) pending' = some (e, offset) →
        ∃ k < n + 1, offset = i + 32 * k := by
      intro pending' hrest
      obtain ⟨k, hk, rfl⟩ := ih hrest
      exact ⟨k + 1, by omega, by omega⟩
    unfold scanDirFrom at h
    cases hslot : readSlot (slotAt raw i) pending with
    | stop => simp [hslot] at h
    | lfn pending' => exact hlat pending' (by simpa [hslot] using h)
    | skip => exact hlat [] (by simpa [hslot] using h)
    | entry e' =>
      by_cases hname : e'.name = name
      · simp only [hslot, hname, if_true, Option.some.injEq, Prod.mk.injEq] at h
        exact ⟨0, by omega, by omega⟩
      · exact hlat [] (by simpa [hslot, hname] using h)

lemma getD_firstBytes (hk : k < n) : (firstBytes buf n).getD k 0 = buf k := by
  rw [firstBytes, getD_eq_getElem?_getD, getElem?_map, getElem?_range hk]
  rfl

lemma length_patchRaw : (patchRaw raw o m w).length = raw.length := by
  rw [patchRaw, firstBytes, length_map, length_range]

lemma slotAt_patchRaw (hk : i + k < raw.length) :
    slotAt (patchRaw raw o m w) i k = put (slotAt raw 0) o m w (i + k) :=
  getD_firstBytes hk

/-- A new size in the slot found does not change what the scan finds. -/
lemma scanDirFrom_patchRaw (hend : i + 32 * n ≤ raw.length)
    (h : scanDirFrom raw name n i pending = some (e, offset)) :
    scanDirFrom (patchRaw raw (offset + 28) 4 w) name n i pending
      = some ({ e with size := w % 2 ^ 32 }, offset) := by
  induction n generalizing i pending with
  | zero => cases h
  | succ n ih =>
    have hslotbyte : ∀ k < 32, slotAt (patchRaw raw (offset + 28) 4 w) i k
        = put (slotAt raw 0) (offset + 28) 4 w (i + k) :=
      fun k hk => slotAt_patchRaw (by omega)
    -- a slot in front of the one that is found is not changed
    have hbef : i + 32 ≤ offset → readSlot (slotAt (patchRaw raw (offset + 28) 4 w) i) pending
        = readSlot (slotAt raw i) pending := by
      intro hle
      apply readSlot_congr
      intro k hk
      rw [hslotbyte k hk, put_of_not_mem (by omega), slotAt, slotAt, Nat.zero_add]
    have hoff : ∀ pending', scanDirFrom raw name n (i + 32) pending' = some (e, offset) →
        i + 32 ≤ offset := by
      intro pending' hrest
      obtain ⟨k, -, rfl⟩ := scanDirFrom_offset hrest
      omega
    unfold scanDirFrom at h ⊢
    cases hslot : readSlot (slotAt raw i) pending with
    | stop => simp [hslot] at h
    | lfn pending' =>
      have hrest : scanDirFrom raw name n (i + 32) pending' = some (e, offset) := by
        simpa [hslot] using h
      rw [hbef (hoff pending' hrest), hslot]
      exact ih (by omega) hrest
    | skip =>
      have hrest : scanDirFrom raw name n (i + 32) [] = some (e, offset) := by
        simpa [hslot] using h
      rw [hbef (hoff [] hrest), hslot]
      exact ih (by omega) hrest
    | entry e' =>
      by_cases hname : e'.name = name
      · -- the slot that is found
        simp only [hslot, hname, if_true, Option.some.injEq, Prod.mk.injEq] at h
        obtain ⟨rfl, rfl⟩ := h
        have hsize : le (slotAt (patchRaw raw (i + 28) 4 w) i) 28 4 = w % 2 ^ 32 := by
          have hle : le (slotAt (patchRaw raw (i + 28) 4 w) i) 28 4
              = le (put (slotAt raw 0) (i + 28) 4 w) (i + 28) 4 := by
            apply le_congr
            intro k hk
            rw [hslotbyte (28 + k) (by omega), Nat.add_assoc]
          rw [hle, le_put, show 256 ^ 4 = 2 ^ 32 by norm_num]
        have hfst : ∀ k < 28, slotAt (patchRaw raw (i + 28) 4 w) i k = slotAt raw i k := by
          intro k hk
          rw [hslotbyte k (by omega), put_of_not_mem (by omega), slotAt, slotAt, Nat.zero_add]
        rw [readSlot_size hfst hslot, hsize]
        simp [hname]
      have hrest : scanDirFrom raw name n (i + 32) [] = some (e, offset) := by
        simpa [hslot, hname] using h
      rw [hbef (hoff [] hrest), hslot]
      simp only [hname, if_false]
      exact ih (by omega) hrest

lemma scanDir_patchRaw (h : scanDir raw name = some (e, offset)) :
    scanDir (patchRaw raw (offset + 28) 4 w) name =
      some ({ e with size := w % 2 ^ 32 }, offset) := by
  unfold scanDir at h ⊢
  rw [length_patchRaw]
  exact scanDirFrom_patchRaw (by omega) h

/-! ## The update on the disk -/

lemma contents_put {b : Image} {S : List Nat} {a v : Nat} (hS : S.Nodup) (ha : place S o = some a)
    (hsector : o % 512 + m ≤ 512) :
    contents (put b a m v) S n = patchRaw (contents b S n) o m v := by
  have hplc : ∀ k < m, place S (o + k) = some (a + k) :=
    fun k hk => place_add ha (by omega)
  unfold patchRaw firstBytes
  rw [length_contents]
  apply map_congr_left
  intro j hj
  have hraw : slotAt (contents b S n) 0 j = linear b S j := by
    rw [slotAt, Nat.zero_add, getD_eq_getElem?_getD, getElem?_contents (mem_range.mp hj)]
    rfl
  rw [put, hraw, linear]
  by_cases hin : o ≤ j ∧ j < o + m
  · obtain ⟨k, rfl⟩ := Nat.exists_eq_add_of_le hin.1
    rw [if_pos hin, hplc k (by omega), Option.elim_some, put, if_pos (by omega)]
    congr 1
    omega
  rw [if_neg hin, linear]
  cases hj' : place S j with
  | none => rfl
  | some x =>
    rw [Option.elim_some, Option.elim_some, put_of_not_mem]
    by_contra hx
    obtain ⟨k, rfl⟩ := Nat.exists_eq_add_of_le (show a ≤ x by omega)
    have := place_injective hS hj' (hplc k (by omega))
    omega

lemma FatBpb.sectors_getElem? {bpb : FatBpb} (hspc : 0 < bpb.sectorsPerCluster) (chain : List Nat)
    (q : Nat) : (bpb.sectors chain)[q]? = chain[q / bpb.sectorsPerCluster]?.map fun c =>
      bpb.clusterToSector c + q % bpb.sectorsPerCluster := by
  induction chain generalizing q with
  | nil => rfl
  | cons c chain ih =>
    have hlen : (bpb.clusterSectors c).length = bpb.sectorsPerCluster := by
      rw [clusterSectors, length_map, length_range]
    rw [sectors_cons]
    by_cases hq : q < bpb.sectorsPerCluster
    · rw [getElem?_append_left (hlen ▸ hq), Nat.div_eq_of_lt hq, Nat.mod_eq_of_lt hq,
        clusterSectors, getElem?_map, getElem?_range hq]
      rfl
    obtain ⟨r, rfl⟩ := Nat.exists_eq_add_of_le' (Nat.le_of_not_lt hq)
    rw [getElem?_append_right (hlen ▸ Nat.le_add_left ..), hlen, Nat.add_sub_cancel, ih,
      Nat.add_div_right _ hspc, Nat.add_mod_right]
    rfl

variable {bpb : FatBpb} {d : Device} {dirChain : List Nat}

def FatBpb.dirData (bpb : FatBpb) (b : Image) (dirChain : List Nat) : List Byte :=
  contents b (bpb.sectors dirChain) (512 * (bpb.sectors dirChain).length)

lemma scanDir_offset (h : scanDir raw name = some (e, offset)) :
    32 ∣ offset ∧ offset + 32 ≤ raw.length := by
  obtain ⟨k, hk, rfl⟩ := scanDirFrom_offset h
  exact ⟨⟨k, by omega⟩, by omega⟩

lemma flushSlot_ok (h : bpb.Sound d.count) {s : Nat}
    (hs : (bpb.sectors dirChain)[offset / 512]? = some s) (raw : List Byte) (hcnt : s < d.count) :
    flushSlot bpb dirChain raw offset d
      = (.ok (), d.after [(s, slotAt raw (512 * (offset / 512)))]) := by
  rw [FatBpb.sectors_getElem? h.spc] at hs
  obtain ⟨c, hc, rfl⟩ := Option.map_eq_some_iff.mp hs
  have hidx : offset / bpb.bytesPerCluster = offset / 512 / bpb.sectorsPerCluster := by
    rw [h.bytesPerCluster, Nat.div_div_eq_div_mul]
  have hsector : offset % bpb.bytesPerCluster / 512 = offset / 512 % bpb.sectorsPerCluster := by
    rw [h.bytesPerCluster, Nat.mod_mul_right_div_self]
  have hst : offset / 512 / bpb.sectorsPerCluster * bpb.bytesPerCluster
      + offset / 512 % bpb.sectorsPerCluster * 512 = 512 * (offset / 512) := by
    have hspl := Nat.div_add_mod (offset / 512) bpb.sectorsPerCluster
    rw [h.bytesPerCluster]
    calc _ = 512 * (bpb.sectorsPerCluster * (offset / 512 / bpb.sectorsPerCluster)
          + offset / 512 % bpb.sectorsPerCluster) := by ring
      _ = 512 * (offset / 512) := by rw [hspl]
  unfold flushSlot
  rw [hidx, hc, hsector, hst]
  exact writeSector_ok hcnt

lemma updateDirEntrySize_ok (h : bpb.Sound d.count) (hin : ∀ c ∈ dirChain, bpb.IsCluster c)
    {offset v : Nat} (hscan : scanDir (bpb.dirData d.bytes dirChain) name = some (e, offset)) :
    ∃ a w, place (bpb.sectors dirChain) (offset + 28) = some a ∧
      updateDirEntrySize bpb dirChain name v d = (.ok (), d.after [w]) ∧
      w.1 ∈ bpb.sectors dirChain ∧ storeAt d.bytes w.1 w.2 = put d.bytes a 4 v := by
  obtain ⟨hslot, hend⟩ := scanDir_offset hscan
  rw [FatBpb.dirData, length_contents] at hend
  have hq : offset / 512 < (bpb.sectors dirChain).length := by omega
  obtain ⟨s, hs⟩ : ∃ s, (bpb.sectors dirChain)[offset / 512]? = some s :=
    ⟨_, getElem?_eq_getElem hq⟩
  have hmem := mem_of_getElem? hs
  have hflush := flushSlot_ok h hs (patchRaw (bpb.dirData d.bytes dirChain) (offset + 28) 4 v)
    (h.sectors_lt_count hin s hmem)
  refine ⟨512 * s + (offset % 512 + 28), (s, slotAt (patchRaw (bpb.dirData d.bytes dirChain)
    (offset + 28) 4 v) (512 * (offset / 512))), ?_, ?_, hmem, ?_⟩
  · have hdiv : (offset + 28) / 512 = offset / 512 := by omega
    have hmod : (offset + 28) % 512 = offset % 512 + 28 := by omega
    rw [place, hdiv, hs, hmod]
    rfl
  · unfold updateDirEntrySize
    rw [FatM.bind_ok (readRaw_ok (h.sectors_lt_count hin))]
    unfold FatBpb.dirData at hscan hflush
    rw [hscan]
    exact hflush
  funext x
  by_cases hx : x / 512 = s
  · -- the sector holds what the raw data have at its place
    have hraw : slotAt (bpb.dirData d.bytes dirChain) 0 (512 * (offset / 512) + x % 512)
        = d.bytes x := by
      have hdiv : (512 * (offset / 512) + x % 512) / 512 = offset / 512 := by omega
      have hmod : (512 * (offset / 512) + x % 512) % 512 = x % 512 := by omega
      rw [slotAt, Nat.zero_add, getD_eq_getElem?_getD, FatBpb.dirData,
        getElem?_contents (by omega), linear, place, hdiv, hs, hmod]
      show d.bytes (512 * s + x % 512) = d.bytes x
      congr 1
      omega
    have hbyte : 512 * (offset / 512) + x % 512 < (bpb.dirData d.bytes dirChain).length := by
      rw [FatBpb.dirData, length_contents]
      omega
    have hrg : (offset + 28 ≤ 512 * (offset / 512) + x % 512 ∧
        512 * (offset / 512) + x % 512 < offset + 28 + 4)
        ↔ (512 * s + (offset % 512 + 28) ≤ x ∧ x < 512 * s + (offset % 512 + 28) + 4) := by
      omega
    have hidx : 512 * (offset / 512) + x % 512 - (offset + 28)
        = x - (512 * s + (offset % 512 + 28)) := by
      omega
    rw [sectorAt_storeAt hx]
    dsimp only
    rw [slotAt_patchRaw hbyte, put, put, hraw]
    simp only [hrg, hidx]
  · rw [storeAt, if_neg hx, put_of_not_mem]
    omega

end Indominus.Fat
