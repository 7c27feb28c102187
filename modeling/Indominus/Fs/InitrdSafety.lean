import Mathlib.Tactic.Ring
import Indominus.Fs.InitrdBuilders

/-! # The initrd parser on arbitrary data -/

namespace Indominus.Fs.Initrd

open Memory List RamDirHandle

variable {data : List Byte} {offset n : Nat} {name : Name}

/-- The offsets that the loop of `load_initrd` comes to. -/
inductive Visited (data : List Byte) : Nat → Prop
  | start : Visited data 0
  | next {offset next : Nat} (h : Visited data offset)
      (hnext : (itemAt data offset).next? = some next) :
      Visited data next

/-- A path is a part of the archive without `..`, and the contents of a file are the bytes behind
it, as many as the header says. -/
def Item.Archived (data : List Byte) (offset : Nat) : Item → Prop
  | .dir path _ => ¬ ['.', '.'] <:+: path ∧
      ∃ n, offset + 110 + n ≤ data.length ∧ RamDirHandle.utf8 path = slice data (offset + 110) n
  | .file path contents _ => ¬ ['.', '.'] <:+: path ∧
      parseHex8 data (offset + 54) = some contents.length ∧
      ∃ namesize, parseHex8 data (offset + 94) = some namesize ∧
        offset + 110 + namesize ≤ data.length ∧
        RamDirHandle.utf8 path = slice data (offset + 110) (namesize - 1) ∧
        contents = slice data (offset + 110 + align4 namesize) contents.length
  | _ => True

/-- The sums of a round are `usize`s, and the ranges that it indexes are in the data: the header,
the name with its NUL, and the contents. -/
structure RoundSafe (data : List Byte) (offset : Nat) : Prop where
  start : offset + 110 < 2 ^ 64
  sizes : ∀ namesize filesize, parseHex8 data (offset + 94) = some namesize →
    parseHex8 data (offset + 54) = some filesize → namesize ≤ 4096 →
    offset + 110 + align4 namesize + (filesize + 3) < 2 ^ 64
  ranges : ∀ h, parseHeader data offset = some h → 0 < h.namesize ∧
    offset + 110 + h.namesize ≤ data.length ∧
    offset + 110 + align4 h.namesize + h.filesize ≤ data.length
  item : (itemAt data offset).Archived data offset
  progress : ∀ next, (itemAt data offset).next? = some next → offset < next

lemma foldl_hexDigit_lt {l : List Byte} {ds : List Nat} (h : l.mapM hexDigit = some ds) (n : Nat) :
    ds.foldl (fun n d => 16 * n + d) n < (n + 1) * 16 ^ l.length := by
  induction l generalizing ds n with
  | nil =>
    cases h
    simp
  | cons b l ih =>
    simp only [mapM_cons, Option.bind_eq_bind, Option.bind_eq_some_iff, Option.pure_def,
      Option.some.injEq] at h
    obtain ⟨d, hd, ds, hds, rfl⟩ := h
    have hlt : d < 16 := by
      unfold hexDigit at hd
      split_ifs at hd <;> cases hd <;> omega
    calc _ < (16 * n + d + 1) * 16 ^ l.length := ih hds (16 * n + d)
      _ ≤ (n + 1) * 16 * 16 ^ l.length := Nat.mul_le_mul_right _ (by omega)
      _ = (n + 1) * 16 ^ (l.length + 1) := by ring

lemma parseHex8_lt (h : parseHex8 data offset = some n) : n < 2 ^ 32 := by
  unfold parseHex8 at h
  split_ifs at h with hshort
  obtain ⟨ds, hds, rfl⟩ := Option.map_eq_some_iff.mp h
  have hlen : (slice data offset 8).length = 8 := by
    rw [slice, length_take, length_drop]
    omega
  have hlt := foldl_hexDigit_lt hds 0
  rw [hlen] at hlt
  exact hlt

lemma align4_le (n : Nat) : align4 n ≤ n + 3 := Nat.div_mul_le_self ..

lemma utf8_of_fromUtf8 {bytes : List Byte} (h : fromUtf8 bytes = some name) :
    utf8 name = bytes := by
  obtain ⟨chars, hchars, rfl⟩ := Option.map_eq_some_iff.mp h
  have hencode := @ByteArray.utf8Encode_get_utf8Decode? _ (Option.isSome_of_eq_some hchars)
  have hbytes := congrArg (fun b : ByteArray => b.data.toList.map UInt8.toBitVec) hencode
  simp only [hchars, Option.get_some, utf8Encode, data_toByteArray, map_flatMap] at hbytes
  rw [utf8, hbytes, map_map]
  exact map_id bytes

/-- What the reader returns lies in the archive. -/
lemma itemAt_spec (data : List Byte) (offset : Nat) : (itemAt data offset).Archived data offset ∧
    ∀ next, (itemAt data offset).next? = some next → next ≤ data.length + 3 := by
  unfold itemAt
  split_ifs with hshort
  · exact ⟨trivial, fun next hnext => by cases hnext⟩
  · refine ⟨trivial, fun next hnext => ?_⟩
    cases hnext
    omega
  cases hpar : parseHeader data offset with
  | none => exact ⟨trivial, fun next hnext => by cases hnext⟩
  | some h =>
    obtain ⟨hn, hm, hpos, hend, hstop, hh⟩ := parseHeader_cases hpar
    have hle : ∀ next, some h.next = some next → next ≤ data.length + 3 := by
      intro next hnext
      have hpad := align4_le h.filesize
      cases hnext
      omega
    dsimp only
    cases hname : fromUtf8 (slice data (offset + 110) (h.namesize - 1)) with
    | none => exact ⟨trivial, hle⟩
    | some name =>
      have hutf8 := utf8_of_fromUtf8 hname
      dsimp only
      split_ifs with htrailer hdots hslash
      · exact ⟨trivial, fun next hnext => by cases hnext⟩
      · exact ⟨trivial, hle⟩
      · obtain ⟨path, rfl⟩ := getLast?_eq_some_iff.mp hslash
        rw [dropLast_concat]
        refine ⟨⟨fun hin => hdots (decide_eq_true (hin.trans (infix_append' [] path ['/']))),
          h.namesize - 1 - 1, by omega, ?_⟩, hle⟩
        have hdrop := congrArg dropLast hutf8
        rw [utf8, flatMap_append, slice, dropLast_take (by rw [length_drop]; omega)] at hdrop
        exact (dropLast_concat ..).symm.trans hdrop
      · have hlen : (slice data (offset + 110 + align4 h.namesize) h.filesize).length =
          h.filesize := by
          rw [slice, length_take, length_drop]
          omega
        refine ⟨⟨fun hin => hdots (decide_eq_true hin), ?_, h.namesize, hn, hend, hutf8, ?_⟩, hle⟩
        · rw [hlen, hm]
        · rw [hlen]

lemma Visited.le (h : Visited data offset) : offset ≤ data.length + 3 := by
  cases h with
  | start => omega
  | next _ hnext => exact (itemAt_spec data _).2 offset hnext

/-- **The parser on any data.**  Each round stays inside the data, passes on only what is there, and
goes forward. -/
theorem loadInitrd_safe (hdata : data.length < 2 ^ 63) (h : Visited data offset) :
    RoundSafe data offset := by
  have hle := h.le
  refine ⟨by omega, ?_, ?_, (itemAt_spec data offset).1, fun next hnext => (itemAt_next hnext).1⟩
  · intro namesize filesize _ hfile hsize
    have hlt := parseHex8_lt hfile
    have hpad := align4_le namesize
    omega
  · intro h hpar
    obtain ⟨-, -, hpos, hend, hstop, -⟩ := parseHeader_cases hpar
    exact ⟨hpos, hend, hstop⟩

def twoFiles : Listing := .file ['a'] [1, 2, 3] (.file ['b'] [4] .empty)

lemma buildInitrd_twoFiles : buildInitrd twoFiles = buildEntry ['a'] [1, 2, 3] 0o100644 false ++
    (buildEntry ['b'] [4] 0o100644 false ++ buildTrailer) := by
  have hsorted : sortedBy Prod.fst twoFiles.files = [(['a'], [1, 2, 3]), (['b'], [4])] :=
    mergeSort_of_pairwise (by decide)
  have hsubdirs : sortedBy Prod.fst twoFiles.subdirs = [] := mergeSort_nil
  have hbelow : buildBelow [] twoFiles = [] := rfl
  simp [buildInitrd, buildVisit, fileEntries, dirEntries, hsorted, hsubdirs, hbelow,
    ownEntry, slashes, joinName]

/-- The second round on an archive of two files. -/
theorem loadInitrd_safe_twoFiles : Visited (buildInitrd twoFiles) 118 ∧
    itemAt (buildInitrd twoFiles) 118 = .file ['b'] [4] 236 ∧
    RoundSafe (buildInitrd twoFiles) 118 := by
  have hvisited : Visited (buildInitrd twoFiles) 118 := .next .start (by
    rw [buildInitrd_twoFiles]
    decide +kernel)
  refine ⟨hvisited, ?_, loadInitrd_safe ?_ hvisited⟩
  · rw [buildInitrd_twoFiles]
    decide +kernel
  · rw [buildInitrd_twoFiles]
    decide +kernel

end Indominus.Fs.Initrd
