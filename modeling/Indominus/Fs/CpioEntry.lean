import Indominus.Fs.InitrdBuilders

/-! # One cpio entry, written and read -/

namespace Indominus.Fs.Initrd

open Memory List RamDirHandle

/-! ## Slices -/

lemma slice_append (pre rest : List Byte) (k n : Nat) :
    slice (pre ++ rest) (pre.length + k) n = slice rest k n := by
  rw [slice, slice, ← drop_drop, drop_left]

variable {n k : Nat} {a b header contents : List Byte} {name : Name}

lemma slice_mid {x : List Byte} (ha : a.length = k) (hx : x.length = n) :
    slice (a ++ (x ++ b)) k n = x := by
  subst ha hx
  rw [slice, drop_left, take_left]

lemma slice_left (h : k + n ≤ a.length) : slice (a ++ b) k n = slice a k n := by
  rw [slice, slice, drop_append_of_le_length (by omega),
    take_append_of_le_length (by rw [length_drop]; omega)]

/-! ## Hexadecimal fields -/

lemma length_hex08 (h : n < 2 ^ 32) : (hex08 n).length = 8 := by
  have hdigits : (Nat.digits 16 n).length ≤ 8 :=
    (Nat.digits_length_le_iff (by omega) n).mpr (by omega)
  rw [hex08, length_map, length_leftpad, length_reverse]
  omega

lemma hexDigit_hexChar {d : Nat} (h : d < 16) : hexDigit (hexChar d) = some d := by
  interval_cases d <;> rfl

lemma mapM_hexDigit (ds : List Nat) (h : ∀ d ∈ ds, d < 16) :
    (ds.map hexChar).mapM hexDigit = some ds := by
  induction ds with
  | nil => rfl
  | cons d ds ih =>
    have hd := hexDigit_hexChar (h d (mem_cons_self ..))
    have hrest := ih fun d' hd' => h d' (mem_cons_of_mem d hd')
    rw [map_cons, mapM_cons, hd, hrest]
    rfl

lemma foldl_digits (n k : Nat) :
    ((Nat.digits 16 n).reverse.leftpad k 0).foldl (fun n d => 16 * n + d) 0 = n := by
  have hzeros : ∀ m, (replicate m 0).foldl (fun n d => 16 * n + d) 0 = 0 := by
    intro m
    induction m with
    | zero => rfl
    | succ m ih => rw [replicate_succ, foldl_cons]; exact ih
  rw [leftpad, foldl_append, hzeros]
  have hvalue := Nat.ofDigits_digits 16 n
  rw [Nat.ofDigits_eq_foldr] at hvalue
  simpa [Nat.add_comm] using hvalue

lemma parseHex8_hex08 (ha : a.length = k) (hn : n < 2 ^ 32) :
    parseHex8 (a ++ (hex08 n ++ b)) k = some n := by
  have hlen := length_hex08 hn
  have hdigits : ∀ d ∈ (Nat.digits 16 n).reverse.leftpad 8 0, d < 16 := by
    intro d hd
    rw [leftpad, mem_append, mem_replicate, mem_reverse] at hd
    rcases hd with ⟨-, rfl⟩ | hd
    · omega
    · exact Nat.digits_lt_base (by omega) hd
  rw [parseHex8, if_neg (by rw [length_append, length_append]; omega),
    slice_mid ha hlen, hex08, mapM_hexDigit _ hdigits, Option.map_some, foldl_digits]

/-! ## Names -/

lemma fromUtf8_utf8 (name : Name) : fromUtf8 (utf8 name) = some name := by
  have hbs : (utf8 name).map UInt8.ofBitVec
      = name.flatMap String.utf8EncodeChar := by
    rw [utf8, map_flatMap]
    congr 1
    funext c
    rw [map_map]
    exact map_id _
  have harray : ByteArray.mk (name.flatMap String.utf8EncodeChar).toArray = name.utf8Encode := by
    apply ByteArray.ext
    exact data_toByteArray.symm
  rw [fromUtf8, hbs, harray, utf8Decode?_utf8Encode]
  rfl

lemma encodeAscii_eq (h : ∀ c ∈ name, c.toNat < 128) :
    encodeAscii name = some (utf8 name) := by
  rw [encodeAscii, if_pos (by simpa using h), utf8]
  congr 1
  induction name with
  | nil => rfl
  | cons c name ih =>
    have hc := h c (mem_cons_self ..)
    have hchar : String.utf8EncodeChar c = [UInt8.ofNat c.toNat] := by
      have hle : c.toNat ≤ 127 := by omega
      simp [String.utf8EncodeChar, hle]
    rw [map_cons, flatMap_cons, ih fun c' hc' => h c' (mem_cons_of_mem c hc'),
      hchar]
    rfl

lemma length_utf8_ascii (h : ∀ c ∈ name, c.toNat < 128) :
    (utf8 name).length = name.length := by
  have hasc := encodeAscii_eq h
  rw [encodeAscii, if_pos (by simpa using h)] at hasc
  rw [← Option.some_injective _ hasc, length_map]

/-! ## The place of an entry -/

/-- What is found at an offset that is `k` further on. -/
def Item.shift (k : Nat) : Item → Item
  | .done => .done
  | .skip next => .skip (k + next)
  | .dir name next => .dir name (k + next)
  | .file name contents next => .file name contents (k + next)

lemma parseHex8_append (pre rest : List Byte) (k : Nat) :
    parseHex8 (pre ++ rest) (pre.length + k) = parseHex8 rest k := by
  rw [parseHex8, parseHex8, slice_append, length_append, Nat.add_assoc]
  simp

lemma parseHeader_append (pre rest : List Byte) :
    parseHeader (pre ++ rest) pre.length
      = (parseHeader rest 0).map fun h => { h with next := pre.length + h.next } := by
  have hslice := slice_append pre rest 0
  have hget : ∀ k, (pre ++ rest).getD (pre.length + k) 0 = rest.getD k 0 := by
    intro k
    rw [getD_append_right _ _ _ _ (by omega), Nat.add_sub_cancel_left]
  rw [Nat.add_zero] at hslice
  have hlen : ∀ k, (pre ++ rest).length < pre.length + k ↔ rest.length < k := by
    intro k
    rw [length_append]
    omega
  unfold parseHeader
  simp only [hslice, parseHex8_append, hlen, Nat.add_assoc, Nat.zero_add]
  rw [apply_ite (Option.map _), apply_ite (Option.map _)]
  refine if_congr .rfl rfl (if_congr .rfl rfl ?_)
  cases parseHex8 rest 94 with
  | none => rfl
  | some n =>
    cases parseHex8 rest 54 with
    | none => rfl
    | some m =>
      simp only [Option.bind_some]
      by_cases hn : n = 0 ∨ 4096 < n
      · simp [hn]
      rw [Nat.add_sub_assoc (by omega), hget]
      split_ifs <;> rfl

lemma itemAt_append (pre rest : List Byte) :
    itemAt (pre ++ rest) pre.length = (itemAt rest 0).shift pre.length := by
  have hslice := slice_append pre rest 0
  rw [Nat.add_zero] at hslice
  have hlen : (pre ++ rest).length < pre.length + 110 ↔ rest.length < 0 + 110 := by
    rw [length_append]
    omega
  unfold itemAt
  simp only [hslice, hlen, parseHeader_append]
  split_ifs with hsh hzero
  · rfl
  · rfl
  cases parseHeader rest 0 with
  | none => rfl
  | some h =>
    simp only [Option.map_some, slice_append, Nat.add_assoc, Nat.zero_add]
    cases fromUtf8 (slice rest 110 (h.namesize - 1)) with
    | none => rfl
    | some name =>
      dsimp only
      split_ifs <;> rfl

/-! ## Entries -/

/-- A header with the sizes of a name and of the contents. -/
structure IsHeader (header : List Byte) (namesize filesize : Nat) : Prop where
  length : header.length = 110
  magic : slice header 0 6 = magic
  name : parseHex8 header 94 = some namesize
  file : parseHex8 header 54 = some filesize

def Item.of (name : Name) (contents : List Byte) (next : Nat) : Item :=
  if name = trailer then .done
  else if hasDotDot name then .skip next
  else if name.getLast? = some '/' then .dir name.dropLast next
  else .file name contents next

def entryBytes (header : List Byte) (name : Name) (contents : List Byte) : List Byte :=
  header ++ padded (RamDirHandle.utf8 name ++ [0]) ++ padded contents

lemma le_align4 (n : Nat) : n ≤ align4 n := by
  unfold align4
  omega

lemma length_padded (bytes : List Byte) : (padded bytes).length = align4 bytes.length := by
  have := le_align4 bytes.length
  rw [padded, length_append, length_replicate]
  omega

lemma parseHex8_left (h : parseHex8 a k = some n) : parseHex8 (a ++ b) k = some n := by
  unfold parseHex8 at h ⊢
  split_ifs at h with hlen
  rw [if_neg (by rw [length_append]; omega), slice_left (by omega), h]

section

variable (hhd : IsHeader header ((utf8 name).length + 1) contents.length)
  (hname : (utf8 name).length + 1 ≤ 4096)

include hhd hname

lemma parseHeader_entry (post : List Byte) :
    parseHeader (entryBytes header name contents ++ post) 0 = some ⟨(utf8 name).length + 1,
      contents.length, (entryBytes header name contents).length⟩ := by
  have hlen : (entryBytes header name contents).length
      = 110 + align4 ((utf8 name).length + 1) + align4 contents.length := by
    rw [entryBytes, length_append, length_append, length_padded, length_padded,
      hhd.length, length_append, length_singleton]
  have hname' := le_align4 ((utf8 name).length + 1)
  have hcon := le_align4 contents.length
  have hall : (entryBytes header name contents ++ post).length
      = (entryBytes header name contents).length + post.length := length_append
  have hmagic : slice (entryBytes header name contents ++ post) 0 6 = magic := by
    rw [entryBytes, append_assoc, append_assoc,
      slice_left (by rw [hhd.length]; omega), hhd.magic]
  -- the last byte of the name
  have hnul : (entryBytes header name contents ++ post).getD
      (110 + (utf8 name).length) 0 = 0 := by
    rw [entryBytes, padded, append_assoc, append_assoc, append_assoc,
      append_assoc, ← hhd.length, getD_append_right _ _ _ _ (by omega),
      Nat.add_sub_cancel_left, getD_append_right _ _ _ _ le_rfl, Nat.sub_self]
    rfl
  unfold parseHeader
  rw [if_neg (by omega), if_neg (by simp [hmagic])]
  have hnamesize : parseHex8 (entryBytes header name contents ++ post) (0 + 94)
      = some ((utf8 name).length + 1) := by
    rw [entryBytes, append_assoc, append_assoc]
    exact parseHex8_left hhd.name
  have hfilesize : parseHex8 (entryBytes header name contents ++ post) (0 + 54)
      = some contents.length := by
    rw [entryBytes, append_assoc, append_assoc]
    exact parseHex8_left hhd.file
  simp only [hnamesize, hfilesize, Option.bind_some]
  rw [if_neg (by omega), if_neg (by omega), if_neg (by omega)]
  have hidx : 0 + 110 + ((utf8 name).length + 1) - 1
      = 110 + (utf8 name).length := by omega
  rw [hidx, hnul, if_neg (by simp), hlen]

/-- The reader gets name and contents back from an entry that was written. -/
lemma itemAt_entry (post : List Byte) : itemAt (entryBytes header name contents ++ post) 0 =
    .of name contents (entryBytes header name contents).length := by
  have hlen : (entryBytes header name contents ++ post).length
      = 110 + (padded (utf8 name ++ [0])).length + (padded contents).length
        + post.length := by
    rw [entryBytes, length_append, length_append, length_append, hhd.length]
  have hmagic : slice (entryBytes header name contents ++ post) 0 6 = magic := by
    rw [entryBytes, append_assoc, append_assoc,
      slice_left (by rw [hhd.length]; omega), hhd.magic]
  have hutf8 : slice (entryBytes header name contents ++ post) (0 + 110)
      ((utf8 name).length + 1 - 1) = utf8 name := by
    rw [entryBytes, padded, append_assoc, append_assoc, append_assoc,
      append_assoc]
    exact slice_mid hhd.length rfl
  have hcon : slice (entryBytes header name contents ++ post)
      (0 + 110 + align4 ((utf8 name).length + 1)) contents.length = contents := by
    have hfront : (header ++ padded (utf8 name ++ [0])).length
        = 0 + 110 + align4 ((utf8 name).length + 1) := by
      rw [length_append, length_padded, hhd.length, length_append,
        length_singleton]
    have hspl : entryBytes header name contents ++ post
        = (header ++ padded (utf8 name ++ [0])) ++ (contents ++
          (replicate (align4 contents.length - contents.length) 0 ++ post)) := by
      rw [entryBytes, padded, padded]
      simp
    rw [hspl]
    exact slice_mid hfront rfl
  unfold itemAt
  rw [if_neg (by omega), if_neg (by rw [hmagic]; decide), parseHeader_entry hhd hname]
  dsimp only
  rw [hutf8, fromUtf8_utf8, hcon]
  rfl

end

/-! ## Both scripts -/

lemma length_flatMap_hex08 (vals : List Nat) (h : ∀ n ∈ vals, n < 2 ^ 32) :
    (vals.flatMap hex08).length = vals.length * 8 := by
  induction vals with
  | nil => rfl
  | cons n vals ih =>
    have hn := length_hex08 (h n (mem_cons_self ..))
    have hrest := ih fun m hm => h m (mem_cons_of_mem n hm)
    rw [flatMap_cons, length_append, length_cons]
    omega

/-- The magic and thirteen fields; the seventh is the size of the contents and the twelfth the size
of the name. -/
def headerOf (before : List Nat) (filesize : Nat) (between : List Nat) (namesize last : Nat) :
    List Byte :=
  magic ++ (before.flatMap hex08 ++ (hex08 filesize ++ (between.flatMap hex08
    ++ (hex08 namesize ++ hex08 last))))

lemma isHeader_headerOf {before between : List Nat} {namesize filesize last : Nat}
    (hbef : before.length = 6) (hbetween : between.length = 4)
    (hfields : ∀ n ∈ before ++ between, n < 2 ^ 32) (hname : namesize < 2 ^ 32)
    (hfile : filesize < 2 ^ 32) (hlast : last < 2 ^ 32) :
    IsHeader (headerOf before filesize between namesize last) namesize filesize := by
  have hb := length_flatMap_hex08 before fun n hn => hfields n (mem_append_left _ hn)
  have hm := length_flatMap_hex08 between fun n hn => hfields n (mem_append_right _ hn)
  have hmagic : magic.length = 6 := rfl
  refine ⟨?_, ?_, ?_, ?_⟩
  · simp only [headerOf, length_append, hb, hm, length_hex08 hname, length_hex08 hfile,
      length_hex08 hlast]
    omega
  · rfl
  · have hfront : (magic ++ (before.flatMap hex08 ++ (hex08 filesize
        ++ between.flatMap hex08))).length = 94 := by
      simp only [length_append, hb, hm, length_hex08 hfile]
      omega
    have hfield := parseHex8_hex08 (b := hex08 last) hfront hname
    simpa only [headerOf, append_assoc] using hfield
  have hfront : (magic ++ before.flatMap hex08).length = 54 := by
    simp only [length_append, hb]
    omega
  have hfield := parseHex8_hex08
    (b := between.flatMap hex08 ++ (hex08 namesize ++ hex08 last)) hfront hfile
  simpa only [headerOf, append_assoc] using hfield

def IsEntry (name : Name) (contents bytes : List Byte) : Prop :=
  ∃ header, IsHeader header ((RamDirHandle.utf8 name).length + 1) contents.length ∧
    bytes = entryBytes header name contents

lemma isEntry_buildEntry {data : List Byte} {mode : Nat} {isDir : Bool}
    (hname : (utf8 name).length + 1 ≤ 4096) (hdata : data.length < 2 ^ 32)
    (hmode : mode < 2 ^ 32) :
    IsEntry name (if isDir then [] else data) (buildEntry name data mode isDir) := by
  have hcon : (if isDir then [] else data).length < 2 ^ 32 := by
    cases isDir
    · exact hdata
    · simp
  have hmode' : (if isDir then 0o040755 else mode) < 2 ^ 32 := by
    cases isDir
    · exact hmode
    · simp
  have hnul : (utf8 name ++ [0]).length = (utf8 name).length + 1 := by
    rw [length_append, length_singleton]
  refine ⟨headerOf [0, if isDir then 0o040755 else mode, 0, 0, 1, 0]
    (if isDir then [] else data).length [0, 0, 0, 0] ((utf8 name).length + 1) 0,
    isHeader_headerOf rfl rfl ?_ (by omega) hcon (by omega), ?_⟩
  · simpa using hmode'
  have hex8_eq : ∀ n < 2 ^ 32, hex8 n = hex08 n := by
    intro n hn
    rw [hex8, Nat.mod_eq_of_lt hn]
  simp only [buildEntry, entryBytes, headerOf, hnul, hex8_eq _ hmode', hex8_eq _ hcon,
    hex8_eq _ (show (utf8 name).length + 1 < 2 ^ 32 by omega),
    hex8_eq 0 (by omega), hex8_eq 1 (by omega), flatMap_cons, flatMap_nil,
    append_nil, append_assoc]

lemma cpioNewcEntry_eq (name : Name) {nameStr : Name} (data : List Byte) (isDir : Bool)
    (hstr : nameStr = if isDir then name.rdropWhile (· = '/') ++ ['/'] else name)
    (hasc : ∀ c ∈ nameStr, c.toNat < 128) (hname : (utf8 nameStr).length + 1 ≤ 4096)
    (hdata : data.length < 2 ^ 32) :
    ∃ bytes, cpioNewcEntry name data isDir = some bytes ∧
      IsEntry nameStr (if isDir then [] else data) bytes := by
  have hcon : (if isDir then [] else data).length < 2 ^ 32 := by
    cases isDir
    · exact hdata
    · simp
  have hlen := length_utf8_ascii hasc
  refine ⟨_, ?_, headerOf [0, 0, if isDir then 0x41fd else 0x81a4, 0, 0, 1]
    (if isDir then [] else data).length [0, 0, if isDir then 4 else 0, 0]
    ((utf8 nameStr).length + 1) 0,
    isHeader_headerOf rfl rfl ?_ (by omega) hcon (by omega), rfl⟩
  · have hnul : (utf8 nameStr ++ [0]).length = nameStr.length + 1 := by
      rw [length_append, length_singleton, hlen]
    unfold cpioNewcEntry
    rw [← hstr]
    simp only [encodeAscii_eq hasc, Option.map_some, entryBytes, headerOf, padded, hnul, hlen,
      flatMap_cons, flatMap_nil, append_nil, append_assoc]
  · cases isDir <;> simp

end Indominus.Fs.Initrd
