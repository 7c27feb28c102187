import Indominus.Fs.Mounts

/-!
# The initrd parser (`initrd.rs`)

A failure of `create_dir` or `write_file` for an entry is only reported.
-/

namespace Indominus.Fs

open Memory

namespace Initrd

/-- `data[offset..offset + n]`. -/
def slice (data : List Byte) (offset n : Nat) : List Byte := (data.drop offset).take n

def hexDigit (b : Byte) : Option Nat :=
  if 0x30 ≤ b.toNat ∧ b.toNat ≤ 0x39 then some (b.toNat - 0x30)
  else if 0x61 ≤ b.toNat ∧ b.toNat ≤ 0x66 then some (b.toNat - 0x61 + 10)
  else none

def parseHex8 (header : List Byte) (offset : Nat) : Option Nat :=
  if header.length < offset + 8 then none
  else ((slice header offset 8).mapM hexDigit).map fun ds => ds.foldl (fun n d => 16 * n + d) 0

/-- `(n + 3) & !3`. -/
def align4 (n : Nat) : Nat := (n + 3) / 4 * 4

/-- What `parse_header` returns. -/
structure Header where
  namesize : Nat
  filesize : Nat
  next : Nat
  deriving DecidableEq, Repr

/-- The magic `070701`. -/
def magic : List Byte := [0x30, 0x37, 0x30, 0x37, 0x30, 0x31]

/-- The magic `070702`. -/
def magicCrc : List Byte := [0x30, 0x37, 0x30, 0x37, 0x30, 0x32]

def parseHeader (data : List Byte) (offset : Nat) : Option Header :=
  if data.length < offset + 110 then none
  else if slice data offset 6 ≠ magic ∧ slice data offset 6 ≠ magicCrc then none
  else
    (parseHex8 data (offset + 94)).bind fun namesize =>
      (parseHex8 data (offset + 54)).bind fun filesize =>
        if namesize = 0 ∨ 4096 < namesize then none
        else if data.length < offset + 110 + namesize then none
        else if data.length < offset + 110 + align4 namesize + filesize then none
        else if data.getD (offset + 110 + namesize - 1) 0 ≠ 0 then none
        else some ⟨namesize, filesize, offset + 110 + align4 namesize + align4 filesize⟩

def fromUtf8 (bytes : List Byte) : Option Name :=
  (ByteArray.mk (bytes.map UInt8.ofBitVec).toArray).utf8Decode?.map Array.toList

def trailer : Name := ['T', 'R', 'A', 'I', 'L', 'E', 'R', '!', '!', '!']

/-- `name.contains("..")`. -/
def hasDotDot (name : Name) : Bool := decide (['.', '.'] <:+: name)

/-- What the loop finds at an offset. -/
inductive Item
  | done
  /-- Nothing that is used; go on at `next`. -/
  | skip (next : Nat)
  /-- A directory; its name has no slash at the end. -/
  | dir (name : Name) (next : Nat)
  | file (name : Name) (contents : List Byte) (next : Nat)
  deriving DecidableEq

/-- One round of the loop, up to the calls of the file system. -/
def itemAt (data : List Byte) (offset : Nat) : Item :=
  if data.length < offset + 110 then .done
  else if slice data offset 6 = List.replicate 6 0 then .skip (offset + 1)
  else
    match parseHeader data offset with
    | none => .done
    | some h =>
      match fromUtf8 (slice data (offset + 110) (h.namesize - 1)) with
      | none => .skip h.next
      | some name =>
        if name = trailer then .done
        else if hasDotDot name then .skip h.next
        else if name.getLast? = some '/' then .dir name.dropLast h.next
        else .file name (slice data (offset + 110 + align4 h.namesize) h.filesize) h.next

def Item.next? : Item → Option Nat
  | .done => none
  | .skip next => some next
  | .dir _ next => some next
  | .file _ _ next => some next

lemma parseHeader_cases {data : List Byte} {offset : Nat} {h : Header}
    (hpar : parseHeader data offset = some h) :
    parseHex8 data (offset + 94) = some h.namesize ∧
      parseHex8 data (offset + 54) = some h.filesize ∧
    0 < h.namesize ∧ offset + 110 + h.namesize ≤ data.length ∧
    offset + 110 + align4 h.namesize + h.filesize ≤ data.length ∧
    h.next = offset + 110 + align4 h.namesize + align4 h.filesize := by
  unfold parseHeader at hpar
  split_ifs at hpar
  obtain ⟨n, hn, hpar⟩ := Option.bind_eq_some_iff.mp hpar
  obtain ⟨m, hm, hpar⟩ := Option.bind_eq_some_iff.mp hpar
  split_ifs at hpar
  rw [← Option.some_injective _ hpar]
  dsimp only
  exact ⟨hn, hm, by omega, by omega, by omega, rfl⟩

lemma parseHeader_next {data : List Byte} {offset : Nat} {h : Header}
    (hpar : parseHeader data offset = some h) : offset < h.next := by
  obtain ⟨-, -, -, -, -, hnext⟩ := parseHeader_cases hpar
  omega

lemma itemAt_next {data : List Byte} {offset next : Nat}
    (h : (itemAt data offset).next? = some next) : offset < next ∧ offset < data.length := by
  unfold itemAt at h
  split_ifs at h with hsh hzero
  · cases h
  · cases h
    omega
  refine ⟨?_, by omega⟩
  cases hpar : parseHeader data offset with
  | none => rw [hpar] at h; cases h
  | some hd =>
    have hlt := parseHeader_next hpar
    simp only [hpar] at h
    cases hname : fromUtf8 (slice data (offset + 110) (hd.namesize - 1)) with
    | none => rw [hname] at h; cases h; exact hlt
    | some name =>
      simp only [hname] at h
      split_ifs at h <;> cases h <;> exact hlt

end Initrd

namespace Vfs

open Initrd

variable {I : Type}

/-- The loop of `load_initrd`. -/
def loadInitrdFrom (data : List Byte) (offset : Nat) (v : Vfs I) : Except Panic (Vfs I) :=
  match hitem : itemAt data offset with
  | .done => .ok v
  | .skip next =>
    have := itemAt_next (show (itemAt data offset).next? = some next by rw [hitem]; rfl)
    loadInitrdFrom data next v
  | .dir name next =>
    have := itemAt_next (show (itemAt data offset).next? = some next by rw [hitem]; rfl)
    let v := if name = [] then v else (v.createDir name).2
    if next = 0 ∨ data.length ≤ next then .ok v else loadInitrdFrom data next v
  | .file name contents next =>
    have := itemAt_next (show (itemAt data offset).next? = some next by rw [hitem]; rfl)
    match v.writeFile name contents with
    | .error e => .error e
    | .ok (_, v) => if next = 0 ∨ data.length ≤ next then .ok v else loadInitrdFrom data next v
termination_by data.length - offset

def loadInitrd (data : List Byte) (v : Vfs I) : Except Panic (Vfs I) := loadInitrdFrom data 0 v

end Vfs

end Indominus.Fs
