import Indominus.Fs.FileCalls
import Indominus.Sys.Run
import Mathlib.Data.Finset.Max

/-!
# Directory listings (`syscall/mod.rs`, `ls.rs`, the shell's `ls`)

A directory handle packs names with terminators; the readers take the bytes for records with a
length.
-/

namespace Indominus.Fs

open Memory Sys List RamDirHandle

/-! ## The call -/

namespace Session

/-- The loop of `sys_readdir`: pieces of at most 256 bytes, until `count` bytes are copied or
nothing is left. -/
def readdirLoop (object count : Nat) : (fuel : Nat) → Session → (copied : List Byte) →
    Except Panic (List Byte × Session)
  | 0, _, _ => .error .halt
  | fuel + 1, s, copied =>
    if count ≤ copied.length then .ok (copied, s)
    else
      match s.readObject object 256 with
      | .error e => .error e
      | .ok (bytes, file) =>
        let s := { s with objects := Function.update s.objects object file }
        if bytes = [] then .ok (copied, s)
        else readdirLoop object count fuel s (copied ++ bytes.take (count - copied.length))

/-- `sys_readdir`: the return value and the bytes stored to the caller's buffer. -/
def sysReaddir (s : Session) (fd bufPtr count : Nat) :
    Except Panic (Except CallError Nat × List Byte × Session) :=
  if h : fd < MAX_FDS then
    if count = 0 then .ok (.ok 0, [], s)
    else if ¬ isValidUserRange bufPtr count then .ok (.error (.errno .EFAULT), [], s)
    else
      match s.kernel.current with
      | none => .ok (.error (.errno .ESRCH), [], s)
      | some (_, proc) =>
        match proc.fdTypes ⟨fd, h⟩ with
        | .fsFile index =>
          match Kernel.handleAt proc index with
          | none => .ok (.error (.errno .EBADF), [], s)
          | some object =>
            match readdirLoop object count (count + 1) s [] with
            | .error e => .error e
            | .ok (copied, s) => .ok (.ok copied.length, copied, s)
        -- `ENOTDIR`
        | _ => .ok (.error (.vfs .notDirectory), [], s)
  else .ok (.error (.errno .EBADF), [], s)

end Session

/-! ## The readers -/

/-- The loop of the readers over one buffer: a length and a name, up to a length of zero or a name
cut off. -/
def decodeNames : List Byte → List (List Byte)
  | [] => []
  | nameLen :: data =>
    if nameLen.toNat = 0 ∨ data.length < nameLen.toNat then []
    else data.take nameLen.toNat :: decodeNames (data.drop nameLen.toNat)
  termination_by data => data.length
  decreasing_by simp only [List.length_drop, List.length_cons]; omega

def READER_BUFFER : Nat := 512

/-- The loop of the readers over the calls; `none` is not finished, or a halted kernel. -/
def listDirectory (fd bufPtr : Nat) : (fuel : Nat) → Session → (names : List (List Byte)) →
    Option (List (List Byte))
  | 0, _, _ => none
  | fuel + 1, s, names =>
    match s.sysReaddir fd bufPtr READER_BUFFER with
    | .error _ => none
    | .ok (.error _, _, _) => some names
    | .ok (.ok n, data, s) =>
      if n = 0 then some names
        else listDirectory fd bufPtr fuel s (names ++ decodeNames (data.take n))

/-! ## What a call returns -/

section Calls

variable {s s' : Session} {h : RamDirHandle} {fd object bufPtr count fuel : Nat}
  {copied : List Byte}

open RamDirHandle

lemma consumed_le (room : Nat) (names : List Name) : consumed room names ≤ names.length := by
  induction names generalizing room with
  | nil => exact le_refl _
  | cons name names ih =>
    rw [consumed]
    split_ifs
    · exact Nat.succ_le_succ (ih _)
    · exact Nat.zero_le _

structure Piece (h : RamDirHandle) (bytes : List Byte) (h' : RamDirHandle) : Prop where
  entries : h'.entries = h.entries
  le : h.pos ≤ h'.pos
  pos : h'.pos ≤ h'.entries.length
  none : h.entries.drop h.pos = [] → bytes = []
  first : ∀ name rest, h.entries.drop h.pos = name :: rest → (packName name).length ≤ 256 →
    packName name <+: bytes ∧ h.pos < h'.pos

lemma read_piece (hpos : h.pos ≤ h.entries.length) :
    ∃ bytes h', h.read 256 = .ok (bytes, h') ∧ Piece h bytes h' := by
  refine ⟨_, _, by rw [RamDirHandle.read, if_neg (not_lt.mpr hpos)], ?_⟩
  constructor
  case entries => rfl
  case le => exact Nat.le_add_right _ _
  case pos =>
    have hle :=
      consumed_le (((h.entries.drop h.pos).flatMap packName).take 256).length (h.entries.drop h.pos)
    rw [length_drop] at hle
    dsimp only
    omega
  case none =>
    intro hnil
    rw [hnil]
    rfl
  case first =>
    intro name rest hleft hshort
    rw [hleft, flatMap_cons]
    have hbeg : packName name <+: (packName name ++ rest.flatMap packName).take 256 :=
      prefix_take_iff.mpr ⟨prefix_append _ _, hshort⟩
    refine ⟨hbeg, Nat.lt_add_of_pos_right ?_⟩
    rw [consumed, if_pos hbeg.length_le]
    exact Nat.succ_pos _

structure DirOpen (s : Session) (fd object : Nat) (h : RamDirHandle) : Prop where
  descriptor : s.objectOf fd = some object
  handle : s.objects object = some (.dir h)
  pos : h.pos ≤ h.entries.length

lemma DirOpen.read (hopen : DirOpen s fd object h) : ∃ bytes h',
    s.readObject object 256 = .ok (bytes, some (.dir h')) ∧ Piece h bytes h' ∧
      DirOpen { s with objects := Function.update s.objects object (some (.dir h')) }
        fd object h' := by
  obtain ⟨bytes, h', hread, hpc⟩ := read_piece hopen.pos
  refine ⟨bytes, h', ?_, hpc, ⟨hopen.descriptor, Function.update_self .., hpc.pos⟩⟩
  simp only [Session.readObject, hopen.handle, hread]

/-- Each round copies something or ends, so `count` rounds are enough. -/
lemma readdirLoop_returns (hopen : DirOpen s fd object h) (hcnt : copied.length ≤ count)
    (hfuel : count < copied.length + fuel) :
    ∃ data s' h', Session.readdirLoop object count fuel s copied = .ok (copied ++ data, s') ∧
      DirOpen s' fd object h' ∧ h'.entries = h.entries ∧ h.pos ≤ h'.pos := by
  induction fuel generalizing s h copied with
  | zero => omega
  | succ fuel ih =>
    rw [Session.readdirLoop]
    by_cases hfull : count ≤ copied.length
    · exact ⟨[], s, h, by rw [if_pos hfull, append_nil], hopen, rfl, le_refl _⟩
    rw [if_neg hfull]
    obtain ⟨bytes, h1, hread, hpc, hopen1⟩ := hopen.read
    simp only [hread]
    by_cases hnil : bytes = []
    · exact ⟨[], _, h1, by rw [if_pos hnil, append_nil], hopen1, hpc.entries, hpc.le⟩
    rw [if_neg hnil]
    have hmore : 0 < (bytes.take (count - copied.length)).length := by
      have := length_pos_iff.mpr hnil
      rw [length_take]
      omega
    have hroom : (bytes.take (count - copied.length)).length ≤ count - copied.length :=
      length_take_le _ _
    obtain ⟨data, s', h', hloop, hopen', hents, hle⟩ :=
      @ih _ h1 (copied ++ bytes.take (count - copied.length)) hopen1 (by rw [length_append]; omega)
        (by rw [length_append]; omega)
    exact ⟨_, s', h', by rw [hloop, append_assoc], hopen', hents.trans hpc.entries,
      le_trans hpc.le hle⟩

lemma sysReaddir_eq (hobj : s.objectOf fd = some object) (hcnt : count ≠ 0)
    (hbuf : isValidUserRange bufPtr count = true) : s.sysReaddir fd bufPtr count =
      (Session.readdirLoop object count (count + 1) s []).map fun r =>
        (.ok r.1.length, r.1, r.2) := by
  rw [Session.objectOf] at hobj
  by_cases hfd : fd < MAX_FDS
  · rw [dif_pos hfd] at hobj
    rw [Session.sysReaddir, dif_pos hfd, if_neg hcnt, if_neg (not_not.mpr hbuf)]
    cases hcur : s.kernel.current with
    | none => simp [hcur] at hobj
    | some c =>
      obtain ⟨pid, p⟩ := c
      simp only [hcur] at hobj ⊢
      cases hfile : p.fdTypes ⟨fd, hfd⟩ with
      | fsFile index =>
        simp only [hfile] at hobj ⊢
        simp only [hobj]
        cases Session.readdirLoop object count (count + 1) s [] <;> rfl
      | _ => simp [hfile] at hobj
  · rw [dif_neg hfd] at hobj
    cases hobj

lemma sysReaddir_dir (hopen : DirOpen s fd object h)
    (hbuf : isValidUserRange bufPtr READER_BUFFER = true) :
    ∃ data s' h', s.sysReaddir fd bufPtr READER_BUFFER = .ok (.ok data.length, data, s') ∧
      DirOpen s' fd object h' ∧ Piece h data h' := by
  rw [sysReaddir_eq hopen.descriptor (by decide) hbuf, Session.readdirLoop]
  obtain ⟨bytes, h1, hread, hpc, hopen1⟩ := hopen.read
  simp only [hread]
  by_cases hnil : bytes = []
  · rw [if_pos hnil]
    exact ⟨[], _, h1, rfl, hopen1, by rwa [hnil] at hpc⟩
  rw [if_neg hnil]
  have hmore : 0 < (bytes.take READER_BUFFER).length := by
    have hpos := length_pos_iff.mpr hnil
    rw [length_take]
    exact lt_min (by decide) hpos
  have hroom : (bytes.take READER_BUFFER).length ≤ READER_BUFFER := length_take_le _ _
  obtain ⟨data, s', h', hloop, hopen', hents, hle⟩ :=
    @readdirLoop_returns _ h1 fd object READER_BUFFER READER_BUFFER _ hopen1 hroom (by omega)
  refine ⟨bytes.take READER_BUFFER ++ data, s', h', ?_, hopen', ?_⟩
  · exact congrArg (Except.map _) hloop
  constructor
  case entries => exact hents.trans hpc.entries
  case le => exact le_trans hpc.le hle
  case pos => exact hopen'.pos
  case none => exact fun hleft => absurd (hpc.none hleft) hnil
  case first =>
    intro name rest hleft hshort
    obtain ⟨hbeg, hlt⟩ := hpc.first name rest hleft hshort
    have hfits : (packName name).length ≤ READER_BUFFER := le_trans hshort (by decide)
    exact ⟨(prefix_take_iff.mpr ⟨hbeg, hfits⟩).trans (prefix_append _ _), lt_of_lt_of_le hlt hle⟩

end Calls

/-! ## What the readers make of it -/

lemma decodeNames_short {name tail : List Byte} :
    (∃ n ∈ decodeNames (name ++ 0 :: tail), 0 ∈ n) ∨
      ∀ n ∈ decodeNames (name ++ 0 :: tail), n.length < name.length := by
  induction hlen : name.length using Nat.strong_induction_on generalizing name with
  | _ m ih =>
    cases name with
    | nil =>
      right
      rw [nil_append, decodeNames]
      exact nofun
    | cons b name =>
      rw [cons_append, decodeNames]
      split_ifs with hstop
      · right
        exact nofun
      by_cases hin : b.toNat ≤ name.length
      · -- the record is a part of the name, and what follows begins with the rest of the name
        rw [drop_append_of_le_length hin]
        rw [length_cons] at hlen
        have hrest : (name.drop b.toNat).length = name.length - b.toNat := length_drop ..
        obtain ⟨n, hn, hzero⟩ | hshort := ih (name.drop b.toNat).length (by omega) rfl
        · exact .inl ⟨n, mem_cons_of_mem _ hn, hzero⟩
        right
        intro n hn
        rcases mem_cons.mp hn with rfl | hn
        · rw [length_take]
          omega
        · have := hshort n hn
          omega
      left
      refine ⟨_, mem_cons_self, ?_⟩
      rw [take_append, mem_append]
      right
      obtain ⟨k, hk⟩ : ∃ k, b.toNat - name.length = k + 1 := ⟨b.toNat - name.length - 1, by omega⟩
      rw [hk]
      exact mem_cons_self

section Listing

variable {s : Session} {h : RamDirHandle} {fd object bufPtr fuel : Nat}
  {names out : List (List Byte)}

open RamDirHandle

/-- Some name has a terminator in it, or each of them is shorter than a name of the directory. -/
def Shorter (entries : List Name) (names : List (List Byte)) : Prop :=
  (∃ n ∈ names, 0 ∈ n) ∨ ∀ n ∈ names, ∃ name ∈ entries, n.length < (utf8 name).length

lemma Shorter.append (hold : Shorter h.entries names) {data : List Byte} {h' : RamDirHandle}
    (hpc : Piece h data h') (hshort : ∀ name ∈ h.entries, (packName name).length ≤ 256) :
    Shorter h.entries (names ++ decodeNames data) := by
  cases hleft : h.entries.drop h.pos with
  | nil =>
    rw [hpc.none hleft, decodeNames, append_nil]
    exact hold
  | cons name rest =>
    have hmem : name ∈ h.entries := mem_of_mem_drop (hleft ▸ mem_cons_self)
    obtain ⟨tail, rfl⟩ := (hpc.first name rest hleft (hshort name hmem)).1
    rw [packName, append_assoc]
    obtain ⟨n, hn, hzero⟩ | hnew := @decodeNames_short (utf8 name) tail
    · exact .inl ⟨n, mem_append_right _ hn, hzero⟩
    rcases hold with ⟨n, hn, hzero⟩ | hold
    · exact .inl ⟨n, mem_append_left _ hn, hzero⟩
    right
    intro n hn
    rcases mem_append.mp hn with hn | hn
    · exact hold n hn
    · exact ⟨name, hmem, hnew n hn⟩

variable (hopen : DirOpen s fd object h) (hbuf : isValidUserRange bufPtr READER_BUFFER = true)
  (hshort : ∀ name ∈ h.entries, (packName name).length ≤ 256)

include hopen hbuf hshort

lemma listDirectory_shorter (hold : Shorter h.entries names)
    (hok : listDirectory fd bufPtr fuel s names = some out) : Shorter h.entries out := by
  induction fuel generalizing s h names with
  | zero => cases hok
  | succ fuel ih =>
    obtain ⟨data, s', h', hcall, hopen', hpc⟩ := sysReaddir_dir hopen hbuf
    simp only [listDirectory, hcall] at hok
    by_cases hzero : data.length = 0
    · rw [if_pos hzero] at hok
      cases hok
      exact hold
    rw [if_neg hzero, take_length] at hok
    rw [← hpc.entries] at hshort ⊢
    refine ih hopen' hshort ?_ hok
    rw [hpc.entries] at hshort ⊢
    exact hold.append hpc hshort

end Listing

/-- The readers print the names of the directory, each once. -/
def ListsExactly (s : Session) (fd bufPtr : Nat) (entries : List Name) : Prop :=
  ∃ fuel out, listDirectory fd bufPtr fuel s [] = some out ∧
    out.Perm (entries.map RamDirHandle.utf8)

lemma not_listsExactly {s : Session} {fd object bufPtr : Nat} {entries : List Name}
    (hopen : DirOpen s fd object ⟨entries, 0⟩) (hbuf : isValidUserRange bufPtr READER_BUFFER = true)
    (hnms : ∀ name ∈ entries, (utf8 name).length ≤ 200 ∧ 0 ∉ utf8 name)
    (hne : entries ≠ []) : ¬ ListsExactly s fd bufPtr entries := by
  rintro ⟨fuel, out, hout, hperm⟩
  have hshort : ∀ name ∈ entries, (packName name).length ≤ 256 := by
    intro name hname
    have hle := (hnms name hname).1
    rw [packName, length_append, length_singleton]
    omega
  obtain ⟨longest, hmem, hmax⟩ := entries.toFinset.exists_max_image
    (fun name => (utf8 name).length) ⟨_, mem_toFinset.mpr (head_mem hne)⟩
  rw [mem_toFinset] at hmem
  obtain ⟨n, hn, hzero⟩ | hall :=
    listDirectory_shorter hopen hbuf hshort (.inr fun n hn => absurd hn not_mem_nil) hout
  · obtain ⟨name, hname, rfl⟩ := mem_map.mp (hperm.mem_iff.mp hn)
    exact (hnms name hname).2 hzero
  · obtain ⟨name, hname, hlt⟩ := hall _ (hperm.mem_iff.mpr (mem_map_of_mem hmem))
    exact absurd (hmax name (mem_toFinset.mpr hname)) (not_le.mpr hlt)

/-- **The listing protocol.**  For names of 1 to 200 bytes without zeros, the readers print the
names of a directory, each once, exactly if it is empty. -/
theorem listing_exact_iff {s : Session} {fd object bufPtr d : Nat}
    (hopen : DirOpen s fd object ⟨s.vfs.ram.listEntries d, 0⟩)
    (hbuf : isValidUserRange bufPtr READER_BUFFER = true)
    (hnames : ∀ name ∈ s.vfs.ram.listEntries d, 1 ≤ (RamDirHandle.utf8 name).length ∧
      (RamDirHandle.utf8 name).length ≤ 200 ∧ 0 ∉ RamDirHandle.utf8 name) :
    ListsExactly s fd bufPtr (s.vfs.ram.listEntries d) ↔ s.vfs.ram.listEntries d = [] := by
  constructor
  · intro hlists
    by_contra hne
    exact not_listsExactly hopen hbuf (fun name hname => (hnames name hname).2) hne hlists
  intro hemp
  obtain ⟨data, s', h', hcall, -, hpc⟩ := sysReaddir_dir hopen hbuf
  refine ⟨1, [], ?_, by rw [hemp]; exact .nil⟩
  rw [listDirectory, hcall, hpc.none (by rw [hemp]; rfl)]
  rfl

/-- A session in which the root directory is open as every descriptor. -/
def rootOpen (r : Ram) : Session where
  kernel :=
    { Kernel.bootKernel with
      procs := fun _ => some
        { Process.newKernel 0 1 1 with
          fdTypes := fun _ => .fsFile 0
          fileHandles := fun _ => some 0 } }
  vfs := ⟨r, []⟩
  objects _ := some (.dir ⟨r.listEntries 0, 0⟩)
  nextObject := 1

lemma rootOpen_dir (r : Ram) : DirOpen (rootOpen r) 3 0 ⟨r.listEntries 0, 0⟩ :=
  ⟨rfl, rfl, Nat.zero_le _⟩

/-- A new file system. -/
theorem listing_exact_iff_new : ListsExactly (rootOpen Ram.new) 3 0x400000 [] :=
  (listing_exact_iff (d := 0) (rootOpen_dir Ram.new) (by decide) (by decide)).mpr rfl

/-- A root directory with one file, `a`: the readers take its name for a length, and print
nothing. -/
theorem listing_loses_name : ¬ ListsExactly (rootOpen (Ram.new.createFile ['a']).2) 3 0x400000
    ((Ram.new.createFile ['a']).2.listEntries 0) :=
  not_listsExactly (rootOpen_dir _) (by decide) (by decide +kernel) (by decide +kernel)

end Indominus.Fs
