import Indominus.Fs.FileCalls
import Indominus.Fs.Routing

/-!
# Writing a file and reading it back

`write_file` does not truncate, and `sys_open` rejects both `O_TRUNC` and `O_RDONLY`.
-/

namespace Indominus.Fs

open Memory

lemma overwrite_zero (data buf : List Byte) :
    overwrite data 0 buf = buf ++ data.drop buf.length := by
  unfold overwrite
  by_cases hlen : data.length < buf.length
  · have hgr : data.length + (buf.length - data.length) ≤ buf.length := by omega
    simp [hlen, List.drop_eq_nil_of_le hlen.le, hgr]
  · simp [hlen]

namespace Vfs

variable {I : Type} {dev : Drivers I} {v v' : Vfs I} {path : Name}

/-! ## The loop of `read_file` -/

variable {f n : Nat} {d data : List Byte}

lemma readLoop_file {r : Ram} (fuel pos : Nat) (buf : List Byte)
    (hfuel : (r.files f).length - pos < fuel) :
    readLoop (fun h count => .ok (RamFileHandle.read r h count)) fuel ⟨f, pos⟩ buf =
      some (.ok (buf ++ (r.files f).drop pos)) := by
  induction fuel generalizing pos buf with
  | zero => omega
  | succ fuel ih =>
    unfold readLoop RamFileHandle.read
    have hspl : ((r.files f).drop pos).take 512 ++
        (r.files f).drop (pos + (((r.files f).drop pos).take 512).length) =
          (r.files f).drop pos := by
      rw [← List.drop_drop, List.length_take]
      rcases Nat.le_total 512 ((r.files f).drop pos).length with hle | hle
      · rw [Nat.min_eq_left hle, List.take_append_drop]
      · rw [Nat.min_eq_right hle, List.take_of_length_le hle, List.drop_length, List.append_nil]
    cases hbs : ((r.files f).drop pos).take 512 with
    | nil =>
      -- nothing left to read
      have hnil : (r.files f).drop pos = [] := by simpa using hbs
      simp [hnil]
    | cons b bytes =>
      have hsh : (r.files f).length - (pos + (b :: bytes).length) < fuel := by
        have hpos : ((r.files f).drop pos).length ≠ 0 := by
          intro hzero
          rw [List.length_eq_zero_iff.mp hzero] at hbs
          cases hbs
        rw [List.length_drop] at hpos
        simp only [List.length_cons]
        omega
      rw [hbs] at hspl
      refine (ih _ _ hsh).trans ?_
      rw [List.append_assoc, hspl]

lemma readLoop_mono {η : Type} {read : η → Nat → Except Panic (List Byte × η)} {fuel : Nat}
    {h : η} {buf : List Byte} {out : Except Panic (List Byte)}
    (hrun : readLoop read fuel h buf = some out) (more : Nat) :
    readLoop read (fuel + more) h buf = some out := by
  induction fuel generalizing h buf with
  | zero => cases hrun
  | succ fuel ih =>
    rw [Nat.add_right_comm]
    unfold readLoop at hrun ⊢
    rcases hread : read h 512 with e | ⟨_ | ⟨b, bytes⟩, h'⟩
    · simpa [hread] using hrun
    · simpa [hread] using hrun
    · simp only [hread] at hrun ⊢
      exact ih hrun

lemma readFile_eq_some_iff (hresolve : v.resolve dev path = .ok (.ram (.file f))) :
    (∃ fuel, v.readFile dev path fuel = some (.ok (.ok d))) ↔ v.ram.files f = d := by
  have hread : ∀ fuel, v.readFile dev path fuel =
      (readLoop (fun h count => .ok (RamFileHandle.read v.ram h count)) fuel ⟨f, 0⟩ []).map
        fun out => out.map .ok := by
    intro fuel
    rw [readFile, hresolve]
  have hall := readLoop_file (r := v.ram) (f := f) ((v.ram.files f).length + 1) 0 [] (by omega)
  constructor
  · rintro ⟨fuel, hfuel⟩
    rw [hread] at hfuel
    obtain ⟨out, hout, hd⟩ := Option.map_eq_some_iff.mp hfuel
    -- both runs have the result of the longer one
    have h1 := readLoop_mono hout ((v.ram.files f).length + 1)
    have h2 := readLoop_mono hall fuel
    rw [Nat.add_comm, h1] at h2
    cases Option.some.inj h2
    simpa [Except.map] using hd
  rintro rfl
  refine ⟨(v.ram.files f).length + 1, ?_⟩
  rw [hread, hall]
  simp [Except.map]

/-! ## `write_file` and then `read_file` -/

lemma writeFile_files (h : v.ram.Sound) (hrun : v.writeFile path data = .ok (.ok n, v')) :
    ∃ f, parts path ≠ [] ∧ v'.mounts = v.mounts ∧ v'.ram.tree (parts path) = some (.file f) ∧
      v'.ram.files f = data ++ (v.contents path).drop data.length := by
  unfold writeFile at hrun
  rcases hcr : v.createFile path with ⟨e | f, v1⟩
  · simp [hcr] at hrun
  obtain ⟨hpts, hmts, -, htree, hpos, hfs⟩ := createFile_tree h hcr
  simp only [hcr, RamFileHandle.write, hpos, hfs, Nat.zero_add, overwrite_zero] at hrun
  split_ifs at hrun with hfull
  cases hrun
  exact ⟨f.data, hpts, hmts, htree, Function.update_self ..⟩

lemma readFile_writeFile (hmts : v.mounts = []) (h : v.ram.Sound)
    (hrun : v.writeFile path data = .ok (.ok n, v')) :
    (∃ fuel, v'.readFile dev path fuel = some (.ok (.ok d))) ↔
      data ++ (v.contents path).drop data.length = d := by
  obtain ⟨f, hpts, hsame, htree, hfs⟩ := writeFile_files h hrun
  have hmnt : v'.mountFor (parts path) = none := by simp [mountFor, hsame, hmts]
  rw [readFile_eq_some_iff ((resolve_eq_iff hpts htree).mpr hmnt), hfs]

end Vfs

/-! ## The system calls -/

/-- The calls of the round trip succeed one after the other, and the reads return `d`. -/
def RoundTrip (s : Session) (path : Name) (d : List Byte) : Prop :=
  ∃ fd s1 s2 s3 fd' s4 readLine bufPtr count fuel,
    s.sysOpen Vfs.noDrivers path (O_CREAT ||| O_WRONLY ||| O_TRUNC) = (.ok fd, s1) ∧
      Sys.loadBytes s1.kernel.machine.ram s1.kernel.cr3 bufPtr d.length = d ∧
      s1.sysWrite readLine fd bufPtr d.length = .ok (.ok d.length, s2) ∧
      s2.sysClose fd = (.ok 0, s3) ∧
      s3.sysOpen Vfs.noDrivers path O_RDONLY = (.ok fd', s4) ∧
      Session.readAll readLine fd' bufPtr count fuel s4 [] = some d

lemma Session.sysOpen_trunc (s : Session) (path : Name) :
    s.sysOpen Vfs.noDrivers path (O_CREAT ||| O_WRONLY ||| O_TRUNC) =
      (.error (.errno .EINVAL), s) := by
  have hmode : ¬ ((O_CREAT ||| O_WRONLY ||| O_TRUNC) % 4 = 3 ∨
      (O_CREAT ||| O_WRONLY ||| O_TRUNC) % 4 = 0) := by decide
  have hfl : Sys.Kernel.VALID_FLAGS < O_CREAT ||| O_WRONLY ||| O_TRUNC := by decide
  rw [Session.sysOpen, if_neg hmode, if_pos hfl, ite_self]

lemma Session.sysOpen_rdonly (s : Session) (path : Name) :
    s.sysOpen Vfs.noDrivers path O_RDONLY = (.error (.errno .EINVAL), s) := by
  have hmode : O_RDONLY % 4 = 3 ∨ O_RDONLY % 4 = 0 := by decide
  rw [Session.sysOpen, if_pos hmode, ite_self]

namespace Vfs

variable {I : Type}

/-- **Round trip.**  `read_file` returns what `write_file` wrote iff the old file was not longer;
neither of the two `open` calls of the system-call route succeeds. -/
theorem file_round_trip_iff (dev : Drivers I) (path : Name) (d : List Byte) :
    (∀ (v v' : Vfs I) (n : Nat), v.mounts = [] → v.ram.Sound →
      v.writeFile path d = .ok (.ok n, v') →
      ((∃ fuel, v'.readFile dev path fuel = some (.ok (.ok d))) ↔
        (v.contents path).length ≤ d.length)) ∧
    ∀ s : Session, ¬ RoundTrip s path d ∧
      s.sysOpen noDrivers path O_RDONLY = (.error (.errno .EINVAL), s) := by
  constructor
  · intro v v' n hmounts h hrun
    rw [readFile_writeFile hmounts h hrun, List.append_right_eq_self, List.drop_eq_nil_iff]
  refine fun s => ⟨?_, s.sysOpen_rdonly path⟩
  rintro ⟨fd, s1, -, -, -, -, -, -, -, -, hopen, -⟩
  rw [Session.sysOpen_trunc] at hopen
  cases hopen

/-- A file `a` with two bytes. -/
def twoByteVfs : Vfs Empty :=
  { emptyVfs with
    ram := { (emptyVfs.ram.createFile ['a']).2 with files := fun _ => [1, 2] } }

lemma twoByteVfs_sound : twoByteVfs.ram.Sound := by
  have hsnd := (Ram.Sound.new.linkFile (p := []) (Ram.tree_nil _)
    (show Ram.new.entry 0 ['a'] = none by rfl)).1
  exact ⟨hsnd.dir_lt, hsnd.file_lt, hsnd.unused, hsnd.root_lt, hsnd.root_top,
    hsnd.parent⟩

/-- Three bytes are written over two and read back. -/
theorem file_round_trip_iff_twoByteVfs :
    (∃ fuel, (⟨{ twoByteVfs.ram with files := Function.update (fun _ => [1, 2]) 0 [3, 4, 5] }, []⟩ :
        Vfs Empty).readFile noDrivers ['a'] fuel = some (.ok (.ok [3, 4, 5]))) :=
  ((file_round_trip_iff noDrivers ['a'] [3, 4, 5]).1 twoByteVfs _ 3 rfl twoByteVfs_sound rfl).mpr
    (by decide)

/-- One byte is written over two, and both are read back. -/
theorem file_round_trip_keeps_tail : (twoByteVfs.writeFile ['a'] [3]).toOption.map
        (fun out => (out.1, out.2.readFile noDrivers ['a'] 2)) =
      some (.ok 1, some (.ok (.ok [3, 2]))) := by
  rfl

end Vfs

end Indominus.Fs
