import Indominus.Fs.TreeSemantics

/-!
# Path routing

`resolve` goes through the mount table; creation and deletion walk from the root of the root file
system.
-/

namespace Indominus.Fs

open Memory

/-! ## Mount points -/

variable {ps : List Name}

namespace Vfs

variable {I : Type} {dev : Drivers I} {v v' : Vfs I} {path : Name}

lemma resolve_of_unmounted (hpts : parts path ≠ []) (hmnt : v.mountFor (parts path) = none) :
    v.resolve dev path = (walk v.ram.lookup (.dir v.ram.root) (parts path)).map .ram := by
  rw [resolve, if_neg (not_rootPath hpts), hmnt]

variable {m : Mount I} {node : RamNode} {f : RamFileHandle}

lemma resolve_of_mounted (hpts : parts path ≠ []) (hmnt : v.mountFor (parts path) = some m) :
    v.resolve dev path =
      (walk dev.lookup m.root ((parts path).drop (parts m.path).length)).map .mounted := by
  rw [resolve, if_neg (not_rootPath hpts), hmnt]

lemma resolve_ne_ram (hpts : parts path ≠ []) (hmnt : v.mountFor (parts path) = some m) :
    v.resolve dev path ≠ .ok (.ram node) := by
  rw [resolve_of_mounted hpts hmnt]
  cases walk dev.lookup m.root ((parts path).drop (parts m.path).length) <;> simp [Except.map]

lemma resolve_eq_iff (hpts : parts path ≠ []) (hnode : v.ram.tree (parts path) = some node) :
    v.resolve dev path = .ok (.ram node) ↔ v.mountFor (parts path) = none := by
  cases hmnt : v.mountFor (parts path) with
  | some m => simp [resolve_ne_ram hpts hmnt]
  | none =>
    simp only [iff_true]
    rw [resolve_of_unmounted hpts hmnt, Ram.walk_eq_ok.mpr hnode]
    rfl

/-! ## Creation -/

lemma parts_of_createFile (hrun : v.createFile path = (.ok f, v')) :
    ∃ parents name, parts path = parents ++ [name] ∧
      (parents = [] → v.isMountPoint name = false) := by
  rcases List.eq_nil_or_concat (parts path) with hpts | ⟨parents, name, hpts⟩
  · simp [createFile, hpts] at hrun
  rw [List.concat_eq_append] at hpts
  refine ⟨parents, name, hpts, ?_⟩
  rintro rfl
  simp only [createFile, hpts, List.nil_append] at hrun
  cases hmnt : v.isMountPoint name with
  | false => rfl
  | true =>
    rw [hmnt] at hrun
    cases hrun

/-- The contents of a path, if it is a regular file of the root file system. -/
def contents (v : Vfs I) (path : Name) : List Byte :=
  match v.ram.view (parts path) with
  | some (.file b) => b
  | _ => []

lemma contents_of_file {f : Nat} (hf : v.ram.tree (parts path) = some (.file f)) :
    v.contents path = v.ram.files f := by
  simp [contents, Ram.view, hf, Ram.object]

lemma contents_of_none (hnone : v.ram.tree (parts path) = none) : v.contents path = [] := by
  simp [contents, Ram.view, hnone]

lemma createFile_tree (h : v.ram.Sound) (hrun : v.createFile path = (.ok f, v')) :
    parts path ≠ [] ∧ v'.mounts = v.mounts ∧ v'.ram.Sound ∧
      v'.ram.tree (parts path) = some (.file f.data) ∧ f.pos = 0 ∧
      v'.ram.files f.data = v.contents path := by
  obtain ⟨parents, name, hpts, hmnt⟩ := parts_of_createFile hrun
  rw [createFile_eq hpts hmnt] at hrun
  refine ⟨by simp [hpts], ?_⟩
  rcases createBelow_file h parents name with ⟨r', hcr, hplc, hemp⟩ | ⟨g, hcr, hg⟩ |
    ⟨e, d, hcr, -⟩ | ⟨e, q, g, hcr, -⟩
  · rw [hcr] at hrun
    cases hrun
    rw [contents_of_none (hpts ▸ hplc.absent)]
    exact ⟨rfl, hplc.sound, hpts ▸ hplc.at_path, rfl, hemp⟩
  · rw [hcr] at hrun
    cases hrun
    rw [contents_of_file (hpts ▸ hg)]
    exact ⟨rfl, h, hpts ▸ hg, rfl, rfl⟩
  · rw [hcr] at hrun
    cases hrun
  · rw [hcr] at hrun
    cases hrun

lemma createDir_tree (h : v.ram.Sound) (hrun : v.createDir path = (.ok (), v')) :
    parts path ≠ [] ∧ v'.mounts = v.mounts ∧ v.ram.tree (parts path) = none ∧
      ∃ d, v'.ram.tree (parts path) = some (.dir d) := by
  rcases List.eq_nil_or_concat (parts path) with hpts | ⟨parents, name, hpts⟩
  · simp [createDir, hpts] at hrun
  rw [List.concat_eq_append] at hpts
  rw [createDir_eq hpts] at hrun
  refine ⟨by simp [hpts], ?_⟩
  rcases createBelow_dir h parents name with ⟨d, r', hcr, hplc⟩ | ⟨e, node, hcr, -⟩ |
    ⟨e, q, f, hcr, -⟩
  · rw [hcr] at hrun
    cases hrun
    exact ⟨rfl, hpts ▸ hplc.absent, d, hpts ▸ hplc.at_path⟩
  · rw [hcr] at hrun
    cases hrun
  · rw [hcr] at hrun
    cases hrun

/-! ## Deletion -/

lemma walk_unlink {r : Ram} (h : r.Sound) {p : List Name} {d : Nat} {name : Name}
    (hp : r.tree p = some (.dir d)) {s rest : List Name} (hs : r.tree s = some node)
    (hrest : ¬ p ++ [name] <+: s ++ rest) :
    walk (r.unlink d name).lookup node rest = walk r.lookup node rest := by
  induction rest generalizing s node with
  | nil => rfl
  | cons n rest ih =>
    have hlookup : (r.unlink d name).lookup node n = r.lookup node n := by
      cases node with
      | file f => rfl
      | dir e =>
        have hcell : ¬ (e = d ∧ n = name) := by
          rintro ⟨rfl, rfl⟩
          rw [h.tree_injective hs hp] at hrest
          exact hrest ⟨rest, by simp⟩
        simp only [Ram.lookup, Ram.entry_unlink, if_neg hcell]
    simp only [walk, hlookup]
    cases hnext : r.lookup node n with
    | error e => rfl
    | ok next =>
      have hs' : r.tree (s ++ [n]) = some next := by
        rw [Ram.tree_concat, hs]
        exact Ram.lookup_eq_ok.mp hnext
      exact ih hs' (by simpa using hrest)

lemma deleteFile_walk (h : v.ram.Sound) (hrun : v.deleteFile path = (.ok (), v')) :
    parts path ≠ [] ∧ v'.mounts = v.mounts ∧
      walk v'.ram.lookup (.dir v'.ram.root) (parts path) = .error .notFound ∧
      (∀ q, q ≠ parts path → v'.ram.tree q = v.ram.tree q) ∧
      ∀ q, ¬ parts path <+: q → walk v'.ram.lookup (.dir v'.ram.root) q =
        walk v.ram.lookup (.dir v.ram.root) q := by
  rcases List.eq_nil_or_concat (parts path) with hpts | ⟨parents, name, hpts⟩
  · simp [deleteFile, hpts] at hrun
  rw [List.concat_eq_append] at hpts
  rcases v.deleteFile_cases hpts with ⟨d, f, hdelete, hpar, hent⟩ | ⟨⟨e, hdelete⟩, -⟩
  · rw [hdelete] at hrun
    cases hrun
    obtain ⟨-, htree⟩ := h.unlinkFile hpar hent
    have hoth : ∀ q, ¬ parents ++ [name] <+: q →
        walk (v.ram.unlink d name).lookup (.dir v.ram.root) q =
          walk v.ram.lookup (.dir v.ram.root) q :=
      fun q hq => walk_unlink h hpar (s := []) (Ram.tree_nil _) (by simpa using hq)
    have hpars : ¬ parents ++ [name] <+: parents := fun hp => by simpa using hp.length_le
    refine ⟨by simp [hpts], rfl, ?_, ?_, ?_⟩
    · show walk (v.ram.unlink d name).lookup (.dir v.ram.root) (parts path) = _
      rw [hpts, walk_append, hoth parents hpars, Ram.walk_eq_ok.mpr hpar]
      simp [Except.bind, walk, Ram.lookup, Ram.entry_unlink]
    · intro q hq
      rw [htree, if_neg (hpts ▸ hq)]
    · intro q hq
      exact hoth q (hpts ▸ hq)
  · rw [hdelete] at hrun
    cases hrun

/-! ## Agreement -/

/-- `delete_file` has removed the path for `resolve`, and everything not below it is resolved as
before. -/
structure Removed (dev : Drivers I) (v v' : Vfs I) (path : Name) : Prop where
  gone : v'.resolve dev path = .error .notFound
  others : ∀ q, parts q ≠ parts path → (v'.resolve dev q).toOption = (v.resolve dev q).toOption
  errors : ∀ q, ¬ parts path <+: parts q → v'.resolve dev q = v.resolve dev q

lemma removed_iff (h : v.ram.Sound) (hrun : v.deleteFile path = (.ok (), v')) :
    Removed dev v v' path ↔
      v.mountFor (parts path) = none ∨ v.resolve dev path = .error .notFound := by
  obtain ⟨hpts, hmts, hgone, htree, hwalk⟩ := deleteFile_walk h hrun
  have hfor : ∀ ps, v'.mountFor ps = v.mountFor ps := fun ps => by rw [mountFor, mountFor, hmts]
  have hoths : ∀ q, parts q ≠ parts path →
      (v'.resolve dev q).toOption = (v.resolve dev q).toOption :=
    fun q hq => resolve_congr dev hmts (htree _ hq)
  have herrors : ∀ q, ¬ parts path <+: parts q → v'.resolve dev q = v.resolve dev q := by
    intro q hq
    by_cases hq0 : parts q = []
    · have hroot := htree [] fun h0 => hpts h0.symm
      rw [resolve, resolve, if_pos (by simp [hq0]), if_pos (by simp [hq0]), Option.some.inj hroot]
    cases hmnt : v.mountFor (parts q) with
    | some m => rw [resolve_of_mounted hq0 hmnt, resolve_of_mounted hq0 ((hfor _).trans hmnt)]
    | none =>
      rw [resolve_of_unmounted hq0 hmnt, resolve_of_unmounted hq0 ((hfor _).trans hmnt),
        hwalk _ hq]
  cases hmnt : v.mountFor (parts path) with
  | none =>
    refine iff_of_true ⟨?_, hoths, herrors⟩ (.inl rfl)
    rw [resolve_of_unmounted hpts ((hfor _).trans hmnt), hgone]
    rfl
  | some m =>
    -- the mounted file system answers as it did before the deletion
    have hsame : v'.resolve dev path = v.resolve dev path := by
      rw [resolve_of_mounted hpts hmnt, resolve_of_mounted hpts ((hfor _).trans hmnt)]
    constructor
    · intro hremoved
      exact .inr (hsame ▸ hremoved.gone)
    rintro (hnone | hfd)
    · cases hnone
    · exact ⟨hsame.trans hfd, hoths, herrors⟩

/-- **Routing.**  The operations agree with `resolve` about a path exactly when no mount matches it;
a deletion behind a mount also goes unnoticed if nothing was there. -/
theorem routing_consistent_iff (dev : Drivers I) (v : Vfs I) (h : v.ram.Sound) (path : Name) :
    (∀ f v', v.createFile path = (.ok f, v') →
        (v'.resolve dev path = .ok (.ram (.file f.data)) ↔ v.mountFor (parts path) = none)) ∧
      (∀ v', v.createDir path = (.ok (), v') → ∃ d, v.ram.tree (parts path) = none ∧
        v'.ram.tree (parts path) = some (.dir d) ∧
        (v'.resolve dev path = .ok (.ram (.dir d)) ↔ v.mountFor (parts path) = none)) ∧
      ∀ v', v.deleteFile path = (.ok (), v') → (Removed dev v v' path ↔
          v.mountFor (parts path) = none ∨ v.resolve dev path = .error .notFound) := by
  refine ⟨?_, ?_, fun v' hrun => removed_iff h hrun⟩
  · intro f v' hrun
    obtain ⟨hpts, hmts, -, htree, -⟩ := createFile_tree h hrun
    rw [resolve_eq_iff hpts htree, mountFor, mountFor, hmts]
  intro v' hrun
  obtain ⟨hpts, hmts, habs, d, htree⟩ := createDir_tree h hrun
  refine ⟨d, habs, htree, ?_⟩
  rw [resolve_eq_iff hpts htree, mountFor, mountFor, hmts]

/-! ## A file below a mount point -/

/-- An empty file system mounted at `/mnt`. -/
def mountedVfs : Vfs Unit := ⟨Ram.new, [⟨['/', 'm', 'n', 't'], ()⟩]⟩

def emptyDriver : Drivers Unit where
  lookup _ _ := .error .notFound
  readAll _ := .error .notFile

/-- A file next to the mount point is found. -/
theorem routing_consistent_iff_mountedVfs :
    (mountedVfs.createFile ['/', 'a']).2.resolve emptyDriver ['/', 'a'] = .ok (.ram (.file 0)) :=
  ((routing_consistent_iff emptyDriver mountedVfs Ram.Sound.new ['/', 'a']).1 ⟨0, 0⟩
    (mountedVfs.createFile ['/', 'a']).2 rfl).mpr (by decide)

/-- `create_file("/mnt/x")` succeeds, and `/mnt/x` is not found. -/
theorem routing_inconsistent :
    (mountedVfs.createFile ['/', 'm', 'n', 't', '/', 'x']).1 = .ok ⟨0, 0⟩ ∧
      (mountedVfs.createFile ['/', 'm', 'n', 't', '/', 'x']).2.resolve emptyDriver
        ['/', 'm', 'n', 't', '/', 'x'] = .error .notFound :=
  ⟨rfl, rfl⟩

end Vfs

end Indominus.Fs
