import Indominus.Fs.CpioEntry
import Indominus.Fs.FileRoundTrip
import Indominus.Fs.InitrdTree

/-!
# Building an initrd and loading it

Every entry describes an object of the tree, so the file system stays a part of the tree, and every
object has an entry.
-/

namespace Indominus.Fs

open Memory List RamDirHandle Function

namespace Vfs

open Initrd

/-! ## The loop -/

variable {I : Type} {data : List Byte} {offset : Nat} {v : Vfs I}

lemma loadInitrdFrom_done (h : itemAt data offset = .done) :
    loadInitrdFrom data offset v = .ok v := by
  rw [loadInitrdFrom]
  split <;> simp_all

variable {name path : Name} {p : List Name} {next : Nat} {contents bytes : List Byte}

variable {items : List (Name × List Byte)} {o : Object} {e : Entry}
  {E : Name → Listing → List Entry}

lemma loadInitrdFrom_dir (h : itemAt data offset = .dir name next) (hnext : next < data.length) :
    loadInitrdFrom data offset v =
      loadInitrdFrom data next (if name = [] then v else (v.createDir name).2) := by
  have hpos := (itemAt_next (show (itemAt data offset).next? = some next by rw [h]; rfl)).1
  rw [loadInitrdFrom]
  split
  all_goals (rename_i heq; rw [h] at heq; cases heq)
  rw [if_neg (by omega)]

lemma loadInitrdFrom_file (h : itemAt data offset = .file name contents next)
    (hnext : next < data.length) : loadInitrdFrom data offset v =
      (v.writeFile name contents).bind fun out => loadInitrdFrom data next out.2 := by
  have hpos := (itemAt_next (show (itemAt data offset).next? = some next by rw [h]; rfl)).1
  rw [loadInitrdFrom]
  split
  all_goals (rename_i heq; rw [h] at heq; cases heq)
  cases v.writeFile name contents with
  | error e => rfl
  | ok out =>
    simp only [Except.bind]
    rw [if_neg (by omega)]

/-- The bytes of a list of entries, and then the end marker. -/
inductive Archive : List (Name × List Byte) → List Byte → Prop
  | nil {bytes : List Byte} (h : IsEntry trailer [] bytes) : Archive [] bytes
  | cons {name : Name} {contents bytes rest : List Byte} {items : List (Name × List Byte)}
      (h : IsEntry name contents bytes) (hrest : Archive items rest) :
      Archive ((name, contents) :: items) (bytes ++ rest)

lemma Archive.length_pos (h : Archive items bytes) : 0 < bytes.length := by
  have hent : ∀ {name contents b}, IsEntry name contents b → 0 < b.length := by
    rintro name contents b ⟨header, hhd, rfl⟩
    have := hhd.length
    rw [entryBytes, length_append, length_append]
    omega
  cases h with
  | nil h => exact hent h
  | cons h _ =>
    have := hent h
    rw [length_append]
    omega

structure Kept (name : Name) : Prop where
  size : (RamDirHandle.utf8 name).length + 1 ≤ 4096
  trailer : name ≠ trailer
  dots : ¬ ['.', '.'] <:+: name

def unpack (v : Vfs I) (item : Name × List Byte) : Except Panic (Vfs I) :=
  if item.1.getLast? = some '/' then
    .ok (if item.1.dropLast = [] then v else (v.createDir item.1.dropLast).2)
  else (v.writeFile item.1 item.2).map Prod.snd

lemma Kept.itemAt (h : Kept name) (hent : IsEntry name contents bytes) (pre post : List Byte) :
    itemAt (pre ++ (bytes ++ post)) pre.length =
      if name.getLast? = some '/' then .dir name.dropLast (pre ++ bytes).length
      else .file name contents (pre ++ bytes).length := by
  obtain ⟨header, hhd, rfl⟩ := hent
  have hdots : hasDotDot name = false := by simp [hasDotDot, h.dots]
  rw [itemAt_append, itemAt_entry hhd h.size, Item.of, if_neg h.trailer, hdots,
    length_append]
  split_ifs <;> simp_all [Item.shift]

lemma loadInitrdFrom_archive (h : Archive items bytes) (hkept : ∀ item ∈ items, Kept item.1)
    (pre : List Byte) (v : Vfs I) :
    loadInitrdFrom (pre ++ bytes) pre.length v = items.foldlM unpack v := by
  induction h generalizing pre v with
  | nil h =>
    obtain ⟨header, hhd, rfl⟩ := h
    have hitem := itemAt_append pre (entryBytes header trailer [])
    have hent := itemAt_entry hhd (by decide) []
    rw [append_nil] at hent
    rw [hent] at hitem
    exact loadInitrdFrom_done hitem
  | @cons name contents bytes rest items h hrest ih =>
    have hname : Kept name := hkept _ (mem_cons_self ..)
    have hitem := hname.itemAt h pre rest
    have hnext : (pre ++ bytes).length < (pre ++ (bytes ++ rest)).length := by
      have := hrest.length_pos
      simp only [length_append]
      omega
    have hih := ih (fun item hitem => hkept item (mem_cons_of_mem _ hitem)) (pre ++ bytes)
    rw [append_assoc] at hih
    rw [foldlM_cons, unpack]
    by_cases hslash : name.getLast? = some '/'
    · rw [if_pos hslash] at hitem
      rw [if_pos hslash, loadInitrdFrom_dir hitem hnext, hih]
      rfl
    rw [if_neg hslash] at hitem
    rw [if_neg hslash, loadInitrdFrom_file hitem hnext]
    cases v.writeFile name contents with
    | error e => rfl
    | ok out => exact hih out.2

/-! ## Parts of the tree -/

structure Within (T : View) (v : Vfs I) : Prop where
  sound : v.ram.Sound
  mounts : v.mounts = []
  part : ∀ q, v.ram.view q = none ∨ v.ram.view q = T q

/-- Above every object of the tree there are directories. -/
def IsTree (T : View) : Prop := ∀ {p q o}, T p = some o → q <+: p → q ≠ p → T q = some .dir

/-- The next file system holds more of the tree, and what the tree has at `p`. -/
structure Extends (T : View) (v v' : Vfs I) (p : List Name) : Prop where
  within : Within T v'
  keeps : ∀ q, v.ram.view q = T q → v'.ram.view q = T q
  at_path : v'.ram.view p = T p

lemma Within.not_blocked {T : View} (hT : IsTree T) (h : Within T v) (hp : T p = some o) :
    v.ram.view.blocked p = false := by
  rw [Bool.eq_false_iff]
  intro hblk
  obtain ⟨q, hq, hne, b, hb⟩ := View.blocked_iff.mp hblk
  rcases h.part q with hnone | hsame
  · rw [hnone] at hb
    cases hb
  · rw [hsame, hT hp hq hne] at hb
    cases hb

lemma Within.add {T : View} (hT : IsTree T) (h : Within T v) (hp : T p = some o) {v' : Vfs I}
    (hsnd : v'.ram.Sound) (hmts : v'.mounts = []) (hview : v'.ram.view = v.ram.view.add p o) :
    Extends T v v' p := by
  have hoth : ∀ q, q ≠ p → v'.ram.view q = v.ram.view q ∨ v'.ram.view q = T q := by
    intro q hne
    rw [hview, View.add, if_neg hne]
    split_ifs with hq
    · exact .inr (hT hp hq.1 hne).symm
    · exact .inl rfl
  have hat : v'.ram.view p = T p := by rw [hview, View.add, if_pos rfl, hp]
  refine ⟨⟨hsnd, hmts, ?_⟩, ?_, hat⟩
  · intro q
    by_cases hq : q = p
    · exact .inr (hq ▸ hat)
    rcases hoth q hq with hsame | hsame
    · rw [hsame]
      exact h.part q
    · exact .inr hsame
  intro q hsame
  by_cases hq : q = p
  · exact hq ▸ hat
  · exact (hoth q hq).elim (fun heq => heq.trans hsame) id

lemma Extends.refl {T : View} (h : Within T v) (hp : v.ram.view p = T p) : Extends T v v p :=
  ⟨h, fun _ => id, hp⟩

/-! ## Unpacking one entry -/

lemma Within.createDir {T : View} (hT : IsTree T) {v : Vfs Empty} (h : Within T v)
    (hne : parts path ≠ []) (hp : T (parts path) = some .dir) :
    Extends T v (v.createDir path).2 (parts path) := by
  have href := createDir_refines noDrivers h.sound path
  have hblk := h.not_blocked hT hp
  rcases hout : v.createDir path with ⟨e | u, v'⟩
  · obtain ⟨hspec, hsame⟩ := href.error (by rw [hout])
    rw [hout] at hsame
    rw [hsame]
    refine .refl h ?_
    rcases h.part (parts path) with hnone | hpart
    · simp [View.createDir, hne, hblk, hnone] at hspec
    · exact hpart
  obtain ⟨t, hspec, hupdated⟩ := href.ok (by rw [hout])
  rw [hout] at hupdated
  rcases h.part (parts path) with hnone | hpart
  · simp only [View.createDir, hne, hblk, hnone, or_self, if_false, Bool.false_eq_true,
      Option.some.injEq] at hspec
    exact h.add hT hp hupdated.sound (hupdated.mounts.trans h.mounts)
      (hupdated.view.trans hspec.symm)
  · simp [View.createDir, hne, hblk, hpart, hp] at hspec

lemma view_update {r : Ram} (h : r.Sound) {f : Nat} (hp : r.tree p = some (.file f))
    (contents : List Byte) (q : List Name) :
    ({ r with files := update r.files f contents } : Ram).view q =
      if q = p then some (.file contents) else r.view q := by
  have htree : ({ r with files := update r.files f contents } : Ram).tree q = r.tree q :=
    rfl
  rw [Ram.view, htree]
  by_cases hq : q = p
  · simp [hq, hp, Ram.object]
  rw [if_neg hq, Ram.view]
  rcases hnode : r.tree q with _ | (g | d)
  · rfl
  · -- another path has another cell
    have hne : g ≠ f := by
      rintro rfl
      exact hq (h.tree_injective hnode hp)
    simp [Ram.object, update_of_ne hne]
  · rfl

lemma Within.writeFile {T : View} (hT : IsTree T) {v : Vfs Empty} (h : Within T v)
    (hne : parts path ≠ []) (hp : T (parts path) = some (.file contents))
    (hsize : contents.length < 2 ^ 32) :
    ∃ n v', v.writeFile path contents = .ok (.ok n, v') ∧ Extends T v v' (parts path) := by
  have href := createFile_refines noDrivers h.mounts h.sound path
  have hblk := h.not_blocked hT hp
  have hpart := h.part (parts path)
  rw [hp] at hpart
  rcases hout : v.createFile path with ⟨e | f, v1⟩
  · -- the path is free, or it is this file
    obtain ⟨hspec, -⟩ := href.error (by rw [hout])
    rcases hpart with hnone | hfile
    · simp [View.createFile, hne, hblk, hnone] at hspec
    · simp [View.createFile, hne, hblk, hfile] at hspec
  obtain ⟨-, hmts, hsnd, htree, hpos, hfs⟩ := createFile_tree h.sound hout
  obtain ⟨t, hspec, hupdated⟩ := href.ok (by rw [hout])
  rw [hout] at hupdated
  have hold : v.contents path = [] ∨ v.contents path = contents := by
    rcases hpart with hnone | hfile
    · exact .inl (contents_of_none (Ram.view_eq_none.mp hnone))
    · obtain ⟨g, hg, hgc⟩ := Ram.view_eq_file.mp hfile
      exact .inr ((contents_of_file hg).trans hgc)
  have hwrt : overwrite (v1.ram.files f.data) f.pos contents = contents := by
    rw [hpos, hfs, overwrite_zero]
    rcases hold with hold | hold <;> simp [hold]
  have hfits : ¬ ((v1.ram.files f.data).length < f.pos + contents.length ∧
      VEC_MAX < f.pos + contents.length) := by
    have hmax : 2 ^ 32 ≤ VEC_MAX := by decide
    omega
  have hrun : v.writeFile path contents = .ok (.ok contents.length, { v1 with ram :=
      { v1.ram with files := update v1.ram.files f.data contents } }) := by
    simp only [Vfs.writeFile, hout, RamFileHandle.write, if_neg hfits, hwrt]
  have hview : ({ v1.ram with files := update v1.ram.files f.data contents } : Ram).view =
      v.ram.view.add (parts path) (.file contents) := by
    funext q
    rw [view_update hsnd htree, View.add]
    by_cases hq : q = parts path
    · rw [if_pos hq, if_pos hq]
    rw [if_neg hq, if_neg hq, hupdated.view]
    rcases hpart with hnone | hfile
    · simp only [View.createFile, hne, hblk, hnone, or_self, if_false, Bool.false_eq_true,
        Option.some.injEq] at hspec
      rw [← hspec, View.add, if_neg hq]
    -- the directories above a file are there
    simp only [View.createFile, hne, hblk, hfile, or_self, if_false, Bool.false_eq_true,
      Option.some.injEq] at hspec
    obtain ⟨g, hg, -⟩ := Ram.view_eq_file.mp hfile
    have habove : ¬ (q <+: parts path ∧ v.ram.view q = none) := by
      rintro ⟨hpre, hnone⟩
      obtain ⟨d, hd⟩ := Ram.tree_dir_of_isPrefix hg hpre hq
      rw [Ram.view_eq_none, hd] at hnone
      cases hnone
    rw [if_neg habove, ← hspec]
  refine ⟨_, _, hrun, h.add hT hp ?_ (hmts.trans h.mounts) hview⟩
  exact ⟨hsnd.dir_lt, hsnd.file_lt, hsnd.unused, hsnd.root_lt, hsnd.root_top,
    hsnd.parent⟩

/-- The entry for an object, as the parser reads it. -/
def itemOf (p : List Name) : Object → Name × List Byte
  | .dir => (pathName p ++ ['/'], [])
  | .file contents => (pathName p, contents)

/-- The tree is one that the archive format can hold. -/
structure Loadable (T : View) : Prop where
  tree : IsTree T
  names : ∀ p o, T p = some o → ∀ n ∈ p, GoodName n
  trailer : ∀ contents, T [trailer] ≠ some (.file contents)
  paths : ∀ p o, T p = some o → (RamDirHandle.utf8 (pathName p)).length ≤ 4094
  sizes : ∀ p contents, T p = some (.file contents) → contents.length < 2 ^ 32

variable {T : View} {v : Vfs Empty}

lemma Loadable.unpack (hT : Loadable T) (h : Within T v) (hp : T p = some o) (hne : p ≠ []) :
    ∃ v', unpack v (itemOf p o) = .ok v' ∧ Extends T v v' p := by
  have hgood := hT.names p o hp
  have hpts := parts_pathName hgood
  have hname : pathName p ≠ [] := by rwa [Ne, pathName_eq_nil hgood]
  cases o with
  | dir =>
    refine ⟨(v.createDir (pathName p)).2, ?_, ?_⟩
    · simp [Vfs.unpack, itemOf, hname]
    rw [← hpts] at hp hne
    have hext := h.createDir hT.tree hne hp
    rwa [hpts] at hext
  | file contents =>
    have hsize := hT.sizes p contents hp
    rw [← hpts] at hp hne
    obtain ⟨n, v', hrun, hext⟩ := h.writeFile hT.tree hne hp hsize
    rw [hpts] at hext
    refine ⟨v', ?_, hext⟩
    rw [Vfs.unpack, itemOf, if_neg (getLast?_pathName hgood), hrun]
    rfl

lemma Loadable.kept (hT : Loadable T) (hp : T p = some o) : Kept (itemOf p o).1 := by
  have hgood := hT.names p o hp
  have hsize := hT.paths p o hp
  cases o with
  | dir =>
    refine ⟨?_, ?_, ?_⟩
    · have hlen : (utf8 (pathName p ++ ['/'])).length
          = (utf8 (pathName p)).length + 1 := by
        rw [utf8, flatMap_append, length_append]
        rfl
      rw [itemOf, hlen]
      omega
    · intro htrl
      have hlast := congrArg getLast? htrl
      rw [itemOf, getLast?_concat] at hlast
      exact absurd hlast (by decide)
    intro hdots
    rcases dots_append (b := []) hdots with hdots | hdots
    · exact dots_pathName hgood hdots
    · simp at hdots
  | file contents =>
    refine ⟨Nat.succ_le_succ (hsize.trans (by omega)), ?_, dots_pathName hgood⟩
    intro htrl
    have htrl : pathName p = Initrd.trailer := htrl
    have hpts := parts_pathName hgood
    rw [htrl] at hpts
    have hone : parts Initrd.trailer = [Initrd.trailer] := by decide
    rw [hone] at hpts
    exact hT.trailer contents (hpts ▸ hp)

/-- The entry for the root, which only one script writes. -/
def rootItem : Name × List Byte := (['/'], [])

/-- Unpacking stays within the tree, and what was unpacked stays there. -/
lemma Loadable.foldlM (hT : Loadable T) (items : List (Name × List Byte))
    (h : Within T v)
    (hitems : ∀ item ∈ items, item = rootItem ∨ ∃ p o, T p = some o ∧ p ≠ [] ∧ item = itemOf p o) :
    ∃ v', items.foldlM Vfs.unpack v = .ok v' ∧ Within T v' ∧
      (∀ q, v.ram.view q = T q → v'.ram.view q = T q) ∧
      ∀ p o, T p = some o → p ≠ [] → itemOf p o ∈ items → v'.ram.view p = T p := by
  induction items generalizing v with
  | nil => exact ⟨v, rfl, h, fun _ => id, by simp⟩
  | cons item items ih =>
    have hrest : ∀ i ∈ items, i = rootItem ∨ ∃ p o, T p = some o ∧ p ≠ [] ∧ i = itemOf p o :=
      fun i hi => hitems i (mem_cons_of_mem item hi)
    -- one entry: the file system stays a part of the tree and keeps what it has
    have hstep : ∃ v1, Vfs.unpack v item = .ok v1 ∧ Within T v1 ∧
        ∀ q, v.ram.view q = T q → v1.ram.view q = T q := by
      rcases hitems item (mem_cons_self ..) with rfl | ⟨p, o, hp, hne, rfl⟩
      · exact ⟨v, rfl, h, fun _ => id⟩
      · obtain ⟨v1, hrun, hext⟩ := hT.unpack h hp hne
        exact ⟨v1, hrun, hext.within, hext.keeps⟩
    obtain ⟨v1, hrun, hwi, hkps⟩ := hstep
    obtain ⟨v', hfold, hwi', hkps', hdone⟩ := ih hwi hrest
    refine ⟨v', ?_, hwi', fun q hq => hkps' q (hkps q hq), ?_⟩
    · rw [foldlM_cons, hrun]
      exact hfold
    intro p o hp hne hmem
    rcases mem_cons.mp hmem with hitem | hmem
    · obtain ⟨v2, hrun2, hext⟩ := hT.unpack h hp hne
      rw [hitem, hrun] at hrun2
      rw [Except.ok.inj hrun2] at hkps'
      exact hkps' p hext.at_path
    · exact hdone p o hp hne hmem

lemma Loadable.unpacked (hT : Loadable T) (hroot : T [] = some .dir) (harc : Archive items bytes)
    (hitems : ∀ item ∈ items, item = rootItem ∨ ∃ p o, T p = some o ∧ p ≠ [] ∧ item = itemOf p o)
    (hall : ∀ p o, T p = some o → p ≠ [] → itemOf p o ∈ items) :
    ∃ v, loadInitrd bytes emptyVfs = .ok v ∧ v.ram.view = T := by
  have hkept : ∀ item ∈ items, Kept item.1 := by
    intro item hitem
    rcases hitems item hitem with rfl | ⟨p, o, hp, -, rfl⟩
    · exact ⟨by decide, by decide, by decide⟩
    · exact hT.kept hp
  have hemp : Within T emptyVfs := by
    refine ⟨Ram.Sound.new, rfl, ?_⟩
    intro q
    cases q with
    | nil => exact .inr hroot.symm
    | cons n q =>
      left
      rw [Ram.view_eq_none]
      exact Ram.tree_none_of_isPrefix (p := [n]) rfl ⟨q, rfl⟩
  obtain ⟨v, hrun, hwi, hkps, hdone⟩ := hT.foldlM items hemp hitems
  refine ⟨v, ?_, ?_⟩
  · rw [← hrun]
    exact loadInitrdFrom_archive harc hkept [] emptyVfs
  funext q
  by_cases hq : q = []
  · rw [hq]
    exact hkps [] hroot.symm
  cases hT' : T q with
  | none => exact (hwi.part q).elim id fun hsame => hsame.trans hT'
  | some o => rw [hdone q o hT' hq (hall q o hT' hq), hT']

/-! ## Both scripts -/

/-- A directory on disk that the archive format can hold. -/
structure Suitable (root : Listing) : Prop where
  distinct : root.Distinct
  names : ∀ p o, root.view p = some o → ∀ n ∈ p, GoodName n
  trailer : ∀ contents, root.view [trailer] ≠ some (.file contents)
  paths : ∀ p o, root.view p = some o → (RamDirHandle.utf8 (pathName p)).length ≤ 4094
  sizes : ∀ p contents, root.view p = some (.file contents) → contents.length < 2 ^ 32

variable {root : Listing}

lemma Suitable.loadable (h : Suitable root) : Loadable root.view where
  tree hp hq hne := root.view_dir_of_isPrefix hp hq hne
  names := h.names
  trailer := h.trailer
  paths := h.paths
  sizes := h.sizes

lemma Suitable.good (h : Suitable root) : Good [] root := by
  intro p o hp n hn
  exact h.names p o hp n hn

def entryItem (e : Entry) : Name × List Byte := (e.name, if e.isDir then [] else e.data)

lemma entryItem_of_describes (h : Describes p o e) : entryItem e = itemOf p o := by
  cases o <;> (cases h; rfl)

lemma Suitable.entry (hE : Walks E) (h : Suitable root) (he : e ∈ E [] root) :
    ∃ p o, root.view p = some o ∧ p ≠ [] ∧ Describes p o e := by
  obtain ⟨p, o, hp, hne, hdesc⟩ := hE.describes (r := []) h.distinct h.good he
  exact ⟨p, o, hp, hne, hdesc⟩

lemma Suitable.exists_item (hE : Walks E) (h : Suitable root) (hp : root.view p = some o)
    (hne : p ≠ []) : itemOf p o ∈ (E [] root).map entryItem := by
  obtain ⟨e, he, hdesc⟩ := hE.exists_entry (r := []) h.distinct h.good hp hne
  exact mem_map.mpr ⟨e, he, entryItem_of_describes hdesc⟩

lemma Suitable.entry_sizes (h : Suitable root) (hp : root.view p = some o)
    (hdesc : Describes p o e) : (utf8 e.name).length + 1 ≤ 4096 ∧ e.data.length < 2 ^ 32 := by
  have hkept := (h.loadable.kept hp).size
  rw [← entryItem_of_describes hdesc] at hkept
  refine ⟨hkept, ?_⟩
  cases o with
  | dir =>
    cases hdesc
    exact Nat.two_pow_pos 32
  | file contents =>
    cases hdesc
    exact h.sizes p contents hp

lemma isEntry_trailer : IsEntry trailer [] buildTrailer :=
  show IsEntry trailer (if false then [] else []) buildTrailer from
    isEntry_buildEntry (by decide) (by decide) (by decide)

lemma archive_build (entries : List Entry)
    (h : ∀ e ∈ entries, (utf8 e.name).length + 1 ≤ 4096 ∧ e.data.length < 2 ^ 32) :
    Archive (entries.map entryItem)
      (entries.flatMap (fun e => buildEntry e.name e.data 0o100644 e.isDir) ++ buildTrailer) := by
  induction entries with
  | nil => exact .nil isEntry_trailer
  | cons e entries ih =>
    obtain ⟨hname, hdata⟩ := h e (mem_cons_self ..)
    rw [flatMap_cons, append_assoc]
    exact .cons (isEntry_buildEntry hname hdata (by decide))
      (ih fun e' he' => h e' (mem_cons_of_mem e he'))

/-- A name that `make_initrd.py` writes as it is. -/
structure Ascii (e : Entry) : Prop where
  ascii : ∀ c ∈ e.name, c.toNat < 128
  kept : e.isDir → e.name.rdropWhile (· = '/') ++ ['/'] = e.name

lemma archive_make (entries : List Entry)
    (h : ∀ e ∈ entries, (utf8 e.name).length + 1 ≤ 4096 ∧ e.data.length < 2 ^ 32)
    (hasc : ∀ e ∈ entries, Ascii e) {last : List Byte} (hlast : IsEntry trailer [] last) :
    ∃ bytes, (entries.mapM fun e => cpioNewcEntry e.name e.data e.isDir) = some bytes ∧
      Archive (entries.map entryItem) (bytes.flatten ++ last) := by
  induction entries with
  | nil => exact ⟨[], rfl, .nil hlast⟩
  | cons e entries ih =>
    obtain ⟨hname, hdata⟩ := h e (mem_cons_self ..)
    have he := hasc e (mem_cons_self ..)
    have hstr : e.name = if e.isDir then e.name.rdropWhile (· = '/') ++ ['/'] else e.name := by
      split_ifs with hdir
      · exact (he.kept hdir).symm
      · rfl
    obtain ⟨b, hb, hent⟩ := cpioNewcEntry_eq e.name e.data e.isDir hstr he.ascii hname hdata
    obtain ⟨bytes, hbs, harc⟩ := ih (fun e' he' => h e' (mem_cons_of_mem e he'))
      fun e' he' => hasc e' (mem_cons_of_mem e he')
    refine ⟨b :: bytes, ?_, ?_⟩
    · rw [mapM_cons, hb, hbs]
      rfl
    · rw [flatten_cons, append_assoc]
      exact .cons hent harc

def AsciiNames (root : Listing) : Prop :=
  ∀ p o, root.view p = some o → ∀ n ∈ p, ∀ c ∈ n, c.toNat < 128

lemma ascii_pathName (h : ∀ n ∈ p, ∀ c ∈ n, c.toNat < 128) : ∀ c ∈ pathName p, c.toNat < 128 := by
  induction p using reverseRecOn with
  | nil => simp [pathName]
  | append_singleton p n ih =>
    have hn := h n (by simp)
    have hp := ih fun m hm => h m (mem_append_left _ hm)
    rw [pathName_concat, joinName]
    split_ifs
    · exact hn
    intro c hc
    rcases mem_append.mp hc with hc | hc
    · exact hp c hc
    rcases mem_cons.mp hc with rfl | hc
    · decide
    · exact hn c hc

lemma ascii_of_describes (hgood : ∀ n ∈ p, GoodName n) (h : ∀ n ∈ p, ∀ c ∈ n, c.toNat < 128)
    (hdesc : Describes p o e) : Ascii e := by
  have hpath := ascii_pathName h
  cases o with
  | dir =>
    cases hdesc
    refine ⟨?_, ?_⟩
    · intro c hc
      rcases mem_append.mp hc with hc | hc
      · exact hpath c hc
      · rw [mem_singleton.mp hc]
        decide
    intro _
    have hself : (pathName p).rdropWhile (· = '/') = pathName p := by
      rw [rdropWhile_eq_self_iff]
      intro hne hlast
      apply getLast?_pathName hgood
      rw [getLast?_eq_some_getLast hne, of_decide_eq_true hlast]
    dsimp only
    rw [rdropWhile_concat_pos _ _ _ (by simp), hself]
  | file contents =>
    cases hdesc
    exact ⟨hpath, fun hdir => by cases hdir⟩

/-- **Round trip.**  The archive of either script (the second for ASCII names), loaded into an empty
file system, gives the tree it was built from. -/
theorem initrd_round_trip (root : Listing) (h : Suitable root) :
    (∃ v, loadInitrd (buildInitrd root) emptyVfs = .ok v ∧ v.ram.view = root.view) ∧
      (AsciiNames root → ∃ archive, makeInitrd root = some archive ∧
        ∃ v, loadInitrd archive emptyVfs = .ok v ∧ v.ram.view = root.view) := by
  have hload := h.loadable
  constructor
  · have harc := archive_build (buildEntries [] root) fun e he => by
      obtain ⟨p, o, hp, -, hdesc⟩ := h.entry walks_build he
      exact h.entry_sizes hp hdesc
    refine hload.unpacked root.view_nil harc ?_ fun p o => h.exists_item walks_build
    intro item hitem
    obtain ⟨e, he, rfl⟩ := mem_map.mp hitem
    obtain ⟨p, o, hp, hne, hdesc⟩ := h.entry walks_build he
    exact .inr ⟨p, o, hp, hne, entryItem_of_describes hdesc⟩
  intro hasc
  -- the end marker and the entry for the root come from the same function
  have hslash : (['/'] : Name) = if true then ([] : Name).rdropWhile (· = '/') ++ ['/']
    else [] := by
    decide
  have htrl : (utf8 trailer).length = 10 := by decide +kernel
  have htrailerAscii : ∀ c ∈ trailer, c.toNat < 128 := by
    have hall : (trailer.all fun c => c.toNat < 128) = true := by decide +kernel
    simpa using hall
  have hroot : (utf8 ['/']).length = 1 := by decide +kernel
  have hrootAscii : ∀ c ∈ (['/'] : Name), c.toNat < 128 := by
    intro c hc
    rw [mem_singleton.mp hc]
    decide
  have hemp : ([] : List Byte).length < 2 ^ 32 := Nat.pow_pos (by decide)
  obtain ⟨last, hlast, hlastEntry⟩ :=
    @cpioNewcEntry_eq trailer trailer [] false rfl htrailerAscii (by omega) hemp
  obtain ⟨first, hfst, hfirstEntry⟩ :=
    cpioNewcEntry_eq [] [] true hslash hrootAscii (by omega) hemp
  obtain ⟨bytes, hbs, harc⟩ := archive_make (makeEntries [] root)
    (fun e he => by
      obtain ⟨p, o, hp, -, hdesc⟩ := h.entry walks_make he
      exact h.entry_sizes hp hdesc)
    (fun e he => by
      obtain ⟨p, o, hp, -, hdesc⟩ := h.entry walks_make he
      exact ascii_of_describes (h.names p o hp) (hasc p o hp) hdesc) hlastEntry
  refine ⟨first ++ (bytes.flatten ++ last), ?_, ?_⟩
  · rw [makeInitrd, mapM_cons, hfst, hbs, makeTrailer, hlast]
    simp
  refine hload.unpacked root.view_nil (.cons hfirstEntry harc) ?_ ?_
  · intro item hitem
    rcases mem_cons.mp hitem with rfl | hitem
    · exact .inl rfl
    obtain ⟨e, he, rfl⟩ := mem_map.mp hitem
    obtain ⟨p, o, hp, hne, hdesc⟩ := h.entry walks_make he
    exact .inr ⟨p, o, hp, hne, entryItem_of_describes hdesc⟩
  · intro p o hp hne
    exact mem_cons_of_mem _ (h.exists_item walks_make hp hne)

/-! ## Directories with one file -/

def oneFile (contents : List Byte) : Listing := .file ['a'] contents .empty

lemma view_oneFile (h : (oneFile contents).view p = some o) :
    p = [] ∧ o = .dir ∨ p = [['a']] ∧ o = .file contents := by
  cases p with
  | nil =>
    exact .inl ⟨rfl, (Option.some.inj h).symm⟩
  | cons n p =>
    simp only [oneFile, Listing.view] at h
    split_ifs at h with hn hp
    exact .inr ⟨by rw [hn, hp], (Option.some.inj h).symm⟩

lemma suitable_oneFile (hsize : contents.length < 2 ^ 32) :
    Suitable (oneFile contents) where
  distinct := ⟨by simp [Listing.names], trivial⟩
  names p o hp n hn := by
    rcases view_oneFile hp with ⟨rfl, -⟩ | ⟨rfl, -⟩
    · cases hn
    · rw [mem_singleton.mp hn]
      exact ⟨by decide, by decide, by decide, by decide, by decide⟩
  trailer c hc := by
    rcases view_oneFile hc with ⟨h, -⟩ | ⟨h, -⟩ <;> exact absurd h (by decide)
  paths p o hp := by
    rcases view_oneFile hp with ⟨rfl, -⟩ | ⟨rfl, -⟩ <;> decide
  sizes p c hp := by
    rcases view_oneFile hp with ⟨-, h⟩ | ⟨-, h⟩
    · cases h
    · cases h
      exact hsize

/-- A directory with one file of three bytes. -/
theorem initrd_round_trip_oneFile : Suitable (oneFile [1, 2, 3]) ∧
    ∃ v, loadInitrd (buildInitrd (oneFile [1, 2, 3])) emptyVfs = .ok v ∧
      v.ram.view = (oneFile [1, 2, 3]).view := by
  have hsuitable : Suitable (oneFile [1, 2, 3]) := suitable_oneFile (by decide)
  exact ⟨hsuitable, (initrd_round_trip (oneFile [1, 2, 3]) hsuitable).1⟩

end Vfs

end Indominus.Fs
