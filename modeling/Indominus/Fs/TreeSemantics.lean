import Indominus.Fs.Mounts

/-! # Creating and deleting as updates of a map from paths -/

namespace Indominus.Fs

open Memory List

/-! ## The map from paths -/

inductive Object
  | dir
  | file (contents : List Byte)
  deriving DecidableEq

abbrev View := List Name → Option Object

namespace View

/-- Some proper front part of the path is a regular file. -/
def blocked (t : View) (p : List Name) : Bool :=
  p.inits.dropLast.any fun q =>
    match t q with
    | some (.file _) => true
    | _ => false

/-- Put an object at `p`, and directories at the front parts of `p` where there is nothing. -/
def add (t : View) (p : List Name) (o : Object) : View := fun q =>
  if q = p then some o else if q <+: p ∧ t q = none then some .dir else t q

/-- Take away what is at `p`. -/
def remove (t : View) (p : List Name) : View := fun q => if q = p then none else t q

/-- Create a file; one that is there stays as it is. -/
def createFile (t : View) (p : List Name) : Option View :=
  if p = [] ∨ t.blocked p then none
  else
    match t p with
    | some .dir => none
    | some (.file _) => some t
    | none => some (t.add p (.file []))

def createDir (t : View) (p : List Name) : Option View :=
  if p = [] ∨ t.blocked p then none
  else
    match t p with
    | some _ => none
    | none => some (t.add p .dir)

def deleteFile (t : View) (p : List Name) : Option View :=
  match t p with
  | some (.file _) => some (t.remove p)
  | _ => none

lemma blocked_iff {t : View} {p : List Name} :
    t.blocked p = true ↔ ∃ q, q <+: p ∧ q ≠ p ∧ ∃ b, t q = some (.file b) := by
  have hmem : ∀ q, q ∈ p.inits.dropLast ↔ q <+: p ∧ q ≠ p := by
    intro q
    induction p using reverseRecOn with
    | nil => simp
    | append_singleton p n _ =>
      have hlen : q <+: p → q ≠ p ++ [n] := by
        intro hq heq
        have := hq.length_le
        rw [heq] at this
        simp at this
      rw [inits_append]
      simp only [inits, tail_cons, map_cons, map_nil, dropLast_concat,
        mem_inits, prefix_concat_iff]
      constructor
      · exact fun hq => ⟨.inr hq, hlen hq⟩
      rintro ⟨hq | hq, hne⟩
      · exact absurd hq hne
      · exact hq
  simp only [blocked, any_eq_true, hmem, and_assoc]
  refine exists_congr fun q => and_congr_right fun _ => and_congr_right fun _ => ?_
  rcases t q with _ | (_ | b) <;> simp

end View

def Ram.object (r : Ram) : RamNode → Object
  | .dir _ => .dir
  | .file f => .file (r.files f)

def Ram.view (r : Ram) : View := fun p => (r.tree p).map r.object

variable {r : Ram} {p : List Name}

lemma Ram.view_eq_file {b : List Byte} :
    r.view p = some (.file b) ↔ ∃ f, r.tree p = some (.file f) ∧ r.files f = b := by
  unfold view
  rcases r.tree p with _ | (f | d) <;> simp [object]

lemma Ram.view_eq_none : r.view p = none ↔ r.tree p = none := by
  simp [view]

namespace Vfs

variable {I : Type}

/-! ## The walk along the parents -/

/-- Directories have been added, so that every front part of `t` is one. -/
structure Grown (r r' : Ram) (t : List Name) : Prop where
  sound : r'.Sound
  files : r'.files = r.files
  nextFile : r'.nextFile = r.nextFile
  keeps : ∀ {q node}, r.tree q = some node → r'.tree q = some node
  dirs : ∀ {q}, q <+: t → ∃ d, r'.tree q = some (.dir d)
  others : ∀ {q}, ¬ q <+: t → r'.tree q = r.tree q

variable {d e : Nat} {name path : Name} {parents : List Name} {node : RamNode} {r' r1 : Ram}

variable {α : Type} {v v' : Vfs I} {dev : Drivers I} {spec : Option View}

section

variable {r : Ram} {p : List Name} {d : Nat} (h : r.Sound) (hp : r.tree p = some (.dir d))

include h hp

lemma Grown.refl : Grown r r p where
  sound := h
  files := rfl
  nextFile := rfl
  keeps := id
  dirs {q} hq := by
    by_cases heq : q = p
    · exact ⟨d, heq ▸ hp⟩
    · exact Ram.tree_dir_of_isPrefix hp hq heq
  others _ := rfl

lemma Grown.cons {r' : Ram} {rest : List Name} {n : Name} (habs : r.entry d n = none)
    (hgr : Grown (r.newDir.link d n (.dir r.nextDir)) r' (p ++ n :: rest)) :
    Grown r r' (p ++ n :: rest) := by
  obtain ⟨-, htree⟩ := h.linkDir hp habs
  refine ⟨hgr.sound, hgr.files, hgr.nextFile, ?_, hgr.dirs, ?_⟩
  · intro q node hq
    have hne : q ≠ p ++ [n] := by
      rintro rfl
      rw [Ram.tree_concat_dir hp, habs] at hq
      cases hq
    exact hgr.keeps (by rw [htree, if_neg hne, hq])
  intro q hq
  have hne : q ≠ p ++ [n] := by
    rintro rfl
    exact hq ⟨rest, by simp⟩
  rw [hgr.others hq, htree, if_neg hne]

/-- The directories are there afterwards, or a file is in the way. -/
lemma resolveOrCreateParents_cases (rest : List Name) :
    (∃ e r', resolveOrCreateParents r (.dir d) rest = (.ok (.dir e), r') ∧
      r'.tree (p ++ rest) = some (.dir e) ∧ Grown r r' (p ++ rest) ∧
      ((r.tree (p ++ rest)).isSome → r' = r)) ∨
      (resolveOrCreateParents r (.dir d) rest = (.error .notDirectory, r) ∧ ∃ q f, p <+: q ∧ q ≠ p ∧
      q <+: p ++ rest ∧ r.tree q = some (.file f)) := by
  induction rest generalizing r p d with
  | nil => exact .inl ⟨d, r, rfl, by simpa using hp, by simpa using Grown.refl h hp, fun _ => rfl⟩
  | cons n rest ih =>
    have hpath : p ++ [n] ++ rest = p ++ n :: rest := by simp
    have hlng : ∀ {q}, p ++ [n] <+: q → p <+: q ∧ q ≠ p := by
      rintro q hq
      refine ⟨(prefix_append p [n]).trans hq, ?_⟩
      rintro rfl
      simpa using hq.length_le
    unfold resolveOrCreateParents
    cases hn : r.entry d n with
    | some node =>
      have hlookup : r.lookup (.dir d) n = .ok node := Ram.lookup_eq_ok.mpr hn
      have hnext : r.tree (p ++ [n]) = some node := by rw [Ram.tree_concat_dir hp, hn]
      cases node with
      | dir e =>
        simp only [hlookup, RamNode.isDir, if_true]
        rcases ih h hnext with ⟨e', r', hrun, htree, hgr, hsame⟩ | ⟨hrun, q, f, hq, -, hqt, hf⟩
        · exact .inl ⟨e', r', hrun, hpath ▸ htree, hpath ▸ hgr, hpath ▸ hsame⟩
        · exact .inr ⟨hrun, q, f, (hlng hq).1, (hlng hq).2, hpath ▸ hqt, hf⟩
      | file f =>
        simp only [hlookup, RamNode.isDir, Bool.false_eq_true, if_false]
        exact .inr ⟨trivial, p ++ [n], f, prefix_append _ _, by simp, ⟨rest, hpath⟩, hnext⟩
    | none =>
      have hlookup : r.lookup (.dir d) n = .error .notFound := by simp [Ram.lookup, hn]
      have hcr : r.createChildDir (.dir d) n =
          (.ok (), r.newDir.link d n (.dir r.nextDir)) := by
        simp [Ram.createChildDir, hn]
      obtain ⟨hsnd, htree⟩ := h.linkDir hp hn
      have hnext := (htree (p ++ [n])).trans (if_pos rfl)
      have hlookup' : (r.newDir.link d n (.dir r.nextDir)).lookup (.dir d) n =
          .ok (.dir r.nextDir) := by
        rw [Ram.lookup_eq_ok]
        simp [Ram.child, Ram.entry_link]
      have habs : r.tree (p ++ [n]) = none := by rw [Ram.tree_concat_dir hp, hn]
      simp only [hlookup, hcr, hlookup']
      rcases ih hsnd hnext with ⟨e, r', hrun, hend, hgr, -⟩ | ⟨-, q, f, hq, hne, -, hf⟩
      · rw [hpath] at hend hgr
        refine .inl ⟨e, r', hrun, hend, hgr.cons h hp hn, fun hsome => ?_⟩
        rw [← hpath, Ram.tree_none_of_isPrefix habs (prefix_append _ _)] at hsome
        cases hsome
      -- the new directory is empty: no regular file can be met below it
      rw [htree, if_neg hne, Ram.tree_none_of_isPrefix habs hq] at hf
      cases hf

end

/-! ## The last component -/

lemma createFile_eq (hpts : parts path = parents ++ [name])
    (hmnt : parents = [] → v.isMountPoint name = false) :
    v.createFile path =
      ((createBelow v.ram Ram.createChildFile parents name).1,
        { v with ram := (createBelow v.ram Ram.createChildFile parents name).2 }) := by
  unfold createFile
  cases parents with
  | nil =>
    simp only [hpts, nil_append, hmnt rfl, Bool.false_eq_true, if_false]
    rfl
  | cons part parents =>
    cases parents with
    | nil => simp [hpts]
    | cons part' parents =>
      simp only [hpts, cons_append]
      rw [← cons_append, ← cons_append, dropLast_concat, getLastD_concat]

lemma createDir_eq (hpts : parts path = parents ++ [name]) :
    v.createDir path =
      ((createBelow v.ram Ram.createChildDir parents name).1,
        { v with ram := (createBelow v.ram Ram.createChildDir parents name).2 }) := by
  unfold createDir
  cases parents with
  | nil =>
    simp only [hpts, nil_append]
    rfl
  | cons part parents =>
    cases parents with
    | nil => simp [hpts]
    | cons part' parents =>
      simp only [hpts, cons_append]
      rw [← cons_append, ← cons_append, dropLast_concat, getLastD_concat]

lemma createBelow_cases (h : r.Sound) (create : Ram → RamNode → Name → Except VfsError α × Ram)
    (parents : List Name) (name : Name) :
    (∃ e r', createBelow r create parents name = create r' (.dir e) name ∧
        r'.tree parents = some (.dir e) ∧ Grown r r' parents ∧ ((r.tree parents).isSome → r' = r)) ∨
      (createBelow r create parents name = (.error .notDirectory, r) ∧
        ∃ q f, q <+: parents ∧ r.tree q = some (.file f)) := by
  unfold createBelow
  rcases resolveOrCreateParents_cases h (Ram.tree_nil r) parents with
    ⟨e, r', hrun, htree, hgr, hsame⟩ | ⟨hrun, q, f, -, -, hq, hf⟩
  · exact .inl ⟨e, r', by simp [hrun, RamNode.isDir], htree, hgr, hsame⟩
  · exact .inr ⟨by simp [hrun], q, f, hq, hf⟩

/-- A new node has been put at `p`, with directories at the front parts of `p`. -/
structure Placed (r r' : Ram) (p : List Name) (node : RamNode) : Prop where
  sound : r'.Sound
  absent : r.tree p = none
  at_path : r'.tree p = some node
  keeps : ∀ {q n}, r.tree q = some n → r'.tree q = some n
  dirs : ∀ {q}, q <+: p → q ≠ p → ∃ d, r'.tree q = some (.dir d)
  others : ∀ {q}, ¬ q <+: p → r'.tree q = r.tree q
  files : ∀ {f}, f < r.nextFile → r'.files f = r.files f

lemma Grown.placed (hgr : Grown r r1 parents) (hpar : r1.tree parents = some (.dir e))
    (habs : r1.entry e name = none)
    (hnew : r'.Sound ∧ ∀ q, r'.tree q = if q = parents ++ [name] then some node else r1.tree q)
    (hfs : ∀ {f}, f < r.nextFile → r'.files f = r.files f) :
    Placed r r' (parents ++ [name]) node := by
  have hlng : ¬ parents ++ [name] <+: parents := fun hp => by simpa using hp.length_le
  have hnone : r.tree (parents ++ [name]) = none := by
    rw [← hgr.others hlng, Ram.tree_concat_dir hpar, habs]
  refine ⟨hnew.1, hnone, by rw [hnew.2, if_pos rfl], ?_, ?_, ?_, hfs⟩
  · intro q n hq
    have hne : q ≠ parents ++ [name] := by
      rintro rfl
      rw [hnone] at hq
      cases hq
    rw [hnew.2, if_neg hne, hgr.keeps hq]
  · intro q hq hne
    rw [hnew.2, if_neg hne]
    exact hgr.dirs ((prefix_concat_iff.mp hq).resolve_left hne)
  intro q hq
  have hne : q ≠ parents ++ [name] := by
    rintro rfl
    exact hq prefix_rfl
  rw [hnew.2, if_neg hne, hgr.others fun hp => hq (hp.trans (prefix_append _ _))]

lemma Grown.eq_of_entry (hgr : Grown r r1 parents) (hpar : r1.tree parents = some (.dir e))
    (hsame : (r.tree parents).isSome → r1 = r) (hent : r1.entry e name = some node) :
    r.tree (parents ++ [name]) = some node ∧ r1 = r := by
  have hlng : ¬ parents ++ [name] <+: parents := fun hp => by simpa using hp.length_le
  have hnode : r.tree (parents ++ [name]) = some node := by
    rw [← hgr.others hlng, Ram.tree_concat_dir hpar, hent]
  obtain ⟨d, hd, -⟩ := Ram.tree_of_concat hnode
  exact ⟨hnode, hsame (by rw [hd]; rfl)⟩

lemma createBelow_file (h : r.Sound) (parents : List Name) (name : Name) :
    (∃ r', createBelow r Ram.createChildFile parents name = (.ok ⟨r.nextFile, 0⟩, r') ∧
        Placed r r' (parents ++ [name]) (.file r.nextFile) ∧ r'.files r.nextFile = []) ∨
      (∃ f, createBelow r Ram.createChildFile parents name = (.ok ⟨f, 0⟩, r) ∧
        r.tree (parents ++ [name]) = some (.file f)) ∨
      (∃ e d, createBelow r Ram.createChildFile parents name = (.error e, r) ∧
        r.tree (parents ++ [name]) = some (.dir d)) ∨
      (∃ e q f, createBelow r Ram.createChildFile parents name = (.error e, r) ∧ q <+: parents ∧
        r.tree q = some (.file f)) := by
  rcases createBelow_cases h Ram.createChildFile parents name with
    ⟨e, r1, hrun, hpar, hgr, hsame⟩ | ⟨hrun, q, f, hq, hf⟩
  · rw [hrun, Ram.createChildFile]
    cases hent : r1.entry e name with
    | none =>
      have hnew := hgr.sound.linkFile hpar hent
      rw [hgr.nextFile] at hnew ⊢
      refine .inl ⟨_, rfl, hgr.placed hpar hent hnew ?_, ?_⟩
      · intro f hf
        show Function.update r1.files r1.nextFile [] f = r.files f
        rw [hgr.nextFile, Function.update_of_ne hf.ne, hgr.files]
      · show Function.update r1.files r1.nextFile [] r.nextFile = []
        rw [hgr.nextFile, Function.update_self]
    | some node =>
      obtain ⟨hnode, rfl⟩ := hgr.eq_of_entry hpar hsame hent
      cases node with
      | file f => exact .inr (.inl ⟨f, rfl, hnode⟩)
      | dir d => exact .inr (.inr (.inl ⟨_, d, rfl, hnode⟩))
  · exact .inr (.inr (.inr ⟨_, q, f, hrun, hq, hf⟩))

lemma createBelow_dir (h : r.Sound) (parents : List Name) (name : Name) :
    (∃ d r', createBelow r Ram.createChildDir parents name = (.ok (), r') ∧
        Placed r r' (parents ++ [name]) (.dir d)) ∨
      (∃ e node, createBelow r Ram.createChildDir parents name = (.error e, r) ∧
        r.tree (parents ++ [name]) = some node) ∨
      (∃ e q f, createBelow r Ram.createChildDir parents name = (.error e, r) ∧ q <+: parents ∧
        r.tree q = some (.file f)) := by
  rcases createBelow_cases h Ram.createChildDir parents name with
    ⟨e, r1, hrun, hpar, hgr, hsame⟩ | ⟨hrun, q, f, hq, hf⟩
  · rw [hrun, Ram.createChildDir]
    cases hent : r1.entry e name with
    | none =>
      have hnew := hgr.sound.linkDir hpar hent
      exact .inl ⟨_, _, rfl, hgr.placed hpar hent hnew fun _ => congrFun hgr.files _⟩
    | some node =>
      obtain ⟨hnode, rfl⟩ := hgr.eq_of_entry hpar hsame hent
      exact .inr (.inl ⟨_, node, rfl, hnode⟩)
  · exact .inr (.inr ⟨_, q, f, hrun, hq, hf⟩)

lemma Placed.view (h : r.Sound) (hplc : Placed r r' p node) :
    r'.view = r.view.add p (r'.object node) := by
  have hobj : ∀ {q n}, r.tree q = some n → r'.view q = r.view q := by
    intro q n hq
    have hq' := hplc.keeps hq
    simp only [Ram.view, hq, hq', Option.map_some]
    cases n with
    | dir d => rfl
    | file f =>
      have hf : f < r.nextFile := by
        cases q using reverseRecOn with
        | nil => cases hq
        | append_singleton q m =>
          obtain ⟨d, -, hd⟩ := Ram.tree_of_concat hq
          exact h.file_lt hd
      simp only [Ram.object, hplc.files hf]
  funext q
  unfold View.add
  by_cases hqp : q = p
  · rw [if_pos hqp, hqp, Ram.view, hplc.at_path]
    rfl
  rw [if_neg hqp]
  cases hq : r.tree q with
  | some n =>
    have hsome : r.view q ≠ none := by simp [Ram.view_eq_none, hq]
    rw [if_neg fun hand => hsome hand.2, hobj hq]
  | none =>
    have hnone : r.view q = none := Ram.view_eq_none.mpr hq
    by_cases hpre : q <+: p
    · obtain ⟨d, hd⟩ := hplc.dirs hpre hqp
      rw [if_pos ⟨hpre, hnone⟩, Ram.view, hd]
      rfl
    · rw [if_neg fun hand => hpre hand.1, hnone, Ram.view_eq_none, hplc.others hpre, hq]

/-! ## Refinement -/

lemma not_rootPath (hpts : parts path ≠ []) : ¬ (path = ['/'] ∨ path = [] ∨ parts path = []) := by
  rintro (rfl | rfl | hp)
  · exact hpts (by decide)
  · exact hpts (by decide)
  · exact hpts hp

lemma resolve_toOption (dev : Drivers I) (v : Vfs I) (path : Name) : (v.resolve dev path).toOption =
      if parts path = [] then some (.ram (.dir v.ram.root)) else
        (v.mountFor (parts path)).elim ((v.ram.tree (parts path)).map .ram) fun m =>
          ((walk dev.lookup m.root ((parts path).drop (parts m.path).length)).map
            Inode.mounted).toOption := by
  unfold resolve
  by_cases hpts : parts path = []
  · simp [hpts, Except.toOption]
  rw [if_neg (not_rootPath hpts), if_neg hpts]
  cases v.mountFor (parts path) with
  | some m => rfl
  | none =>
    simp only [Ram.tree, Option.elim_none]
    cases walk v.ram.lookup (.dir v.ram.root) (parts path) <;> rfl

lemma resolve_congr (dev : Drivers I) (hmts : v'.mounts = v.mounts)
    (htree : v'.ram.tree (parts path) = v.ram.tree (parts path)) :
    (v'.resolve dev path).toOption = (v.resolve dev path).toOption := by
  rw [resolve_toOption, resolve_toOption]
  by_cases hpts : parts path = []
  · rw [hpts] at htree
    rw [if_pos hpts, if_pos hpts, Option.some.inj htree]
  · rw [if_neg hpts, if_neg hpts, mountFor, mountFor, hmts, htree]

/-- The file system now stands for the map `t`; paths that kept their object lead to the same
cell. -/
structure Updated (dev : Drivers I) (v v' : Vfs I) (t : View) : Prop where
  sound : v'.ram.Sound
  mounts : v'.mounts = v.mounts
  view : v'.ram.view = t
  resolve : ∀ path, t (parts path) = v.ram.view (parts path) →
    (v'.resolve dev path).toOption = (v.resolve dev path).toOption

lemma Updated.refl (dev : Drivers I) (h : v.ram.Sound) : Updated dev v v v.ram.view :=
  ⟨h, rfl, rfl, fun _ _ => rfl⟩

lemma Placed.updated (dev : Drivers I) (h : v.ram.Sound) (hplc : Placed v.ram r' p node) :
    Updated dev v { v with ram := r' } (v.ram.view.add p (r'.object node)) := by
  have hmts : ({ v with ram := r' } : Vfs I).mounts = v.mounts := rfl
  refine ⟨hplc.sound, hmts, hplc.view h, fun path hpath => resolve_congr dev hmts ?_⟩
  rw [← hplc.view h] at hpath
  cases hq : v.ram.tree (parts path) with
  | some n => exact hplc.keeps hq
  | none => exact Ram.view_eq_none.mp (hpath.trans (Ram.view_eq_none.mpr hq))

/-- An operation carries out an update of the map: it succeeds when the update is defined, and an
error changes nothing. -/
structure Refines {α : Type} (dev : Drivers I) (v : Vfs I) (spec : Option View)
    (out : Except VfsError α × Vfs I) : Prop where
  error : ∀ {e}, out.1 = .error e → spec = none ∧ out.2 = v
  ok : ∀ {a}, out.1 = .ok a → ∃ t, spec = some t ∧ Updated dev v out.2 t

lemma Refines.of_error {out : Except VfsError α × Vfs I} {e : VfsError} (hout : out = (.error e, v))
    (hspec : spec = none) : Refines dev v spec out := by
  subst hout
  exact ⟨fun _ => ⟨hspec, rfl⟩, fun h => by cases h⟩

lemma Refines.of_ok {t : View} {out : Except VfsError α × Vfs I} {a : α} (hout : out = (.ok a, v'))
    (hspec : spec = some t) (h : Updated dev v v' t) : Refines dev v spec out := by
  subst hout
  exact ⟨fun h => (by cases h), fun _ => ⟨t, hspec, h⟩⟩

lemma blocked_of_file {q : List Name} {f : Nat} (hq : q <+: parents)
    (hf : r.tree q = some (.file f)) : r.view.blocked (parents ++ [name]) = true := by
  refine View.blocked_iff.mpr ⟨q, hq.trans (prefix_append _ _), ?_, r.files f, ?_⟩
  · rintro rfl
    simpa using hq.length_le
  · exact Ram.view_eq_file.mpr ⟨f, hf, rfl⟩

lemma not_blocked (hkps : ∀ {q n}, r.tree q = some n → r'.tree q = some n)
    (hdirs : ∀ {q}, q <+: p → q ≠ p → ∃ d, r'.tree q = some (.dir d)) :
    r.view.blocked p = false := by
  rw [Bool.eq_false_iff]
  intro hblk
  obtain ⟨q, hq, hne, b, hb⟩ := View.blocked_iff.mp hblk
  obtain ⟨f, hf, -⟩ := Ram.view_eq_file.mp hb
  obtain ⟨d, hd⟩ := hdirs hq hne
  rw [hkps hf] at hd
  cases hd

lemma createFile_refines (dev : Drivers I) (hmts : v.mounts = []) (h : v.ram.Sound) (path : Name) :
    Refines dev v (v.ram.view.createFile (parts path)) (v.createFile path) := by
  rcases eq_nil_or_concat (parts path) with hpts | ⟨parents, name, hpts⟩
  · exact .of_error (by simp only [createFile, hpts]; rfl) (by simp [View.createFile, hpts])
  rw [concat_eq_append] at hpts
  rw [createFile_eq hpts fun _ => by simp [isMountPoint, hmts], hpts, View.createFile]
  rcases createBelow_file h parents name with ⟨r', hrun, hplc, hemp⟩ | ⟨f, hrun, hf⟩ |
    ⟨e, d, hrun, hd⟩ | ⟨e, q, f, hrun, hq, hf⟩
  · have hfree := not_blocked hplc.keeps hplc.dirs
    have hnone := Ram.view_eq_none.mpr hplc.absent
    refine .of_ok (by rw [hrun]) ?_ (hplc.updated dev h)
    simp [hfree, hnone, Ram.object, hemp]
  · have hfree := not_blocked (r := v.ram) id (Ram.tree_dir_of_isPrefix hf)
    have hfile := Ram.view_eq_file.mpr ⟨f, hf, rfl⟩
    refine .of_ok (by rw [hrun]) ?_ (.refl dev h)
    simp [hfree, hfile]
  · have hdir : v.ram.view (parents ++ [name]) = some .dir := by rw [Ram.view, hd]; rfl
    refine .of_error (by rw [hrun]) ?_
    rw [hdir]
    simp
  · refine .of_error (by rw [hrun]) ?_
    simp [blocked_of_file hq hf]

lemma createDir_refines (dev : Drivers I) (h : v.ram.Sound) (path : Name) :
    Refines dev v (v.ram.view.createDir (parts path)) (v.createDir path) := by
  rcases eq_nil_or_concat (parts path) with hpts | ⟨parents, name, hpts⟩
  · exact .of_error (by simp only [createDir, hpts]; rfl) (by simp [View.createDir, hpts])
  rw [concat_eq_append] at hpts
  rw [createDir_eq hpts, hpts, View.createDir]
  rcases createBelow_dir h parents name with ⟨d, r', hrun, hplc⟩ | ⟨e, node, hrun, hnode⟩ |
    ⟨e, q, f, hrun, hq, hf⟩
  · have hfree := not_blocked hplc.keeps hplc.dirs
    have hnone := Ram.view_eq_none.mpr hplc.absent
    refine .of_ok (by rw [hrun]) ?_ (hplc.updated dev h)
    simp [hfree, hnone, Ram.object]
  · have hsome : v.ram.view (parents ++ [name]) = some (v.ram.object node) := by
      rw [Ram.view, hnode]
      rfl
    refine .of_error (by rw [hrun]) ?_
    rw [hsome]
    simp
  · refine .of_error (by rw [hrun]) ?_
    simp [blocked_of_file hq hf]

lemma deleteFile_cases (v : Vfs I) (hpts : parts path = parents ++ [name]) :
    (∃ d f, v.deleteFile path = (.ok (), { v with ram := v.ram.unlink d name }) ∧
        v.ram.tree parents = some (.dir d) ∧ v.ram.entry d name = some (.file f)) ∨
      (∃ e, v.deleteFile path = (.error e, v)) ∧
        ∀ f, v.ram.tree (parents ++ [name]) ≠ some (.file f) := by
  have hspl : ∃ part rest, parts path = part :: rest ∧ (part :: rest).dropLast = parents ∧
      (part :: rest).getLastD [] = name := by
    cases parents with
    | nil => exact ⟨name, [], hpts, rfl, rfl⟩
    | cons part parents =>
      refine ⟨part, parents ++ [name], hpts, ?_, ?_⟩
      · rw [← cons_append, dropLast_concat]
      · rw [← cons_append, getLastD_concat]
  obtain ⟨part, rest, hps, hpars, hname⟩ := hspl
  simp only [deleteFile, hps, hpars, hname]
  cases hwalk : walk v.ram.lookup (.dir v.ram.root) parents with
  | error e =>
    refine .inr ⟨⟨e, rfl⟩, fun f hf => ?_⟩
    obtain ⟨d, hd, -⟩ := Ram.tree_of_concat hf
    rw [← Ram.walk_eq_ok, hwalk] at hd
    cases hd
  | ok current =>
    have htree := Ram.walk_eq_ok.mp hwalk
    cases current with
    | file g =>
      refine .inr ⟨⟨_, rfl⟩, fun f hf => ?_⟩
      rw [Ram.tree_concat_file htree] at hf
      cases hf
    | dir d =>
      simp only [Ram.deleteChildFile]
      rw [Ram.tree_concat_dir htree]
      rcases hent : v.ram.entry d name with _ | (f | d')
      · exact .inr ⟨⟨_, rfl⟩, fun f hf => by cases hf⟩
      · exact .inl ⟨d, f, rfl, htree, hent⟩
      · exact .inr ⟨⟨_, rfl⟩, fun f hf => by cases hf⟩

lemma deleteFile_refines (dev : Drivers I) (h : v.ram.Sound) (path : Name) :
    Refines dev v (v.ram.view.deleteFile (parts path)) (v.deleteFile path) := by
  rcases eq_nil_or_concat (parts path) with hpts | ⟨parents, name, hpts⟩
  · refine .of_error (by simp only [deleteFile, hpts]; rfl) ?_
    simp [View.deleteFile, hpts, Ram.view, Ram.object]
  rw [concat_eq_append] at hpts
  rw [hpts, View.deleteFile]
  rcases v.deleteFile_cases hpts with ⟨d, f, hrun, hpar, hent⟩ | ⟨⟨e, hrun⟩, hnone⟩
  · obtain ⟨hsnd, htree⟩ := h.unlinkFile hpar hent
    have hfile : v.ram.view (parents ++ [name]) = some (.file (v.ram.files f)) :=
      Ram.view_eq_file.mpr ⟨f, by rw [Ram.tree_concat_dir hpar, hent], rfl⟩
    have hmts : ({ v with ram := v.ram.unlink d name } : Vfs I).mounts = v.mounts := rfl
    refine .of_ok hrun (by rw [hfile]) ⟨hsnd, hmts, ?_, fun q hq => resolve_congr dev hmts ?_⟩
    · funext q
      unfold Ram.view View.remove
      rw [htree]
      split_ifs <;> rfl
    -- the path keeps its object, so it is not the deleted one
    rw [htree, if_neg]
    intro heq
    rw [heq, View.remove, if_pos rfl, hfile] at hq
    cases hq
  refine .of_error hrun ?_
  rcases hview : v.ram.view (parents ++ [name]) with _ | (_ | b)
  · rfl
  · rfl
  · obtain ⟨f, hf, -⟩ := Ram.view_eq_file.mp hview
    exact absurd hf (hnone f)

/-- **Tree semantics.**  With nothing mounted elsewhere, creating and deleting carry out their
updates of the map from paths, and an error changes nothing. -/
theorem tree_semantics (dev : Drivers I) (v : Vfs I) (hmounts : v.mounts = []) (h : v.ram.Sound)
    (path : Name) : Refines dev v (v.ram.view.createFile (parts path)) (v.createFile path) ∧
      Refines dev v (v.ram.view.createDir (parts path)) (v.createDir path) ∧
      Refines dev v (v.ram.view.deleteFile (parts path)) (v.deleteFile path) :=
  ⟨createFile_refines dev hmounts h path, createDir_refines dev h path,
    deleteFile_refines dev h path⟩

def noDrivers : Drivers Empty where
  lookup inode := nomatch inode
  readAll inode := nomatch inode

def emptyVfs : Vfs Empty := ⟨Ram.new, []⟩

/-- The operations on `a/b` while the tree is empty, so that `a` is missing. -/
theorem tree_semantics_emptyVfs :
    Refines noDrivers emptyVfs (emptyVfs.ram.view.createFile (parts ['a', '/', 'b']))
        (emptyVfs.createFile ['a', '/', 'b']) ∧
      Refines noDrivers emptyVfs (emptyVfs.ram.view.createDir (parts ['a', '/', 'b']))
        (emptyVfs.createDir ['a', '/', 'b']) ∧
      Refines noDrivers emptyVfs (emptyVfs.ram.view.deleteFile (parts ['a', '/', 'b']))
        (emptyVfs.deleteFile ['a', '/', 'b']) :=
  tree_semantics noDrivers emptyVfs rfl Ram.Sound.new ['a', '/', 'b']

end Vfs

end Indominus.Fs
