import Indominus.Fs.Ramfs

/-!
# The RAM file system as a tree of names

No cell has two parents, so that linking or unlinking a name changes what one path leads to.
-/

namespace Indominus.Fs

open List Option

/-- `for part in parts { current = current.lookup(part)?; }`. -/
def walk {ι : Type} (lookup : ι → Name → Except VfsError ι) : ι → List Name → Except VfsError ι
  | current, [] => .ok current
  | current, part :: rest =>
    match lookup current part with
    | .error e => .error e
    | .ok next => walk lookup next rest

lemma walk_append {ι : Type} (lookup : ι → Name → Except VfsError ι) (i : ι) (ps qs : List Name) :
    walk lookup i (ps ++ qs) = (walk lookup i ps).bind fun j => walk lookup j qs := by
  induction ps generalizing i with
  | nil => rfl
  | cons p ps ih =>
    simp only [cons_append, walk]
    cases lookup i p with
    | error e => rfl
    | ok j => exact ih j

namespace Ram

/-! ## Entries -/

def child (r : Ram) : RamNode → Name → Option RamNode
  | .dir d, name => r.entry d name
  | .file _, _ => none

lemma lookup_toOption (r : Ram) (node : RamNode) (name : Name) :
    (r.lookup node name).toOption = r.child node name := by
  cases node with
  | file f => rfl
  | dir d =>
    simp only [lookup, child]
    cases r.entry d name <;> rfl

variable {r r' : Ram} {name : Name} {node : RamNode} {path p q : List Name} {d f : Nat}

lemma lookup_eq_ok {next : RamNode} :
    r.lookup node name = .ok next ↔ r.child node name = some next := by
  rw [← lookup_toOption]
  cases r.lookup node name <;> simp [Except.toOption]

lemma entry_link (r : Ram) (d e : Nat) (name n : Name) (node : RamNode) :
    (r.link d name node).entry e n = if e = d ∧ n = name then some node else r.entry e n := by
  unfold entry link
  by_cases he : e = d
  · subst he
    simp only [Function.update_self, Std.TreeMap.getElem?_insert, Std.LawfulEqCmp.compare_eq_iff_eq,
      true_and]
    exact if_congr eq_comm rfl rfl
  · simp [he]

lemma entry_unlink (r : Ram) (d e : Nat) (name n : Name) :
    (r.unlink d name).entry e n = if e = d ∧ n = name then none else r.entry e n := by
  unfold entry unlink
  by_cases he : e = d
  · subst he
    simp only [Function.update_self, Std.TreeMap.getElem?_erase, Std.LawfulEqCmp.compare_eq_iff_eq,
      true_and]
    exact if_congr eq_comm rfl rfl
  · simp [he]

@[simp] lemma entry_newFile (r : Ram) (d : Nat) (n : Name) : r.newFile.entry d n = r.entry d n :=
  rfl

lemma entry_newDir (r : Ram) (d : Nat) (n : Name) :
    r.newDir.entry d n = if d = r.nextDir then none else r.entry d n := by
  unfold entry newDir
  by_cases hd : d = r.nextDir
  · simp [hd]
  · simp [hd]

/-! ## Paths -/

def tree (r : Ram) (path : List Name) : Option RamNode :=
  (walk r.lookup (.dir r.root) path).toOption

@[simp] lemma tree_nil (r : Ram) : r.tree [] = some (.dir r.root) := rfl

lemma tree_concat (r : Ram) (path : List Name) (name : Name) :
    r.tree (path ++ [name]) = (r.tree path).bind fun node => r.child node name := by
  unfold tree
  rw [walk_append]
  cases walk r.lookup (.dir r.root) path with
  | error e => rfl
  | ok node =>
    simp only [Except.bind, walk, Except.toOption, bind_some, ← lookup_toOption]
    cases r.lookup node name <;> rfl

lemma walk_eq_ok : walk r.lookup (.dir r.root) path = .ok node ↔ r.tree path = some node := by
  unfold tree
  cases walk r.lookup (.dir r.root) path <;> simp [Except.toOption]

lemma tree_of_concat (h : r.tree (path ++ [name]) = some node) :
    ∃ d, r.tree path = some (.dir d) ∧ r.entry d name = some node := by
  rw [tree_concat] at h
  obtain ⟨parent, hpar, hch⟩ := bind_eq_some_iff.mp h
  cases parent with
  | file f => exact absurd hch (by simp [child])
  | dir d => exact ⟨d, hpar, hch⟩

lemma tree_concat_dir (h : r.tree path = some (.dir d)) (name : Name) :
    r.tree (path ++ [name]) = r.entry d name := by
  rw [tree_concat, h]
  rfl

lemma tree_concat_file (h : r.tree path = some (.file f)) (name : Name) :
    r.tree (path ++ [name]) = none := by
  rw [tree_concat, h]
  rfl

lemma tree_none_of_isPrefix (h : r.tree p = none) (hpq : p <+: q) : r.tree q = none := by
  obtain ⟨s, rfl⟩ := hpq
  induction s using reverseRecOn with
  | nil => simpa using h
  | append_singleton s n ih => rw [← append_assoc, tree_concat, ih, bind_none]

lemma tree_dir_of_isPrefix (h : r.tree q = some node) (hpq : p <+: q) (hne : p ≠ q) :
    ∃ d, r.tree p = some (.dir d) := by
  obtain ⟨s, rfl⟩ := hpq
  cases s with
  | nil => simp at hne
  | cons n s =>
    rw [append_cons] at h
    cases hp : r.tree (p ++ [n]) with
    | none => rw [tree_none_of_isPrefix hp (prefix_append _ _)] at h; cases h
    | some next =>
      obtain ⟨d, hd, -⟩ := tree_of_concat hp
      exact ⟨d, hd⟩

/-! ## The invariant -/

/-- The cells form a tree, and the cells that are not yet in use are not linked. -/
structure Sound (r : Ram) : Prop where
  dir_lt : ∀ {d n e}, r.entry d n = some (.dir e) → e < r.nextDir
  file_lt : ∀ {d n f}, r.entry d n = some (.file f) → f < r.nextFile
  unused : ∀ {d}, r.nextDir ≤ d → ∀ n, r.entry d n = none
  root_lt : r.root < r.nextDir
  root_top : ∀ d n, r.entry d n ≠ some (.dir r.root)
  parent : ∀ {d d' n n' node}, r.entry d n = some node → r.entry d' n' = some node →
    d = d' ∧ n = n'

lemma Sound.new : Ram.new.Sound where
  dir_lt h := by simp [entry, Ram.new] at h
  file_lt h := by simp [entry, Ram.new] at h
  unused _ n := by simp [entry, Ram.new]
  root_lt := by simp [Ram.new]
  root_top d n := by simp [entry, Ram.new]
  parent h := by simp [entry, Ram.new] at h

lemma Sound.dir_lt_of_tree (h : r.Sound) (hp : r.tree p = some (.dir d)) : d < r.nextDir := by
  cases p using reverseRecOn with
  | nil =>
    cases hp
    exact h.root_lt
  | append_singleton p n =>
    obtain ⟨e, -, he⟩ := tree_of_concat hp
    exact h.dir_lt he

lemma Sound.tree_injective (h : r.Sound) (hp : r.tree p = some node) (hq : r.tree q = some node) :
    p = q := by
  induction p using reverseRecOn generalizing q node with
  | nil =>
    cases q using reverseRecOn with
    | nil => rfl
    | append_singleton q n =>
      cases hp
      obtain ⟨d, -, hd⟩ := tree_of_concat hq
      exact absurd hd (h.root_top d n)
  | append_singleton p m ih =>
    obtain ⟨d, hd, hm⟩ := tree_of_concat hp
    cases q using reverseRecOn with
    | nil =>
      cases hq
      exact absurd hm (h.root_top d m)
    | append_singleton q n =>
      obtain ⟨e, he, hn⟩ := tree_of_concat hq
      obtain ⟨rfl, rfl⟩ := h.parent hm hn
      rw [ih hd he]

/-! ## One changed entry -/

/-- Changing one directory entry changes the tree at one path. -/
lemma tree_of_entry {new : Option RamNode} (h : r.Sound) (hp : r.tree p = some (.dir d))
    (hroot : r'.root = r.root) (hent : ∀ q e n, r.tree q = some (.dir e) →
      r'.entry e n = if e = d ∧ n = name then new else r.entry e n)
    (hleaf : ∀ node n, new = some node → r'.child node n = none)
    (hold : ∀ node n, r.tree (p ++ [name]) = some node → r.child node n = none) (q : List Name) :
    r'.tree q = if q = p ++ [name] then new else r.tree q := by
  induction q using reverseRecOn with
  | nil => simp [hroot]
  | append_singleton q n ih =>
    rw [tree_concat, ih]
    by_cases hq : q = p ++ [name]
    · -- below the changed path there is nothing, neither before nor after
      have hne : q ++ [n] ≠ p ++ [name] := by
        intro heq
        have := congrArg length (hq ▸ heq)
        simp at this
      rw [if_pos hq, if_neg hne, tree_concat, hq]
      have hbef : ((r.tree (p ++ [name])).bind fun node => r.child node n) = none := by
        cases hnode : r.tree (p ++ [name]) with
        | none => rfl
        | some node => exact hold node n hnode
      rw [hbef]
      cases new with
      | none => rfl
      | some node => exact hleaf node n rfl
    rw [if_neg hq]
    cases hnode : r.tree q with
    | none =>
      have : q ++ [n] ≠ p ++ [name] := by
        intro heq
        obtain ⟨rfl, -⟩ := append_inj' heq rfl
        rw [hp] at hnode
        cases hnode
      rw [if_neg this, tree_concat, hnode, bind_none, bind_none]
    | some node =>
      cases node with
      | file f =>
        have : q ++ [n] ≠ p ++ [name] := by
          intro heq
          obtain ⟨rfl, -⟩ := append_inj' heq rfl
          rw [hp] at hnode
          cases hnode
        rw [if_neg this, tree_concat_file hnode]
        rfl
      | dir e =>
        rw [tree_concat_dir hnode, bind_some]
        simp only [child, hent q e n hnode]
        -- the directory is the changed one exactly when the path is `p`
        refine if_congr ⟨?_, ?_⟩ rfl rfl
        · rintro ⟨rfl, rfl⟩
          rw [h.tree_injective hnode hp]
        intro heq
        obtain ⟨rfl, hn⟩ := append_inj' heq rfl
        rw [hp] at hnode
        exact ⟨(RamNode.dir.inj (some.inj hnode)).symm, by simpa using hn⟩

lemma Sound.of_link (h : r.Sound) (hd : d < r.nextDir) (hroot : r'.root = r.root)
    (hdirs : r.nextDir ≤ r'.nextDir) (hfs : r.nextFile ≤ r'.nextFile)
    (hent : ∀ e n, r'.entry e n = if e = d ∧ n = name then some node else r.entry e n)
    (hnew : ∀ e n, r.entry e n ≠ some node)
    (hdir : ∀ e, node = .dir e → e < r'.nextDir ∧ e ≠ r.root)
    (hfile : ∀ f, node = .file f → f < r'.nextFile) : r'.Sound := by
  refine ⟨?_, ?_, ?_, hroot ▸ h.root_lt.trans_le hdirs, ?_, ?_⟩
  · intro e n g hg
    rw [hent] at hg
    split_ifs at hg
    · exact (hdir g (some.inj hg)).1
    · exact (h.dir_lt hg).trans_le hdirs
  · intro e n f hf
    rw [hent] at hf
    split_ifs at hf
    · exact hfile f (some.inj hf)
    · exact (h.file_lt hf).trans_le hfs
  · intro e he n
    rw [hent, if_neg fun hcell => by omega]
    exact h.unused (hdirs.trans he) n
  · intro e n hn
    rw [hroot, hent] at hn
    split_ifs at hn
    · exact (hdir r.root (some.inj hn)).2 rfl
    · exact h.root_top e n hn
  intro e e' n n' other hn hn'
  rw [hent] at hn hn'
  split_ifs at hn hn' with hcell hcell' hcell'
  · exact ⟨hcell.1.trans hcell'.1.symm, hcell.2.trans hcell'.2.symm⟩
  · exact absurd (hn'.trans hn.symm) (hnew e' n')
  · exact absurd (hn.trans hn'.symm) (hnew e n)
  · exact h.parent hn hn'

section

variable (h : r.Sound) (hp : r.tree p = some (.dir d))

include h hp

lemma Sound.linkFile (habs : r.entry d name = none) :
    (r.newFile.link d name (.file r.nextFile)).Sound ∧
      ∀ q, (r.newFile.link d name (.file r.nextFile)).tree q = if q = p ++ [name]
      then some (.file r.nextFile) else r.tree q := by
  have hent : ∀ e n, (r.newFile.link d name (.file r.nextFile)).entry e n =
      if e = d ∧ n = name then some (.file r.nextFile) else r.entry e n := by
    intro e n
    rw [entry_link, entry_newFile]
  have hnew : ∀ e n, r.entry e n ≠ some (.file r.nextFile) :=
    fun e n hn => Nat.lt_irrefl _ (h.file_lt hn)
  constructor
  · refine h.of_link (h.dir_lt_of_tree hp) rfl le_rfl (Nat.le_succ _) hent hnew ?_ ?_
    · intro e he
      cases he
    intro f hf
    cases hf
    exact Nat.lt_succ_self _
  refine tree_of_entry h hp rfl (fun _ e n _ => hent e n) ?_ ?_
  · intro node n hnode
    cases hnode
    rfl
  intro node n hnode
  rw [tree_concat_dir hp, habs] at hnode
  cases hnode

lemma Sound.linkDir (habs : r.entry d name = none) : (r.newDir.link d name (.dir r.nextDir)).Sound ∧
    ∀ q, (r.newDir.link d name (.dir r.nextDir)).tree q = if q = p ++ [name]
      then some (.dir r.nextDir) else r.tree q := by
  have hd : d < r.nextDir := h.dir_lt_of_tree hp
  have hent : ∀ e n, (r.newDir.link d name (.dir r.nextDir)).entry e n =
      if e = d ∧ n = name then some (.dir r.nextDir) else r.entry e n := by
    intro e n
    rw [entry_link, entry_newDir]
    by_cases he : e = r.nextDir
    · rw [if_pos he, h.unused he.ge]
    · rw [if_neg he]
  have hnew : ∀ e n, r.entry e n ≠ some (.dir r.nextDir) :=
    fun e n hn => Nat.lt_irrefl _ (h.dir_lt hn)
  constructor
  · refine h.of_link hd rfl (Nat.le_succ _) le_rfl hent hnew ?_ ?_
    · intro e he
      cases he
      exact ⟨Nat.lt_succ_self _, h.root_lt.ne'⟩
    · intro f hf
      cases hf
  refine tree_of_entry h hp rfl (fun _ e n _ => hent e n) ?_ ?_
  · intro node n hnode
    cases hnode
    show (r.newDir.link d name (.dir r.nextDir)).entry r.nextDir n = none
    rw [hent, if_neg fun hcell => by omega]
    exact h.unused le_rfl n
  intro node n hnode
  rw [tree_concat_dir hp, habs] at hnode
  cases hnode

lemma Sound.unlinkFile (hfile : r.entry d name = some (.file f)) : (r.unlink d name).Sound ∧
    ∀ q, (r.unlink d name).tree q = if q = p ++ [name] then none else r.tree q := by
  have hent : ∀ e n, (r.unlink d name).entry e n =
      if e = d ∧ n = name then none else r.entry e n := fun e n => entry_unlink ..
  have hsub : ∀ {e n node}, (r.unlink d name).entry e n = some node → r.entry e n = some node := by
    intro e n node hn
    rw [hent] at hn
    split_ifs at hn
    exact hn
  refine ⟨⟨fun hn => h.dir_lt (hsub hn), fun hn => h.file_lt (hsub hn), ?_, h.root_lt,
    fun e n hn => h.root_top e n (hsub hn), fun hn hn' => h.parent (hsub hn) (hsub hn')⟩, ?_⟩
  · intro e he n
    rw [hent]
    split_ifs
    · rfl
    · exact h.unused he n
  refine tree_of_entry h hp rfl (fun _ e n _ => hent e n) ?_ ?_
  · intro node n hnode
    cases hnode
  intro node n hnode
  rw [tree_concat_dir hp, hfile] at hnode
  cases hnode
  rfl

end

end Ram

end Indominus.Fs
