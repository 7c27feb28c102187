import Indominus.Fs.InitrdBuilders
import Indominus.Fs.TreeSemantics

/-!
# The entries of an archive and the tree on disk

Each script writes entries for exactly the objects of `Listing.view`.
-/

namespace Indominus.Fs.Initrd

open Memory List

/-! ## The tree on disk -/

namespace Listing

def view : Listing → View
  | _, [] => some .dir
  | .empty, _ :: _ => none
  | .file name data rest, n :: p =>
    if n = name then if p = [] then some (.file data) else none else rest.view (n :: p)
  | .dir name entries rest, n :: p => if n = name then entries.view p else rest.view (n :: p)

def names : Listing → List Name
  | .empty => []
  | .file name _ rest => name :: rest.names
  | .dir name _ rest => name :: rest.names

def Distinct : Listing → Prop
  | .empty => True
  | .file name _ rest => name ∉ rest.names ∧ rest.Distinct
  | .dir name entries rest => name ∉ rest.names ∧ entries.Distinct ∧ rest.Distinct

@[simp] lemma view_nil (l : Listing) : l.view [] = some .dir := by
  cases l <;> rfl

lemma subdirs_induction {P : Listing → Prop} (h : ∀ l, (∀ d ∈ l.subdirs, P d.2) → P l)
    (l : Listing) : P l := by
  suffices hboth : P l ∧ ∀ d ∈ l.subdirs, P d.2 from hboth.1
  induction l with
  | empty => exact ⟨h _ (by simp [subdirs]), by simp [subdirs]⟩
  | file name data rest ih => exact ⟨h _ ih.2, ih.2⟩
  | dir name entries rest ihe ihr =>
    have hall : ∀ d ∈ (Listing.dir name entries rest).subdirs, P d.2 := by
      intro d hd
      rcases mem_cons.mp hd with rfl | hd
      · exact ihe.1
      · exact ihr.2 d hd
    exact ⟨h _ hall, hall⟩

variable {l : Listing} {d : Name × Listing} {o : Object}

lemma mem_names_of_mem_files {f : Name × List Byte} (hf : f ∈ l.files) : f.1 ∈ l.names := by
  induction l with
  | empty => cases hf
  | file name data rest ih =>
    rcases mem_cons.mp hf with rfl | hf
    · exact mem_cons_self ..
    · exact mem_cons_of_mem _ (ih hf)
  | dir name entries rest _ ih => exact mem_cons_of_mem _ (ih hf)

lemma mem_names_of_mem_subdirs (hd : d ∈ l.subdirs) : d.1 ∈ l.names := by
  induction l with
  | empty => cases hd
  | file name data rest ih => exact mem_cons_of_mem _ (ih hd)
  | dir name entries rest _ ih =>
    rcases mem_cons.mp hd with rfl | hd
    · exact mem_cons_self ..
    · exact mem_cons_of_mem _ (ih hd)

lemma Distinct.subdir (h : l.Distinct) (hd : d ∈ l.subdirs) : d.2.Distinct := by
  induction l with
  | empty => cases hd
  | file name data rest ih => exact ih h.2 hd
  | dir name entries rest _ ih =>
    rcases mem_cons.mp hd with rfl | hd
    · exact h.2.1
    · exact ih h.2.2 hd

lemma view_cons_iff (h : l.Distinct) {n : Name} {p : List Name} : l.view (n :: p) = some o ↔
      (∃ data, (n, data) ∈ l.files ∧ p = [] ∧ o = .file data) ∨
        ∃ sub, (n, sub) ∈ l.subdirs ∧ sub.view p = some o := by
  induction l with
  | empty => simp [view, files, subdirs]
  | file name data rest ih =>
    rw [view, files, subdirs]
    by_cases hn : n = name
    · subst hn
      -- no other entry has this name
      have hfs : ∀ d, (n, d) ∉ rest.files := fun d hd => h.1 (mem_names_of_mem_files hd)
      have hdirs : ∀ d, (n, d) ∉ rest.subdirs := fun d hd => h.1 (mem_names_of_mem_subdirs hd)
      by_cases hp : p = [] <;> simp [hp, hfs, hdirs, eq_comm]
    · rw [if_neg hn, ih h.2]
      simp [hn]
  | dir name entries rest _ ih =>
    rw [view, files, subdirs]
    by_cases hn : n = name
    · subst hn
      have hfs : ∀ d, (n, d) ∉ rest.files := fun d hd => h.1 (mem_names_of_mem_files hd)
      have hdirs : ∀ d, (n, d) ∉ rest.subdirs := fun d hd => h.1 (mem_names_of_mem_subdirs hd)
      simp [hfs, hdirs]
    · rw [if_neg hn, ih h.2.2]
      simp [hn]

lemma view_dir_of_isPrefix (l : Listing) {p q : List Name} (hp : l.view p = some o) (hq : q <+: p)
    (hne : q ≠ p) : l.view q = some .dir := by
  induction l generalizing p q with
  | empty =>
    cases p with
    | nil => exact absurd (prefix_nil.mp hq) hne
    | cons n p => cases hp
  | file name data rest ih =>
    cases q with
    | nil => exact view_nil _
    | cons m q =>
      obtain ⟨p, rfl⟩ : ∃ p', p = m :: p' := ⟨_, (cons_prefix_iff.mp hq).choose_spec.1⟩
      rw [view] at hp ⊢
      by_cases hm : m = name
      · split_ifs at hp with hnil
        rw [hnil, cons_prefix_cons, prefix_nil] at hq
        exact absurd (by rw [hnil, hq.2]) hne
      · rw [if_neg hm] at hp ⊢
        exact ih hp hq hne
  | dir name entries rest ihe ihr =>
    cases q with
    | nil => exact view_nil _
    | cons m q =>
      obtain ⟨p, rfl⟩ : ∃ p', p = m :: p' := ⟨_, (cons_prefix_iff.mp hq).choose_spec.1⟩
      rw [view] at hp ⊢
      by_cases hm : m = name
      · rw [if_pos hm] at hp ⊢
        exact ihe hp (cons_prefix_cons.mp hq).2 fun heq => hne (by rw [heq])
      · rw [if_neg hm] at hp ⊢
        exact ihr hp hq hne

end Listing

/-! ## Names of paths -/

/-- A name without slashes, backslashes, zero characters and double dots. -/
structure GoodName (n : Name) : Prop where
  nonempty : n ≠ []
  slash : '/' ∉ n
  backslash : '\\' ∉ n
  nul : Char.ofNat 0 ∉ n
  dots : ¬ ['.', '.'] <:+: n

def pathName (p : List Name) : Name := p.foldl joinName []

lemma pathName_concat (p : List Name) (n : Name) : pathName (p ++ [n]) = joinName (pathName p) n :=
  foldl_concat ..

variable {n : Name} {p r : List Name}

lemma joinName_ne_nil {rel : Name} (hn : n ≠ []) : joinName rel n ≠ [] := by
  unfold joinName
  split_ifs
  · exact hn
  · simp

lemma pathName_eq_nil (hp : ∀ n ∈ p, GoodName n) : pathName p = [] ↔ p = [] := by
  cases p using reverseRecOn with
  | nil => exact ⟨fun _ => rfl, fun _ => rfl⟩
  | append_singleton p n =>
    rw [pathName_concat]
    have hn := (hp n (by simp)).nonempty
    simp [joinName_ne_nil hn]

lemma parts_of_good (hn : GoodName n) : parts n = [n] := by
  have hspl : n.splitOn '/' = [n] := by
    apply splitOnP_eq_singleton
    intro c hc
    rw [beq_eq_false_iff_ne]
    rintro rfl
    exact hn.slash hc
  simp [parts, hspl, hn.nonempty]

lemma parts_append (a b : Name) : parts (a ++ '/' :: b) = parts a ++ parts b := by
  rw [parts, parts, splitOn_eq_splitOnP, splitOnP_append_cons _ _ (by simp),
    filter_append]
  rfl

lemma parts_pathName (hp : ∀ n ∈ p, GoodName n) : parts (pathName p) = p := by
  induction p using reverseRecOn with
  | nil => rfl
  | append_singleton p n ih =>
    have hn := hp n (by simp)
    have hp' : ∀ m ∈ p, GoodName m := fun m hm => hp m (mem_append_left _ hm)
    rw [pathName_concat, joinName]
    split_ifs with hnil
    · rw [(pathName_eq_nil hp').mp hnil, parts_of_good hn]
      rfl
    · rw [parts_append, ih hp', parts_of_good hn]

lemma dots_append {a b : Name} (h : ['.', '.'] <:+: a ++ '/' :: b) :
    ['.', '.'] <:+: a ∨ ['.', '.'] <:+: b := by
  induction a with
  | nil =>
    rw [nil_append, infix_cons_iff] at h
    rcases h with h | h
    · simp at h
    · exact .inr h
  | cons c a ih =>
    rw [cons_append, infix_cons_iff] at h
    rcases h with h | h
    · -- both dots are in the first name
      rw [cons_prefix_cons] at h
      obtain ⟨rfl, h⟩ := h
      cases a with
      | nil => simp at h
      | cons c a =>
        rw [cons_append, cons_prefix_cons] at h
        rw [← h.1]
        exact .inl ⟨[], a, rfl⟩
    rcases ih h with h | h
    · exact .inl (h.trans (suffix_cons c a).isInfix)
    · exact .inr h

section

variable (hp : ∀ n ∈ p, GoodName n)

include hp

lemma dots_pathName : ¬ ['.', '.'] <:+: pathName p := by
  induction p using reverseRecOn with
  | nil => simp [pathName]
  | append_singleton p n ih =>
    have hn := hp n (by simp)
    have hp' : ∀ m ∈ p, GoodName m := fun m hm => hp m (mem_append_left _ hm)
    rw [pathName_concat, joinName]
    split_ifs
    · exact hn.dots
    · intro h
      exact (dots_append h).elim (ih hp') hn.dots

lemma backslash_pathName : '\\' ∉ pathName p := by
  induction p using reverseRecOn with
  | nil => simp [pathName]
  | append_singleton p n ih =>
    have hn := hp n (by simp)
    have hp' : ∀ m ∈ p, GoodName m := fun m hm => hp m (mem_append_left _ hm)
    rw [pathName_concat, joinName]
    split_ifs
    · exact hn.backslash
    · simp [ih hp', hn.backslash]

lemma slashes_pathName : slashes (pathName p) = pathName p := by
  have hb := backslash_pathName hp
  conv_rhs => rw [← map_id (pathName p)]
  apply map_congr_left
  intro c hc
  have hne : c ≠ '\\' := by
    rintro rfl
    exact hb hc
  rw [if_neg hne]
  rfl

lemma getLast?_pathName : (pathName p).getLast? ≠ some '/' := by
  cases p using reverseRecOn with
  | nil => simp [pathName]
  | append_singleton p n =>
    have hn := hp n (by simp)
    have hlast : (joinName (pathName p) n).getLast? = n.getLast? := by
      unfold joinName
      split_ifs
      · rfl
      · rw [getLast?_append_of_ne_nil _ (by simp), getLast?_cons_of_ne_nil hn.nonempty]
    rw [pathName_concat, hlast]
    intro h
    exact hn.slash (mem_of_getLast? h)

end

/-! ## What the scripts write -/

def Describes (p : List Name) : Object → Entry → Prop
  | .dir, e => e = ⟨pathName p ++ ['/'], [], true⟩
  | .file data, e => e = ⟨pathName p, data, false⟩

/-- What a script writes for a directory: entries for itself, its files, possibly its
subdirectories, then theirs. -/
structure Walks (E : Name → Listing → List Entry) : Prop where
  own : ∀ {rel l e}, e ∈ ownEntry rel → e ∈ E rel l
  files : ∀ {rel l e}, e ∈ fileEntries rel l → e ∈ E rel l
  below : ∀ {rel l e d}, d ∈ l.subdirs → e ∈ E (joinName rel d.1) d.2 → e ∈ E rel l
  cases : ∀ {rel l e}, e ∈ E rel l → e ∈ ownEntry rel ∨ e ∈ fileEntries rel l ∨
    e ∈ dirEntries rel l ∨ ∃ d ∈ l.subdirs, e ∈ E (joinName rel d.1) d.2

/-- The entries of `build_initrd.py`. -/
def buildEntries (rel : Name) (l : Listing) : List Entry := buildVisit rel l ++ buildBelow rel l

lemma buildBelow_eq (rel : Name) (l : Listing) :
    buildBelow rel l = l.subdirs.flatMap fun d => buildEntries (joinName rel d.1) d.2 := by
  induction l with
  | empty => rfl
  | file name data rest ih => exact ih
  | dir name entries rest _ ih =>
    rw [buildBelow, ih, Listing.subdirs, flatMap_cons, buildEntries]

lemma walks_build : Walks buildEntries where
  own h := mem_append_left _ (mem_append_left _ (mem_append_left _ h))
  files h := mem_append_left _ (mem_append_left _ (mem_append_right _ h))
  below hd h := by
    rw [buildEntries, buildBelow_eq]
    exact mem_append_right _ (mem_flatMap.mpr ⟨_, hd, h⟩)
  cases h := by
    rw [buildEntries, buildBelow_eq, buildVisit] at h
    simp only [mem_append, mem_flatMap] at h
    tauto

lemma mem_sortedBy {α : Type} {name : α → Name} {l : List α} {a : α} :
    a ∈ sortedBy name l ↔ a ∈ l :=
  mem_mergeSort

lemma makeBelow_eq (rel : Name) (l : Listing) :
    makeBelow rel l = l.subdirs.map fun d => (d.1, makeEntries (joinName rel d.1) d.2) := by
  induction l with
  | empty => rfl
  | file name data rest ih => exact ih
  | dir name entries rest _ ih =>
    rw [makeBelow, ih, Listing.subdirs, map_cons, makeEntries]

lemma walks_make : Walks makeEntries where
  own h := mem_append_left _ (mem_append_left _ h)
  files h := mem_append_left _ (mem_append_right _ h)
  below {rel l e d} hd h := by
    rw [makeEntries, makeBelow_eq]
    refine mem_append_right _ (mem_flatMap.mpr ⟨(d.1, _), ?_, h⟩)
    rw [mem_sortedBy]
    exact mem_map.mpr ⟨d, hd, rfl⟩
  cases h := by
    rw [makeEntries, makeBelow_eq, makeVisit, mem_append, mem_append,
      mem_flatMap] at h
    rcases h with (h | h) | ⟨d', hd', h⟩
    · exact .inl h
    · exact .inr (.inl h)
    rw [mem_sortedBy] at hd'
    obtain ⟨d, hd, rfl⟩ := mem_map.mp hd'
    exact .inr (.inr (.inr ⟨d, hd, h⟩))

/-- The directory that a path `r` leads to has good names only, on the way to it and below it. -/
def Good (r : List Name) (l : Listing) : Prop :=
  ∀ p o, l.view p = some o → ∀ n ∈ r ++ p, GoodName n

lemma Good.path {l : Listing} (h : Good r l) : ∀ n ∈ r, GoodName n := by
  intro n hn
  exact h [] .dir (Listing.view_nil l) n (mem_append_left _ hn)

lemma Good.subdir {l : Listing} (h : Good r l) (hl : l.Distinct) {d : Name × Listing}
    (hd : d ∈ l.subdirs) : Good (r ++ [d.1]) d.2 := by
  intro p o hp n hn
  rw [append_assoc] at hn
  exact h (d.1 :: p) o ((Listing.view_cons_iff hl).mpr (.inr ⟨d.2, hd, hp⟩)) n hn

variable {E : Name → Listing → List Entry}

/-- A walk lists only what is in the tree. -/
lemma Walks.describes (hE : Walks E) {l : Listing} (hl : l.Distinct) (hgood : Good r l) {e : Entry}
    (he : e ∈ E (pathName r) l) :
    ∃ p o, l.view p = some o ∧ r ++ p ≠ [] ∧ Describes (r ++ p) o e := by
  induction l using Listing.subdirs_induction generalizing r with
  | h l ih =>
    rcases hE.cases he with he | he | he | ⟨d, hd, he⟩
    · -- the entry of the directory itself
      unfold ownEntry at he
      split_ifs at he with hroot
      · cases he
      rw [slashes_pathName hgood.path] at he
      have hr : r ≠ [] := by
        rintro rfl
        exact hroot rfl
      exact ⟨[], .dir, Listing.view_nil l, by simpa using hr, by simpa [Describes] using he⟩
    · obtain ⟨f, hf, rfl⟩ := mem_map.mp he
      have hview : l.view [f.1] = some (.file f.2) :=
        (Listing.view_cons_iff hl).mpr (.inl ⟨f.2, mem_sortedBy.mp hf, rfl, rfl⟩)
      refine ⟨[f.1], _, hview, by simp, ?_⟩
      rw [Describes, ← pathName_concat, slashes_pathName (hgood _ _ hview)]
    · obtain ⟨d, hd, rfl⟩ := mem_map.mp he
      have hview : l.view [d.1] = some .dir :=
        (Listing.view_cons_iff hl).mpr (.inr ⟨d.2, mem_sortedBy.mp hd, Listing.view_nil _⟩)
      refine ⟨[d.1], _, hview, by simp, ?_⟩
      rw [Describes, ← pathName_concat, slashes_pathName (hgood _ _ hview)]
    rw [← pathName_concat] at he
    obtain ⟨p, o, hp, -, hdesc⟩ := ih d hd (hl.subdir hd) (hgood.subdir hl hd) he
    refine ⟨d.1 :: p, o, (Listing.view_cons_iff hl).mpr (.inr ⟨d.2, hd, hp⟩), by simp, ?_⟩
    rwa [append_assoc] at hdesc

lemma Walks.exists_entry (hE : Walks E) {l : Listing} (hl : l.Distinct) (hgood : Good r l)
    {o : Object} (hp : l.view p = some o) (hne : r ++ p ≠ []) :
    ∃ e ∈ E (pathName r) l, Describes (r ++ p) o e := by
  induction l using Listing.subdirs_induction generalizing r p with
  | h l ih =>
    cases p with
    | nil =>
      rw [Listing.view_nil] at hp
      cases hp
      rw [append_nil] at hne ⊢
      refine ⟨_, hE.own ?_, rfl⟩
      rw [ownEntry, if_neg (by rwa [pathName_eq_nil hgood.path]), slashes_pathName hgood.path]
      exact mem_singleton_self _
    | cons n p =>
      rcases (Listing.view_cons_iff hl).mp hp with ⟨data, hdata, rfl, rfl⟩ | ⟨sub, hsub, hp'⟩
      · refine ⟨_, hE.files (mem_map.mpr ⟨(n, data), mem_sortedBy.mpr hdata, rfl⟩), ?_⟩
        rw [Describes, ← pathName_concat, slashes_pathName (hgood _ _ hp)]
      obtain ⟨e, he, hdesc⟩ :=
        ih (n, sub) hsub (hl.subdir hsub) (hgood.subdir hl hsub) hp' (by simp)
      rw [pathName_concat] at he
      refine ⟨e, hE.below hsub he, ?_⟩
      rwa [append_assoc] at hdesc

end Indominus.Fs.Initrd
