import Mathlib.Algebra.Order.BigOperators.Group.Finset
import Mathlib.Tactic.Abel

/-!
# Radix trees stored in a heap

A table of level `k` points to tables of level `k - 1`, one of level 0 to leaves; the tree is what a
walk from its root reads in the heap.
-/

namespace Indominus.Lib.Radix

open Multiset

structure Shape (F E : Type) where
  target : Nat → E → Option F
  span : Nat → Finset Nat

inductive Use (F E : Type)
  | table (level : Nat) (t : F)
  | leaf (e : E) (f : F)

namespace Use

variable {F E : Type}

def frame : Use F E → F
  | table _ t => t
  | leaf _ f => f

def isTable : Use F E → Bool
  | table _ _ => true
  | leaf _ _ => false

@[simp] lemma frame_table (k : Nat) (t : F) : (table k t : Use F E).frame = t := rfl

@[simp] lemma frame_leaf (e : E) (f : F) : (leaf e f).frame = f := rfl

@[simp] lemma isTable_table (k : Nat) (t : F) : (table k t : Use F E).isTable = true := rfl

@[simp] lemma isTable_leaf (e : E) (f : F) : (leaf e f).isTable = false := rfl

end Use

variable {F E : Type} (S : Shape F E) (h h' : F → Nat → E)

/-! ## The uses of a tree -/

def leafUse (e : E) : Multiset (Use F E) :=
  (S.target 0 e).elim 0 fun f => {Use.leaf e f}

/-- Everything reached from the table `t` of level `k`. -/
def visit : Nat → F → Multiset (Use F E)
  | 0, t => {Use.table 0 t} + ∑ i ∈ S.span 0, leafUse S (h t i)
  | k + 1, t =>
    {Use.table (k + 1) t} + ∑ i ∈ S.span (k + 1), (S.target (k + 1) (h t i)).elim 0 (visit k)

/-- Everything reached through one entry of a table of level `k`. -/
def below : Nat → E → Multiset (Use F E)
  | 0, e => leafUse S e
  | k + 1, e => (S.target (k + 1) e).elim 0 (visit S h k)

lemma visit_eq (k : Nat) (t : F) :
    visit S h k t = {Use.table k t} + ∑ i ∈ S.span k, below S h k (h t i) := by
  cases k <;> rfl

lemma table_mem_visit (k : Nat) (t : F) : Use.table k t ∈ visit S h k t := by
  rw [visit_eq]
  exact mem_add.mpr (.inl (mem_singleton_self _))

variable {k i j : Nat} {t c t' f : F} {e : E} {p : List Nat}

lemma below_le_visit (hi : i ∈ S.span k) : below S h k (h t i) ≤ visit S h k t := by
  rw [visit_eq]
  exact le_trans (Finset.single_le_sum (f := fun i => below S h k (h t i))
    (fun _ _ => zero_le _) hi) (le_add_left _ _)

variable {S h h'}

lemma below_of_target (hc : S.target (k + 1) e = some c) : below S h (k + 1) e = visit S h k c := by
  simp [below, hc]

lemma below_of_none (hn : S.target k e = none) : below S h k e = 0 := by
  cases k <;> simp [below, leafUse, hn]

lemma visit_of_empty (hz : ∀ i ∈ S.span k, S.target k (h t i) = none) :
    visit S h k t = {Use.table k t} := by
  rw [visit_eq, Finset.sum_eq_zero fun i hi => below_of_none (hz i hi), add_zero]

lemma visit_congr (hagr : ∀ u ∈ visit S h k t, u.isTable → h' u.frame = h u.frame) :
    visit S h' k t = visit S h k t := by
  induction k generalizing t with
  | zero =>
    have ht : h' t = h t := hagr _ (table_mem_visit S h 0 t) rfl
    rw [visit, visit, ht]
  | succ k ih =>
    have ht : h' t = h t := hagr _ (table_mem_visit S h (k + 1) t) rfl
    rw [visit, ht]
    congr 1
    refine Finset.sum_congr rfl fun i hi => ?_
    cases hc : S.target (k + 1) (h t i) with
    | none => rfl
    | some c =>
      refine ih fun u hu htab => hagr u ?_ htab
      have hle := below_le_visit S h (t := t) hi
      rw [below_of_target hc] at hle
      exact mem_of_le hle hu

lemma below_congr (hagr : ∀ u ∈ below S h k e, u.isTable → h' u.frame = h u.frame) :
    below S h' k e = below S h k e := by
  cases k with
  | zero => rfl
  | succ k =>
    cases hc : S.target (k + 1) e with
    | none => rw [below_of_none hc, below_of_none hc]
    | some c =>
      rw [below_of_target hc, below_of_target hc]
      rw [below_of_target hc] at hagr
      exact visit_congr hagr

/-! ## One entry apart -/

variable (S h) in
/-- Everything reached from the table `t` except through its entry `i`. -/
def rest (k : Nat) (t : F) (i : Nat) : Multiset (Use F E) :=
  {Use.table k t} + ∑ j ∈ (S.span k).erase i, below S h k (h t j)

lemma visit_eq_rest (hi : i ∈ S.span k) : visit S h k t = rest S h k t i + below S h k (h t i) := by
  rw [visit_eq, rest, ← Finset.sum_erase_add _ _ hi, add_assoc]

lemma table_mem_rest (k : Nat) (t : F) (i : Nat) : Use.table k t ∈ rest S h k t i :=
  mem_add.mpr (.inl (mem_singleton_self _))

lemma below_le_rest (hj : j ∈ S.span k) (hne : j ≠ i) : below S h k (h t j) ≤ rest S h k t i :=
  le_trans (Finset.single_le_sum (f := fun j => below S h k (h t j))
    (fun _ _ => zero_le _) (Finset.mem_erase.mpr ⟨hne, hj⟩)) (le_add_left _ _)

variable (S h h') in
/-- The heaps agree on the table `t` and everything below it, except at entry `i`. -/
structure SameExcept (k : Nat) (t : F) (i : Nat) : Prop where
  row : ∀ j, j ≠ i → h' t j = h t j
  below : ∀ j ∈ S.span k, j ≠ i → ∀ u ∈ below S h k (h t j), u.isTable → h' u.frame = h u.frame

lemma SameExcept.visit (hsame : SameExcept S h h' k t i) (hi : i ∈ S.span k) :
    visit S h' k t = rest S h k t i + Radix.below S h' k (h' t i) := by
  rw [visit_eq_rest hi, rest, rest]
  congr 2
  refine Finset.sum_congr rfl fun j hj => ?_
  obtain ⟨hne, hj⟩ := Finset.mem_erase.mp hj
  rw [hsame.row j hne]
  exact below_congr (hsame.below j hj hne)

lemma SameExcept.of_row (hrow : ∀ j, j ≠ i → h' t j = h t j) :
    SameExcept S h h' 0 t i where
  row := hrow
  below j _ _ u hu htab := by
    cases hf : S.target 0 (h t j) with
    | none => simp [Radix.below, leafUse, hf] at hu
    | some f =>
      obtain rfl : u = Use.leaf (h t j) f := by simpa [Radix.below, leafUse, hf] using hu
      simp at htab

lemma SameExcept.of_rest (hagr : ∀ u ∈ rest S h k t i, u.isTable → h' u.frame = h u.frame) :
    SameExcept S h h' k t i where
  row j _ := congrFun (hagr _ (table_mem_rest k t i) rfl) j
  below _ hj hne u hu := hagr u (mem_of_le (below_le_rest hj hne) hu)

/-! ## Counting references -/

section Refs

variable [DecidableEq F]

def refs (f : F) (M : Multiset (Use F E)) : Nat := M.countP fun u => u.frame = f

@[simp] lemma refs_zero (f : F) : refs f (0 : Multiset (Use F E)) = 0 := rfl

@[simp] lemma refs_add (f : F) (M N : Multiset (Use F E)) : refs f (M + N) = refs f M + refs f N :=
  countP_add ..

@[simp] lemma refs_singleton (f : F) (u : Use F E) : refs f {u} = if u.frame = f then 1 else 0 := by
  rw [refs, ← cons_zero, countP_cons]
  simp

variable {M : Multiset (Use F E)}

lemma refs_mono {f : F} {N : Multiset (Use F E)} (hle : M ≤ N) : refs f M ≤ refs f N :=
  countP_le_of_le _ hle

lemma refs_pos_of_mem {u : Use F E} (hu : u ∈ M) : 0 < refs u.frame M :=
  countP_pos.mpr ⟨u, hu, rfl⟩

lemma refs_eq_zero {f : F} : refs f M = 0 ↔ ∀ u ∈ M, u.frame ≠ f := countP_eq_zero

lemma exists_mem_of_refs_pos {f : F} (hf : 0 < refs f M) : ∃ u ∈ M, u.frame = f :=
  countP_pos.mp hf

lemma refs_sum {ι : Type} (f : F) (s : Finset ι) (M : ι → Multiset (Use F E)) :
    refs f (∑ i ∈ s, M i) = ∑ i ∈ s, refs f (M i) :=
  map_sum (countPAddMonoidHom fun u : Use F E => u.frame = f) M s

lemma refs_root_below (hone : refs t (visit S h k t) ≤ 1) (hi : i ∈ S.span k) :
    refs t (below S h k (h t i)) = 0 := by
  rw [visit_eq, refs_add, refs_sum] at hone
  have hle : refs t (below S h k (h t i)) ≤ ∑ j ∈ S.span k, refs t (below S h k (h t j)) :=
    Finset.single_le_sum (f := fun j => refs t (below S h k (h t j)))
      (fun _ _ => Nat.zero_le _) hi
  simp only [refs_singleton, Use.frame_table, if_true] at hone
  omega

lemma refs_below_unique {f : F} (hone : refs f (visit S h k t) ≤ 1) (hi : i ∈ S.span k)
    (hj : j ∈ S.span k) (hfi : 0 < refs f (below S h k (h t i)))
    (hfj : 0 < refs f (below S h k (h t j))) : i = j := by
  by_contra hne
  rw [visit_eq, refs_add, refs_sum] at hone
  have hpair : ∑ l ∈ ({i, j} : Finset Nat), refs f (below S h k (h t l)) ≤
      ∑ l ∈ S.span k, refs f (below S h k (h t l)) :=
    Finset.sum_le_sum_of_subset (by
      intro l hl
      rcases Finset.mem_insert.mp hl with rfl | hl
      · exact hi
      · exact (Finset.mem_singleton.mp hl) ▸ hj)
  rw [Finset.sum_pair hne] at hpair
  omega

/-! ## Writing one entry -/

/-- The heap `h'` is `h` with the entry `e` written at index `i` of frame `t`. -/
structure Writes (h h' : F → Nat → E) (t : F) (i : Nat) (e : E) : Prop where
  at_cell : h' t i = e
  at_row : ∀ j, j ≠ i → h' t j = h t j
  elsewhere : ∀ g, g ≠ t → h' g = h g

lemma below_congr_of_refs {g : F} (hoff : ∀ f, f ≠ g → h' f = h f)
    (hz : refs g (below S h k e) = 0) : below S h' k e = below S h k e :=
  below_congr fun u hu _ => hoff _ (refs_eq_zero.mp hz u hu)

lemma SameExcept.of_writes (hw : Writes h h' t i e) (hone : refs t (Radix.visit S h k t) ≤ 1) :
    SameExcept S h h' k t i where
  row := hw.at_row
  below _ hj _ u hu _ := hw.elsewhere _ (refs_eq_zero.mp (refs_root_below hone hj) u hu)

lemma visit_set_root (hw : Writes h h' t i e) (hi : i ∈ S.span k)
    (hone : refs t (visit S h k t) ≤ 1) :
    visit S h' k t + below S h k (h t i) = visit S h k t + below S h' k e := by
  rw [(SameExcept.of_writes hw hone).visit hi, visit_eq_rest hi, hw.at_cell]
  abel

end Refs

/-! ## Paths -/

variable (S h) in
/-- The cell that holds the last entry of a path, given as one index per level from the root
down. -/
def slot : Nat → F → List Nat → Option (F × Nat)
  | 0, t, [i] => some (t, i)
  | k + 1, t, i :: p => (S.target (k + 1) (h t i)).bind fun c => slot k c p
  | _, _, _ => none

variable (S h) in
/-- The leaf entry at the end of a path, if the path exists and the entry maps a frame. -/
def leafAt (k : Nat) (t : F) (p : List Nat) : Option E :=
  (slot S h k t p).bind fun c => if (S.target 0 (h c.1 c.2)).isSome then some (h c.1 c.2) else none

variable (S) in
/-- The paths that stay inside the span of every level. -/
def InSpan : Nat → List Nat → Prop
  | 0, [i] => i ∈ S.span 0
  | k + 1, i :: p => i ∈ S.span (k + 1) ∧ InSpan k p
  | _, _ => False

lemma InSpan.exists_leaf (hp : InSpan S 0 p) : ∃ i, p = [i] ∧ i ∈ S.span 0 := by
  rcases p with _ | ⟨i, _ | ⟨j, p⟩⟩
  · exact hp.elim
  · exact ⟨i, rfl, hp⟩
  · exact hp.elim

lemma InSpan.exists_cons (hp : InSpan S (k + 1) p) :
    ∃ i q, p = i :: q ∧ i ∈ S.span (k + 1) ∧ InSpan S k q := by
  cases p with
  | nil => exact hp.elim
  | cons i q => exact ⟨i, q, rfl, hp⟩

lemma InSpan.eq_nil (hp : InSpan S 0 (i :: p)) : p = [] := by
  obtain ⟨j, hj, -⟩ := hp.exists_leaf
  exact (List.cons.inj hj).2

lemma slot_cons (hc : S.target (k + 1) (h t i) = some c) :
    slot S h (k + 1) t (i :: p) = slot S h k c p := by
  simp [slot, hc]

lemma leafAt_cons (hc : S.target (k + 1) (h t i) = some c) :
    leafAt S h (k + 1) t (i :: p) = leafAt S h k c p := by
  simp [leafAt, slot_cons hc]

lemma leafAt_cons_none (hc : S.target (k + 1) (h t i) = none) :
    leafAt S h (k + 1) t (i :: p) = none := by
  simp [leafAt, slot, hc]

lemma leafAt_of_target_none (hc : S.target k (h t i) = none) : leafAt S h k t (i :: p) = none := by
  cases k with
  | zero => cases p <;> simp [leafAt, slot, hc]
  | succ k => exact leafAt_cons_none hc

lemma leafAt_zero (t : F) (i : Nat) :
    leafAt S h 0 t [i] = if (S.target 0 (h t i)).isSome then some (h t i) else none :=
  rfl

lemma slot_mem (hp : InSpan S k p) (hs : slot S h k t p = some (t', i)) :
    Use.table 0 t' ∈ visit S h k t ∧ i ∈ S.span 0 := by
  induction k generalizing t p with
  | zero =>
    obtain ⟨j, rfl, hj⟩ := hp.exists_leaf
    obtain ⟨rfl, rfl⟩ : t = t' ∧ j = i := by simpa [slot] using hs
    exact ⟨table_mem_visit S h 0 t, hj⟩
  | succ k ih =>
    obtain ⟨j, p, rfl, hj, hp⟩ := hp.exists_cons
    cases hc : S.target (k + 1) (h t j) with
    | none => simp [slot, hc] at hs
    | some c =>
      rw [slot_cons hc] at hs
      obtain ⟨hmem, hspan⟩ := ih hp hs
      have hle := below_le_visit S h (t := t) hj
      rw [below_of_target hc] at hle
      exact ⟨mem_of_le hle hmem, hspan⟩

lemma leaf_mem (hp : InSpan S k p) (hl : leafAt S h k t p = some e) :
    ∃ f, S.target 0 e = some f ∧ Use.leaf e f ∈ visit S h k t := by
  induction k generalizing t p with
  | zero =>
    obtain ⟨i, rfl, hi⟩ := hp.exists_leaf
    rw [leafAt_zero] at hl
    split at hl
    · rename_i hsome
      obtain rfl : h t i = e := by simpa using hl
      obtain ⟨f, hf⟩ := Option.isSome_iff_exists.mp hsome
      refine ⟨f, hf, mem_of_le (below_le_visit S h hi) ?_⟩
      simp [below, leafUse, hf]
    · simp at hl
  | succ k ih =>
    obtain ⟨i, p, rfl, hi, hp⟩ := hp.exists_cons
    cases hc : S.target (k + 1) (h t i) with
    | none => simp [leafAt_cons_none hc] at hl
    | some c =>
      rw [leafAt_cons hc] at hl
      obtain ⟨f, hf, hmem⟩ := ih hp hl
      have hle := below_le_visit S h (t := t) hi
      rw [below_of_target hc] at hle
      exact ⟨f, hf, mem_of_le hle hmem⟩

lemma exists_path_of_leaf_mem (hmem : Use.leaf e f ∈ visit S h k t) :
    ∃ p, InSpan S k p ∧ leafAt S h k t p = some e ∧ S.target 0 e = some f := by
  induction k generalizing t with
  | zero =>
    rw [visit_eq, mem_add, mem_sum] at hmem
    obtain hroot | ⟨i, hi, hmem⟩ := hmem
    · simp at hroot
    cases hf : S.target 0 (h t i) with
    | none => simp [below_of_none hf] at hmem
    | some g =>
      obtain ⟨rfl, rfl⟩ : e = h t i ∧ f = g := by simpa [below, leafUse, hf] using hmem
      exact ⟨[i], hi, by simp [leafAt_zero, hf], hf⟩
  | succ k ih =>
    rw [visit_eq, mem_add, mem_sum] at hmem
    obtain hroot | ⟨i, hi, hmem⟩ := hmem
    · simp at hroot
    cases hc : S.target (k + 1) (h t i) with
    | none => simp [below_of_none hc] at hmem
    | some c =>
      rw [below_of_target hc] at hmem
      obtain ⟨p, hp, hl, hf⟩ := ih hmem
      exact ⟨i :: p, ⟨hi, hp⟩, by rw [leafAt_cons hc, hl], hf⟩

lemma exists_path_of_leaf_mem_below (hi : i ∈ S.span k)
    (hmem : Use.leaf e f ∈ below S h k (h t i)) :
    ∃ p, InSpan S k (i :: p) ∧ leafAt S h k t (i :: p) = some e ∧ S.target 0 e = some f := by
  cases k with
  | zero =>
    cases hf : S.target 0 (h t i) with
    | none => simp [below_of_none hf] at hmem
    | some g =>
      obtain ⟨rfl, rfl⟩ : e = h t i ∧ f = g := by simpa [below, leafUse, hf] using hmem
      exact ⟨[], hi, by simp [leafAt_zero, hf], hf⟩
  | succ k =>
    cases hc : S.target (k + 1) (h t i) with
    | none => simp [below_of_none hc] at hmem
    | some c =>
      rw [below_of_target hc] at hmem
      obtain ⟨p, hp, hl, hf⟩ := exists_path_of_leaf_mem hmem
      exact ⟨p, ⟨hi, hp⟩, by rw [leafAt_cons hc, hl], hf⟩

lemma slot_congr (hp : InSpan S k p)
    (hagr : ∀ u ∈ visit S h k t, u.isTable → h' u.frame = h u.frame) :
    slot S h' k t p = slot S h k t p := by
  induction k generalizing t p with
  | zero =>
    obtain ⟨i, rfl, -⟩ := hp.exists_leaf
    rfl
  | succ k ih =>
    obtain ⟨i, p, rfl, hi, hp⟩ := hp.exists_cons
    have ht : h' t = h t := hagr _ (table_mem_visit S h (k + 1) t) rfl
    rw [slot, slot, ht]
    cases hc : S.target (k + 1) (h t i) with
    | none => rfl
    | some c =>
      refine ih hp fun u hu htab => hagr u ?_ htab
      have hle := below_le_visit S h (t := t) hi
      rw [below_of_target hc] at hle
      exact mem_of_le hle hu

lemma leafAt_congr (hp : InSpan S k p)
    (hagr : ∀ u ∈ visit S h k t, u.isTable → h' u.frame = h u.frame) :
    leafAt S h' k t p = leafAt S h k t p := by
  rw [leafAt, leafAt, slot_congr hp hagr]
  cases hs : slot S h k t p with
  | none => rfl
  | some c =>
    have hrow : h' c.1 = h c.1 := hagr _ (slot_mem (i := c.2) hp hs).1 rfl
    simp [hrow]

lemma leafAt_congr_below (hp : InSpan S k (i :: p)) (hcell : h' t i = h t i)
    (hagr : ∀ u ∈ below S h k (h t i), u.isTable → h' u.frame = h u.frame) :
    leafAt S h' k t (i :: p) = leafAt S h k t (i :: p) := by
  cases k with
  | zero =>
    match p, hp with
    | [], _ => rw [leafAt_zero, leafAt_zero, hcell]
  | succ k =>
    cases hc : S.target (k + 1) (h t i) with
    | none => rw [leafAt_cons_none hc, leafAt_cons_none (hcell ▸ hc)]
    | some c =>
      rw [leafAt_cons hc, leafAt_cons (hcell.symm ▸ hc)]
      rw [below_of_target hc] at hagr
      exact leafAt_congr hp.2 hagr

lemma SameExcept.leafAt (hsame : SameExcept S h h' k t i) (hne : j ≠ i) (hp : InSpan S k (j :: p)) :
    leafAt S h' k t (j :: p) = leafAt S h k t (j :: p) := by
  have hj : j ∈ S.span k := by
    cases k with
    | zero => match p, hp with | [], hp => exact hp
    | succ k => exact hp.1
  exact leafAt_congr_below hp (hsame.row j hne) (hsame.below j hj hne)

lemma below_add_below_le (hi : i ∈ S.span k) (hj : j ∈ S.span k) (hne : i ≠ j) :
    below S h k (h t i) + below S h k (h t j) ≤ visit S h k t := by
  rw [visit_eq, ← Finset.sum_erase_add _ _ hi,
    ← Finset.sum_erase_add _ _ (Finset.mem_erase.mpr ⟨hne.symm, hj⟩), add_comm (below S h k _)]
  refine le_trans ?_ (le_add_left _ _)
  refine Multiset.add_le_add_iff_right.mpr ?_
  exact Multiset.le_add_left _ _

lemma leaf_le_below (hp : InSpan S k (i :: p)) (hl : leafAt S h k t (i :: p) = some e)
    (hf : S.target 0 e = some f) :
    i ∈ S.span k ∧ ({Use.leaf e f} : Multiset (Use F E)) ≤ below S h k (h t i) := by
  cases k with
  | zero =>
    match p, hp with
    | [], hi =>
      rw [leafAt_zero] at hl
      split at hl
      · obtain rfl : h t i = e := by simpa using hl
        exact ⟨hi, by simp [below, leafUse, hf]⟩
      · simp at hl
  | succ k =>
    obtain ⟨hi, hp⟩ := hp
    refine ⟨hi, ?_⟩
    cases hc : S.target (k + 1) (h t i) with
    | none => simp [leafAt_cons_none hc] at hl
    | some c =>
      rw [leafAt_cons hc] at hl
      obtain ⟨g, hg, hmem⟩ := leaf_mem hp hl
      obtain rfl : g = f := by simpa [hf] using hg.symm
      rw [below_of_target hc]
      exact singleton_le.mpr hmem

lemma leaf_pair_le {f' : F} {e' : E} {p' : List Nat} (hp : InSpan S k p) (hp' : InSpan S k p')
    (hne : p ≠ p') (hl : leafAt S h k t p = some e) (hl' : leafAt S h k t p' = some e')
    (hf : S.target 0 e = some f) (hf' : S.target 0 e' = some f') :
    ({Use.leaf e f} + {Use.leaf e' f'} : Multiset (Use F E)) ≤ visit S h k t := by
  induction k generalizing t p p' with
  | zero =>
    match p, hp, p', hp' with
    | [i], hi, [j], hj =>
      have hij : i ≠ j := fun hij => hne (by rw [hij])
      obtain ⟨hi, hle⟩ := leaf_le_below hi hl hf
      obtain ⟨hj, hle'⟩ := leaf_le_below hj hl' hf'
      exact le_trans (add_le_add hle hle') (below_add_below_le hi hj hij)
  | succ k ih =>
    match p, hp, p', hp' with
    | i :: p, hip, j :: p', hjp =>
      by_cases hij : i = j
      · subst hij
        obtain ⟨hi, hp⟩ := hip
        cases hc : S.target (k + 1) (h t i) with
        | none => simp [leafAt_cons_none hc] at hl
        | some c =>
          rw [leafAt_cons hc] at hl hl'
          have hsub := ih hp hjp.2 (fun heq => hne (by rw [heq])) hl hl'
          have hle := below_le_visit S h (t := t) hi
          rw [below_of_target hc] at hle
          exact le_trans hsub hle
      obtain ⟨hi, hle⟩ := leaf_le_below hip hl hf
      obtain ⟨hj, hle'⟩ := leaf_le_below hjp hl' hf'
      exact le_trans (add_le_add hle hle') (below_add_below_le hi hj hij)

/-! ## Frames that are mapped once -/

section MappedOnce

variable [DecidableEq F]

omit [DecidableEq F] in
lemma exists_path_below (hi : i ∈ S.span k) (htab : ∀ l, Use.table l f ∉ visit S h k t)
    {u : Use F E} (hu : u ∈ below S h k (h t i)) (hf : u.frame = f) :
    ∃ p e, InSpan S k (i :: p) ∧ leafAt S h k t (i :: p) = some e ∧ S.target 0 e = some f := by
  cases u with
  | table l g =>
    obtain rfl : g = f := hf
    exact absurd (mem_of_le (below_le_visit S h hi) hu) (htab l)
  | leaf e g =>
    obtain rfl : g = f := hf
    obtain ⟨p, hp, hl, he⟩ := exists_path_of_leaf_mem_below hi hu
    exact ⟨p, e, hp, hl, he⟩

/-- At most one path ends at the frame `f`. -/
def EndsOnce (S : Shape F E) (h : F → Nat → E) (k : Nat) (t f : F) : Prop :=
  ∀ p q e e', InSpan S k p → InSpan S k q → leafAt S h k t p = some e →
    leafAt S h k t q = some e' → S.target 0 e = some f → S.target 0 e' = some f → p = q

omit [DecidableEq F] in
lemma EndsOnce.subtree (hinj : EndsOnce S h (k + 1) t f) (hi : i ∈ S.span (k + 1))
    (hc : S.target (k + 1) (h t i) = some c) : EndsOnce S h k c f := by
  intro p q e e' hp hq hl hl' he he'
  rw [← leafAt_cons hc] at hl hl'
  exact (List.cons.inj (hinj (i :: p) (i :: q) e e' ⟨hi, hp⟩ ⟨hi, hq⟩ hl hl' he he')).2

lemma refs_le_of_below (htab : ∀ l, Use.table l f ∉ visit S h k t) (hinj : EndsOnce S h k t f)
    {n : Nat} (hbel : ∀ i ∈ S.span k, refs f (below S h k (h t i)) ≤ n) :
    refs f (visit S h k t) ≤ n := by
  have hroot : t ≠ f := fun heq => htab k (heq ▸ table_mem_visit S h k t)
  rw [visit_eq, refs_add, refs_singleton, Use.frame_table, if_neg hroot, zero_add, refs_sum]
  by_cases hex : ∃ i ∈ S.span k, 0 < refs f (below S h k (h t i))
  · obtain ⟨i, hi, hpos⟩ := hex
    obtain ⟨u, hu, huf⟩ := exists_mem_of_refs_pos hpos
    obtain ⟨p, e, hp, hl, he⟩ := exists_path_below hi htab hu huf
    rw [Finset.sum_eq_single i (fun j hj hne => ?_) fun hno => absurd hi hno]
    · exact hbel i hi
    -- a second entry would start a second path
    by_contra hjpos
    obtain ⟨v, hv, hvf⟩ := exists_mem_of_refs_pos (Nat.pos_of_ne_zero hjpos)
    obtain ⟨q, e', hq, hl', he'⟩ := exists_path_below hj htab hv hvf
    exact hne (List.cons.inj (hinj _ _ e' e hq hp hl' hl he' he)).1
  · rw [Finset.sum_eq_zero fun i hi => Nat.eq_zero_of_not_pos fun hpos => hex ⟨i, hi, hpos⟩]
    exact Nat.zero_le n

lemma refs_le_one_of_paths (htab : ∀ l, Use.table l f ∉ visit S h k t) (hinj : EndsOnce S h k t f) :
    refs f (visit S h k t) ≤ 1 := by
  induction k generalizing t with
  | zero =>
    refine refs_le_of_below htab hinj fun i _ => ?_
    rw [below, leafUse]
    cases S.target 0 (h t i) with
    | none => simp
    | some g =>
      rw [Option.elim_some, refs_singleton]
      split <;> simp
  | succ k ih =>
    refine refs_le_of_below htab hinj fun i hi => ?_
    cases hc : S.target (k + 1) (h t i) with
    | none => simp [below_of_none hc]
    | some c =>
      rw [below_of_target hc]
      refine ih (fun l hl => htab l ?_) (hinj.subtree hi hc)
      have hle := below_le_visit S h (t := t) hi
      rw [below_of_target hc] at hle
      exact mem_of_le hle hl

lemma endsOnce_of_refs (hone : refs f (visit S h k t) ≤ 1) : EndsOnce S h k t f := by
  intro p q e e' hp hq hl hl' he he'
  by_contra hne
  have htwo := refs_mono (f := f) (leaf_pair_le hp hq hne hl hl' he he')
  simp only [refs_add, refs_singleton, Use.frame_leaf, if_true] at htwo
  omega

end MappedOnce

/-! ## Writing the last entry of a path -/

section SetSlot

variable [DecidableEq F]

lemma two_le_refs {M : Multiset (Use F E)} {u v : Use F E} (hu : u ∈ M) (hv : v ∈ M)
    (hne : u ≠ v) (hf : u.frame = v.frame) : 2 ≤ refs u.frame M := by
  have hle : ({u, v} : Multiset (Use F E)) ≤ M := by
    refine (le_iff_subset (by simpa using hne)).mpr fun w hw => ?_
    rcases mem_cons.mp hw with rfl | hw
    · exact hu
    · exact (mem_singleton.mp hw) ▸ hv
  refine le_trans ?_ (refs_mono hle)
  rw [insert_eq_cons, ← singleton_add, refs_add]
  simp [hf]

lemma ne_root_of_refs_below (hone : refs f (visit S h k t) ≤ 1) (hi : i ∈ S.span k)
    (hf : 0 < refs f (below S h k (h t i))) : f ≠ t := by
  rintro rfl
  rw [refs_root_below hone hi] at hf
  exact absurd hf (lt_irrefl 0)

lemma slot_refs_below (hp : InSpan S k p) (hc : S.target (k + 1) (h t j) = some c)
    (hs : slot S h k c p = some (t', i)) : 0 < refs t' (below S h (k + 1) (h t j)) := by
  rw [below_of_target hc]
  exact refs_pos_of_mem (slot_mem hp hs).1

/-- A write to one leaf slot replaces one use; the table must not be reached twice. -/
lemma visit_set_slot (hw : Writes h h' t' i e) (hp : InSpan S k p)
    (hs : slot S h k t p = some (t', i)) (hone : refs t' (visit S h k t) ≤ 1) :
    visit S h' k t + leafUse S (h t' i) = visit S h k t + leafUse S e := by
  induction k generalizing t p with
  | zero =>
    match p, hp with
    | [j], hj =>
      obtain ⟨rfl, rfl⟩ : t = t' ∧ j = i := by simpa [slot] using hs
      exact visit_set_root hw hj hone
  | succ k ih =>
    match p, hp with
    | j :: p, ⟨hj, hp⟩ =>
      cases hc : S.target (k + 1) (h t j) with
      | none => simp [slot, hc] at hs
      | some c =>
        rw [slot_cons hc] at hs
        have hpos := slot_refs_below hp hc hs
        have hrow : h' t = h t := hw.elsewhere t (ne_root_of_refs_below hone hj hpos).symm
        have hle := below_le_visit S h (t := t) hj
        -- the subtrees the path does not enter do not contain the written table
        have hrest : ∑ l ∈ (S.span (k + 1)).erase j, below S h' (k + 1) (h t l) =
            ∑ l ∈ (S.span (k + 1)).erase j, below S h (k + 1) (h t l) := by
          refine Finset.sum_congr rfl fun l hl => ?_
          obtain ⟨hne, hl⟩ := Finset.mem_erase.mp hl
          refine below_congr_of_refs hw.elsewhere (Nat.eq_zero_of_not_pos fun hl' => hne ?_)
          exact refs_below_unique hone hl hj hl' hpos
        have hsub := ih hp hs (le_trans (refs_mono (below_of_target hc ▸ hle)) hone)
        rw [visit_eq S h', visit_eq S h, hrow, ← Finset.sum_erase_add _ _ hj,
          ← Finset.sum_erase_add _ _ hj, hrest, below_of_target hc, below_of_target hc]
        calc _ = {Use.table (k + 1) t} + ∑ l ∈ (S.span (k + 1)).erase j, below S h (k + 1) (h t l) +
              (visit S h' k c + leafUse S (h t' i)) := by abel
          _ = _ := by rw [hsub]; abel

variable {q : List Nat}

omit [DecidableEq F] in
lemma slot_set_slot (hw : Writes h h' t' i e) (hq : InSpan S k q)
    (hup : ∀ l, Use.table (l + 1) t' ∉ visit S h k t) : slot S h' k t q = slot S h k t q := by
  induction k generalizing t q with
  | zero => match q, hq with | [j], _ => rfl
  | succ k ih =>
    match q, hq with
    | j :: q, ⟨hj, hq⟩ =>
      have hne : t ≠ t' := fun heq => hup k (heq ▸ table_mem_visit S h (k + 1) t)
      rw [slot, slot, hw.elsewhere t hne]
      cases hc : S.target (k + 1) (h t j) with
      | none => rfl
      | some c =>
        refine ih hq fun l hl => hup l ?_
        have hle := below_le_visit S h (t := t) hj
        rw [below_of_target hc] at hle
        exact mem_of_le hle hl

lemma slot_inj (hp : InSpan S k p) (hq : InSpan S k q) (hs : slot S h k t p = some (t', i))
    (hs' : slot S h k t q = some (t', i)) (hone : refs t' (visit S h k t) ≤ 1) : p = q := by
  induction k generalizing t p q with
  | zero =>
    match p, hp, q, hq with
    | [a], _, [b], _ =>
      obtain ⟨-, rfl⟩ : t = t' ∧ a = i := by simpa [slot] using hs
      obtain ⟨-, rfl⟩ : t = t' ∧ b = a := by simpa [slot] using hs'
      rfl
  | succ k ih =>
    match p, hp, q, hq with
    | a :: p, ⟨ha, hp⟩, b :: q, ⟨hb, hq⟩ =>
      cases hc : S.target (k + 1) (h t a) with
      | none => simp [slot, hc] at hs
      | some c =>
        cases hd : S.target (k + 1) (h t b) with
        | none => simp [slot, hd] at hs'
        | some d =>
          rw [slot_cons hc] at hs
          rw [slot_cons hd] at hs'
          obtain rfl : a = b := refs_below_unique hone ha hb
            (slot_refs_below hp hc hs) (slot_refs_below hq hd hs')
          obtain rfl : c = d := by simpa [hc] using hd
          have hle := below_le_visit S h (t := t) ha
          rw [below_of_target hc] at hle
          rw [ih hp hq hs hs' (le_trans (refs_mono hle) hone)]

lemma leafAt_set_slot (hw : Writes h h' t' i e) (hp : InSpan S k p)
    (hs : slot S h k t p = some (t', i)) (hone : refs t' (visit S h k t) ≤ 1) (hq : InSpan S k q) :
    leafAt S h' k t q =
      if q = p then (if (S.target 0 e).isSome then some e else none) else leafAt S h k t q := by
  have hup : ∀ l, Use.table (l + 1) t' ∉ visit S h k t := fun l hl =>
    absurd (two_le_refs hl (slot_mem hp hs).1 (by simp) rfl) (by
      simpa using Nat.lt_succ_of_le hone)
  rw [leafAt, slot_set_slot hw hq hup]
  by_cases hqp : q = p
  · subst hqp
    simp [hs, hw.at_cell]
  rw [if_neg hqp, leafAt]
  cases hs' : slot S h k t q with
  | none => rfl
  | some c =>
    have hcell : h' c.1 c.2 = h c.1 c.2 := by
      by_cases ht : c.1 = t'
      · have hi : c.2 ≠ i := fun hi => hqp
          (slot_inj hq hp (hs'.trans (by rw [← ht, ← hi])) hs hone)
        rw [ht, hw.at_row _ hi]
      · rw [hw.elsewhere _ ht]
    simp [hcell]

end SetSlot

end Indominus.Lib.Radix
