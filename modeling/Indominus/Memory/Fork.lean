import Indominus.Memory.Leaves

/-!
# Copy-on-write fork

`copy_user_pages` mirrors the tables of the parent.  One invariant holds at every moment, also when
the allocator runs out; another describes the loop over a table.
-/

namespace Indominus.Memory

open Lib Lib.Radix List Pte PhysMem

/-! ## Read-only leaves -/

/-- A leaf entry made read-only, as `copy_user_pages` rewrites it on both sides. -/
def ro (e : Word) : Word := Pte.setAddr (Pte.addr e) (Pte.flags e &&& ~~~Pte.WRITABLE)

lemma isFlags_ro (e : Word) : Pte.IsFlags (flags e &&& ~~~Pte.WRITABLE) :=
  (isFlags_flags e).and _

@[simp] lemma addr_ro (e : Word) : addr (ro e) = addr e :=
  addr_setAddr (addr_lt e) (isFlags_ro e)

@[simp] lemma isPresent_ro (e : Word) : isPresent (ro e) = isPresent e := by
  have hbit : (~~~Pte.WRITABLE).getLsbD 0 = true := by decide
  rw [ro, isPresent_setAddr, isPresent, BitVec.getLsbD_and, hbit, Bool.and_true]
  exact isPresent_flags

@[simp] lemma isWritable_ro (e : Word) : isWritable (ro e) = false := by
  have hbit : (~~~Pte.WRITABLE).getLsbD 1 = false := by decide
  rw [ro, isWritable_setAddr, isWritable, BitVec.getLsbD_and, hbit, Bool.and_false]

@[simp] lemma target_ro (e : Word) : target 0 (ro e) = target 0 e := by
  simp [target]

/-! ## What holds at every moment of the copy -/

def recorded (allocated incref : List Nat) : Claims Nat :=
  (allocated.map fun f => (f, true) : List (Nat × Bool)) +
    (incref.map fun f => (f, false) : List (Nat × Bool))

def shape (M : Multiset (Use Nat Word)) : Multiset (Nat × Bool) :=
  M.map fun u => (u.frame, u.isTable)

@[simp] lemma shape_add (M N : Multiset (Use Nat Word)) : shape (M + N) = shape M + shape N :=
  Multiset.map_add ..

lemma refs_of_shape {M N : Multiset (Use Nat Word)} (h : shape M = shape N) (f : Nat) :
    refs f M = refs f N := by
  have hcnt : ∀ L : Multiset (Use Nat Word), refs f L = claims f (shape L) := by
    intro L
    rw [refs, claims, shape, Multiset.countP_map, Multiset.countP_eq_card_filter]
  rw [hcnt, hcnt, h]

variable {t : Nat} {path : List Nat} {p : Pmm} {s : Machine} {X : Claims Nat}

lemma isTable_of_shape {m m' : PhysMem} {k f : Nat} (h : shape (uses m k t) = shape (uses m' k t))
    (hf : IsTable m k t f) : IsTable m' k t f := by
  obtain ⟨l, hl⟩ := hf
  have hmem : (f, true) ∈ shape (uses m' k t) := h ▸ Multiset.mem_map.mpr ⟨_, hl, rfl⟩
  obtain ⟨u, hu, heq⟩ := Multiset.mem_map.mp hmem
  obtain ⟨hfrm, htab⟩ := Prod.mk.inj heq
  exact hfrm ▸ isTable_of_mem hu htab

/-- The copy of `P` into `C`, tables of level `k`, has come from `st0` to `st`; `Y` are the claims
of others. -/
structure CopyInv (K : Nat → Prop) (exact : Prop) (k P C : Nat) (Y : Claims Nat)
    (st0 st : CopyState) : Prop where
  own : Own K exact st.machine.pmm (holds st.ram k P + holds st.ram k C + Y)
  lists : ∃ A I, st.allocatedFrames = st0.allocatedFrames ++ A ∧
    st.increfFrames = st0.increfFrames ++ I ∧ holds st.ram k C = {(C, true)} + recorded A I
  shape : shape (uses st.ram k P) = shape (uses st0.ram k P)
  grows : Grows (fun f => IsTable st0.ram k P f ∨ f = C) st0.machine st.machine
  high : ∀ i, entryCount k ≤ i →
    st.ram.entry P i = st0.ram.entry P i ∧ st.ram.entry C i = st0.ram.entry C i
  leaves : ∀ path, InUser k path → pteAt st.ram k P path = pteAt st0.ram k P path ∨
    pteAt st.ram k P path = (pteAt st0.ram k P path).map ro

/-- The loop over the parent table `P` with the entries `is` still to be copied. -/
structure Copying (K : Nat → Prop) (exact : Prop) (k P C : Nat) (Y : Claims Nat)
    (st0 : CopyState) (is : List Nat) (st : CopyState) : Prop
    extends CopyInv K exact k P C Y st0 st where
  nodup : is.Nodup
  inSpan : ∀ i ∈ is, i < entryCount k
  empty : ∀ i ∈ is, Pte.target k (st.ram.entry C i) = none
  parent : ∀ i path, InUser k (i :: path) → pteAt st.ram k P (i :: path) =
    if i ∈ is then pteAt st0.ram k P (i :: path) else (pteAt st0.ram k P (i :: path)).map ro
  child : ∀ i path, InUser k (i :: path) → pteAt st.ram k C (i :: path) =
    if i ∈ is then none else (pteAt st0.ram k P (i :: path)).map ro

/-- What the copy of one entry `i` does: both tables and everything below them stay as they are,
except at `i`. -/
structure CopyEntry (K : Nat → Prop) (exact : Prop) (k P C i : Nat) (Y : Claims Nat)
    (st st' : CopyState) : Prop where
  sameP : SameExcept pageTree st.ram.tables st'.ram.tables k P i
  sameC : SameExcept pageTree st.ram.tables st'.ram.tables k C i
  own : Own K exact st'.machine.pmm (holds st'.ram k P + holds st'.ram k C + Y)
  lists : ∃ A I, st'.allocatedFrames = st.allocatedFrames ++ A ∧
    st'.increfFrames = st.increfFrames ++ I ∧
    holdsBelow st'.ram k (st'.ram.entry C i) = recorded A I
  shape : shape (below pageTree st'.ram.tables k (st'.ram.entry P i)) =
    shape (below pageTree st.ram.tables k (st.ram.entry P i))
  grows : Grows (fun f => IsTable st.ram k P f ∨ f = C) st.machine st'.machine
  leaves : ∀ path, InUser k (i :: path) →
    pteAt st'.ram k P (i :: path) = pteAt st.ram k P (i :: path) ∨
      pteAt st'.ram k P (i :: path) = (pteAt st.ram k P (i :: path)).map ro

variable {K : Nat → Prop} {exact : Prop} {k P C : Nat} {Y : Claims Nat} {st0 st st' : CopyState}
  {i f c : Nat} {is : List Nat}

lemma recorded_append (A A' I I' : List Nat) :
    recorded (A ++ A') (I ++ I') = recorded A I + recorded A' I' := by
  simp only [recorded, map_append, ← Multiset.coe_add]
  abel

lemma CopyInv.own_parent (h : CopyInv K exact k P C Y st0 st) :
    Own K exact st.machine.pmm (holds st.ram k P + (holds st.ram k C + Y)) := by
  rw [← add_assoc]
  exact h.own

lemma CopyInv.own_child (h : CopyInv K exact k P C Y st0 st) :
    Own K exact st.machine.pmm (holds st.ram k C + (holds st.ram k P + Y)) := by
  rw [add_left_comm]
  exact h.own_parent

lemma CopyInv.parent_ne_child (h : CopyInv K exact k P C Y st0 st) : P ≠ C := by
  rintro rfl
  have hmem : (P, true) ∈ holds st.ram k P + Y :=
    Multiset.mem_add.mpr (.inl (table_mem_holds st.ram k P))
  exact h.own_parent.not_isTable hmem (isTable_self st.ram k P)

section

variable (h : Copying K exact k P C Y st0 (i :: is) st)
  (hent : CopyEntry K exact k P C i Y st st')

include h hent

lemma Copying.entry : CopyInv K exact k P C Y st0 st' := by
  have hi : i < entryCount k := h.inSpan i (by simp)
  have hspan : i ∈ pageTree.span k := Finset.mem_range.mpr hi
  constructor
  case own => exact hent.own
  case lists =>
    obtain ⟨A, I, hA, hI, hC⟩ := h.lists
    obtain ⟨A', I', hA', hI', hC'⟩ := hent.lists
    refine ⟨A ++ A', I ++ I', by rw [hA', hA, append_assoc],
      by rw [hI', hI, append_assoc], ?_⟩
    -- the entry was empty, so everything the child had is outside it
    have hemp : below pageTree st.ram.tables k (st.ram.tables C i) = 0 :=
      below_of_none (h.empty i (by simp))
    have hrest : holds st.ram k C = (rest pageTree st.ram.tables k C i).map hold := by
      rw [holds, uses, visit_eq_rest hspan, hemp, add_zero]
    rw [holds, uses, hent.sameC.visit hspan, Multiset.map_add, ← hrest, hC, add_assoc,
      recorded_append, ← hC']
    rfl
  case shape =>
    rw [← h.shape, uses, uses, hent.sameP.visit hspan, visit_eq_rest hspan, shape_add, shape_add]
    exact congrArg _ hent.shape
  case grows =>
    refine h.grows.trans (hent.grows.mono fun f _ hf => ?_)
    exact hf.imp (isTable_of_shape h.shape) id
  case high =>
    intro j hj
    have hne : j ≠ i := by omega
    obtain ⟨hP, hC⟩ := h.high j hj
    exact ⟨(hent.sameP.row j hne).trans hP, (hent.sameC.row j hne).trans hC⟩
  case leaves =>
    intro path hpath
    cases path with
    | nil => cases k <;> exact hpath.elim
    | cons j path =>
      by_cases hj : j = i
      · subst hj
        have hold := h.parent j path hpath
        rw [if_pos (by simp)] at hold
        rw [← hold]
        exact hent.leaves path hpath
      have hkeep : pteAt st'.ram k P (j :: path) = pteAt st.ram k P (j :: path) :=
        hent.sameP.leafAt hj hpath
      rw [hkeep]
      exact h.leaves _ hpath

lemma Copying.next
    (hP : ∀ path, InUser k (i :: path) →
      pteAt st'.ram k P (i :: path) = (pteAt st.ram k P (i :: path)).map ro) (hC :
          ∀ path, InUser k (i :: path) → pteAt st'.ram k C (i :: path) =
          (pteAt st.ram k P (i :: path)).map ro) : Copying K exact k P C Y st0 is st' := by
  obtain ⟨hnot, hnd⟩ := nodup_cons.mp h.nodup
  have hmem : ∀ j, j ≠ i → (j ∈ i :: is ↔ j ∈ is) := by
    intro j hj
    simp [hj]
  refine { h.entry hent with
    nodup := hnd, inSpan := ?inSpan, empty := ?empty, parent := ?parent, child := ?child }
  case inSpan => exact fun j hj => h.inSpan j (mem_cons_of_mem _ hj)
  case empty =>
    intro j hj
    have hne : j ≠ i := fun heq => hnot (heq ▸ hj)
    have hcell : st'.ram.entry C j = st.ram.entry C j := hent.sameC.row j hne
    rw [hcell]
    exact h.empty j (mem_cons_of_mem _ hj)
  case parent =>
    intro j path hpath
    by_cases hj : j = i
    · subst hj
      rw [hP path hpath, h.parent j path hpath, if_pos (by simp), if_neg hnot]
    have hkeep : pteAt st'.ram k P (j :: path) = pteAt st.ram k P (j :: path) :=
      hent.sameP.leafAt hj hpath
    rw [hkeep, h.parent j path hpath]
    simp only [hmem j hj]
  case child =>
    intro j path hpath
    by_cases hj : j = i
    · subst hj
      rw [hC path hpath, h.parent j path hpath, if_pos (by simp), if_neg hnot]
    have hkeep : pteAt st'.ram k C (j :: path) = pteAt st.ram k C (j :: path) :=
      hent.sameC.leafAt hj hpath
    rw [hkeep, h.child j path hpath]
    simp only [hmem j hj]

end

/-! ## The start of a loop -/

lemma Copying.start (hown : Own K exact st.machine.pmm (holds st.ram k P + {(C, true)} + Y))
    (hemp : ∀ i < entryCount k, target k (st.ram.entry C i) = none) :
    Copying K exact k P C Y st (entryIndices k) st := by
  have hC : holds st.ram k C = {(C, true)} := holds_of_empty hemp
  have hmem : ∀ i, i ∈ entryIndices k ↔ i < entryCount k := fun i => mem_range
  constructor
  case toCopyInv =>
    exact {
      own := hC.symm ▸ hown
      lists := ⟨[], [], by simp, by simp, by simp [hC, recorded]⟩
      shape := rfl
      grows := Grows.refl _ _
      high := fun i _ => ⟨rfl, rfl⟩
      leaves := fun path _ => .inl rfl }
  case nodup => exact nodup_range
  case inSpan => exact fun i hi => (hmem i).mp hi
  case empty => exact fun i hi => hemp i ((hmem i).mp hi)
  case parent =>
    intro i path hpath
    rw [if_pos ((hmem i).mpr (Finset.mem_range.mp (inSpan_head hpath)))]
  case child =>
    intro i path hpath
    have hi := Finset.mem_range.mp (inSpan_head hpath)
    rw [if_pos ((hmem i).mpr hi)]
    exact leafAt_of_target_none (hemp i hi)

lemma Copying.skip (h : Copying K exact k P C Y st0 (i :: is) st)
    (hnone : target k (st.ram.entry P i) = none) : Copying K exact k P C Y st0 is st := by
  have hemp := h.empty i (mem_cons_self ..)
  have hP : ∀ path, pteAt st.ram k P (i :: path) = none := fun path => leafAt_of_target_none hnone
  have hC : ∀ path, pteAt st.ram k C (i :: path) = none := fun path => leafAt_of_target_none hemp
  have hsame : ∀ t, SameExcept pageTree st.ram.tables st.ram.tables k t i := fun t =>
    ⟨fun _ _ => rfl, fun _ _ _ _ _ _ => rfl⟩
  refine h.next ⟨hsame P, hsame C, h.own, ⟨[], [], by simp, by simp, ?_⟩, rfl, Grows.refl _ _,
    fun path _ => .inl rfl⟩ (fun path _ => by rw [hP]; rfl) fun path _ => by rw [hP, hC]; rfl
  rw [holdsBelow_none hemp]
  rfl

lemma Copying.done (h : Copying K exact k P C Y st0 [] st) (hpath : InUser k path) :
    pteAt st.ram k P path = (pteAt st0.ram k P path).map ro ∧
      pteAt st.ram k C path = (pteAt st0.ram k P path).map ro := by
  cases path with
  | nil => cases k <;> exact hpath.elim
  | cons i path =>
    rw [h.parent i path hpath, h.child i path hpath]
    simp

/-! ## Frames that are still to be shared -/

lemma Copying.claims_todo (h : Copying K exact k P C Y st0 (i :: is) st)
    (hlinear : ∀ f, refs f (uses st0.ram k P) ≤ 1)
    (hf : 0 < refs f (below pageTree st.ram.tables k (st.ram.entry P i))) :
    claims f ((rest pageTree st.ram.tables k P i).map hold) = 0 ∧
      claims f (holds st.ram k C) = 0 := by
  have hspan : i ∈ pageTree.span k := Finset.mem_range.mpr (h.inSpan i (by simp))
  have htot : refs f (uses st.ram k P) ≤ 1 := refs_of_shape h.shape f ▸ hlinear f
  have hP : 0 < claims f (holds st.ram k P) := by
    rw [claims_holds]
    exact lt_of_lt_of_le hf (refs_mono (below_le_visit pageTree st.ram.tables hspan))
  constructor
  · rw [claims_map_hold]
    have hspl := htot
    rw [uses, visit_eq_rest hspan, refs_add] at hspl
    have hf' : 0 < refs f (below pageTree st.ram.tables k (st.ram.tables P i)) := hf
    omega
  by_contra hne
  have hC : 0 < claims f (holds st.ram k C) := Nat.pos_of_ne_zero hne
  -- both trees claim the frame, so both use it as a leaf
  obtain ⟨u, hu, huf⟩ := exists_mem_of_refs_pos (claims_holds f _ _ _ ▸ hC)
  obtain ⟨e', he'⟩ := h.own_child.exists_leaf hu (by rw [huf, claims_add]; omega)
  obtain ⟨v, hv, hvf⟩ := exists_mem_of_refs_pos hf
  have hvP : v ∈ uses st.ram k P := Multiset.mem_of_le (below_le_visit pageTree _ hspan) hv
  obtain ⟨e, he⟩ := h.own_parent.exists_leaf hvP (by rw [hvf, claims_add]; omega)
  rw [he', huf] at hu
  rw [he, hvf] at hv
  -- the leaf of the child comes from another leaf of the parent
  obtain ⟨path, hpath, hleaf, htgt⟩ := exists_path_of_leaf_mem_below hspan hv
  obtain ⟨q, hq, hleaf', htgt'⟩ := exists_path_of_leaf_mem hu
  have hleaf0 : pteAt st0.ram k P (i :: path) = some e := by
    have hkeep := h.parent i path hpath
    rw [if_pos (by simp)] at hkeep
    exact hkeep.symm.trans hleaf
  cases q with
  | nil => cases k <;> exact hq.elim
  | cons j q =>
    have hch : some e' = _ := hleaf'.symm.trans (h.child j q hq)
    split at hch
    · simp at hch
    rename_i hj
    obtain ⟨e0, he0, rfl⟩ := Option.map_eq_some_iff.mp hch.symm
    have hpaths : i :: path ≠ j :: q := fun heq =>
      hj ((cons.inj heq).1 ▸ mem_cons_self)
    have htgt0 : pageTree.target 0 e0 = some f := (target_ro e0).symm.trans htgt'
    have htwo := refs_mono (f := f) (leaf_pair_le hpath hq hpaths hleaf0 he0 htgt htgt0)
    simp only [refs_add, refs_singleton, Use.frame_leaf, if_true] at htwo
    exact absurd (le_trans htwo (hlinear f)) (by decide)

/-! ## One leaf -/

/-- The memory after a leaf entry `e` at index `i` has been shared. -/
def sharedRam (m : PhysMem) (P C i : Nat) (e : Word) : PhysMem :=
  (m.setEntry C i (ro e)).setEntry P i (ro e)

lemma shareLeaf_eq (hne : P ≠ C) (hsome : target 0 (st.ram.entry P i) = some f)
    (hincref : st.machine.pmm.incref f = .ok p) :
    st.shareLeaf P C i f = .ok
      { machine := ⟨p, sharedRam st.ram P C i (st.ram.entry P i)⟩
        allocatedFrames := st.allocatedFrames
        increfFrames := st.increfFrames ++ [f] } := by
  have haddr := addr_of_target hsome
  -- the child's entry is written first; the parent's entry is still the old one
  have hold : ∀ w, (st.ram.setEntry C i w).entry P i = st.ram.entry P i := by
    intro w
    rw [entry_setEntry, if_neg fun hh => hne hh.1]
  subst haddr
  simp only [CopyState.shareLeaf, Machine.incref, hincref, Except.map]
  rw [show st.machine.ram = st.ram from rfl, hold]
  rfl

section SharedRam

variable {m : PhysMem} {i : Nat} {e : Word}

variable {g f : Nat}

lemma page_sharedRam (hP : g ≠ P) (hC : g ≠ C) : (sharedRam m P C i e).page g = m.page g := by
  rw [sharedRam, page_setEntry_of_ne hP, page_setEntry_of_ne hC]

lemma entry_sharedRam {j : Nat} :
    (sharedRam m P C i e).entry g j = if (g = P ∨ g = C) ∧ j = i then ro e else m.entry g j := by
  rw [sharedRam, entry_setEntry, entry_setEntry]
  by_cases hj : j = i
  · by_cases hP : g = P
    · simp [hP, hj]
    · simp [hP, hj]
  · simp [hj]

lemma sameExcept_sharedRam (t : Nat) :
    SameExcept pageTree m.tables (sharedRam m P C i e).tables 0 t i :=
  .of_row fun j hj => by simp [tables, entry_sharedRam, hj]

lemma entry_sharedRam_self (ht : t = P ∨ t = C) : (sharedRam m P C i e).entry t i = ro e := by
  rw [entry_sharedRam, if_pos ⟨ht, rfl⟩]

lemma holdsBelow_ro (hf : target 0 e = some f) (m : PhysMem) :
    holdsBelow m 0 (ro e) = {(f, false)} := by
  rw [holdsBelow_leaf ((target_ro e).trans hf), isWritable_ro]

lemma pteAt_sharedRam (ht : t = P ∨ t = C) (hf : target 0 e = some f) :
    pteAt (sharedRam m P C i e) 0 t [i] = some (ro e) :=
  pteAt_leaf (entry_sharedRam_self ht) ((target_ro e).trans hf)

end SharedRam

lemma Copying.copyEntry_leaf {e : Word}
    (h : Copying K exact 0 P C Y st0 (i :: is) st) (he : st.ram.entry P i = e)
    (hsome : target 0 e = some f)
    (hown : Own K exact p ({(f, false)} + {(f, false)} +
      ((rest pageTree st.ram.tables 0 P i).map hold + holds st.ram 0 C + Y)))
    (hbit : ∀ g, p.bitmapTest g = st.machine.pmm.bitmapTest g) :
    CopyEntry K exact 0 P C i Y st
      { machine := ⟨p, sharedRam st.ram P C i e⟩
        allocatedFrames := st.allocatedFrames
        increfFrames := st.increfFrames ++ [f] } := by
  have hi : i < entryCount 0 := h.inSpan i (by simp)
  obtain ⟨m, hm⟩ : ∃ m, m = sharedRam st.ram P C i e := ⟨_, rfl⟩
  have hsame : ∀ t, SameExcept pageTree st.ram.tables m.tables 0 t i := hm ▸ sameExcept_sharedRam
  have hcell : ∀ t, t = P ∨ t = C → m.entry t i = ro e := fun t ht => hm ▸ entry_sharedRam_self ht
  have hhol : ∀ t, t = P ∨ t = C →
      holds m 0 t = (rest pageTree st.ram.tables 0 t i).map hold + {(f, false)} := by
    intro t ht
    rw [holds_of_sameExcept (hsame t) hi, hcell t ht, holdsBelow_ro hsome]
  have hC : holds st.ram 0 C = (rest pageTree st.ram.tables 0 C i).map hold := by
    rw [holds_eq_rest hi, holdsBelow_none (h.empty i (by simp)), add_zero]
  rw [← hm]
  constructor
  case sameP => exact hsame P
  case sameC => exact hsame C
  case own =>
    show Own K exact p (holds m 0 P + holds m 0 C + Y)
    rw [hhol P (.inl rfl), hhol C (.inr rfl), ← hC]
    convert hown using 1
    abel
  case lists =>
    refine ⟨[], [f], by simp, rfl, ?_⟩
    show holdsBelow m 0 (m.entry C i) = _
    rw [hcell C (.inr rfl), holdsBelow_ro hsome]
    simp [recorded]
  case shape =>
    show Memory.shape (below pageTree m.tables 0 (m.entry P i)) = _
    have hleaf : ∀ (h : Nat → Nat → Word) (w : Word), target 0 w = some f →
        Memory.shape (below pageTree h 0 w) = {(f, false)} := by
      intro h w hw
      simp [below, leafUse, hw, Memory.shape]
    rw [hcell P (.inl rfl), he, hleaf _ _ hsome, hleaf _ _ ((target_ro e).trans hsome)]
  case grows =>
    intro g hg
    refine ⟨(hbit g).trans hg, fun hW => ?_⟩
    rw [not_or] at hW
    have hP : g ≠ P := by
      rintro rfl
      exact hW.1 (isTable_self _ _ _)
    show m.page g = st.ram.page g
    rw [hm, page_sharedRam hP hW.2]
  case leaves =>
    intro path hpath
    obtain rfl := hpath.eq_nil
    refine .inr ?_
    rw [pteAt_leaf he hsome]
    exact pteAt_leaf (hcell P (.inl rfl)) ((target_ro e).trans hsome)

lemma Copying.shareLeaf
    (h : Copying K exact 0 P C Y st0 (i :: is) st) (hlinear : ∀ f, refs f (uses st0.ram 0 P) ≤ 1)
    (hroom : claims f Y + 2 ≤ 255) (hsome : target 0 (st.ram.entry P i) = some f) :
    ∃ st', st.shareLeaf P C i f = .ok st' ∧ Copying K exact 0 P C Y st0 is st' := by
  have hi : i < entryCount 0 := h.inSpan i (by simp)
  have hbel := holdsBelow_leaf (m := st.ram) hsome
  have htodo := h.claims_todo hlinear (f := f) (by
    rw [← claims_map_hold]
    show 0 < claims f (holdsBelow st.ram 0 (st.ram.entry P i))
    rw [hbel]
    simp)
  obtain ⟨p, hp, hown, -, hbit⟩ : ∃ p', st.machine.pmm.incref f = .ok p' ∧ Own K exact p'
      ({(f, false)} + {(f, false)} + ((rest pageTree st.ram.tables 0 P i).map hold +
        holds st.ram 0 C + Y)) ∧ _ ∧ ∀ g, p'.bitmapTest g = st.machine.pmm.bitmapTest g := by
    refine Own.incref (b := isWritable (st.ram.entry P i)) ?_ ?_
    · convert h.own using 1
      rw [holds_eq_rest (t := P) hi, hbel]
      abel
    · rw [claims_add, claims_add]
      omega
  refine ⟨_, shareLeaf_eq h.parent_ne_child hsome hp,
    h.next (h.copyEntry_leaf rfl hsome hown hbit) (fun path hpath => ?_) fun path hpath => ?_⟩
  · obtain rfl := hpath.eq_nil
    exact (pteAt_sharedRam (.inl rfl) hsome).trans (by rw [pteAt_leaf rfl hsome]; rfl)
  · obtain rfl := hpath.eq_nil
    exact (pteAt_sharedRam (.inr rfl) hsome).trans (by rw [pteAt_leaf rfl hsome]; rfl)

/-! ## One table -/

/-- What `newTable` does: the frame `c` is now an empty table, linked at entry `i` of `C`. -/
structure Linked (st st1 : CopyState) (C i c : Nat) : Prop where
  page : ∀ g, g ≠ C → g ≠ c → st1.ram.page g = st.ram.page g
  row : ∀ j, j ≠ i → st1.ram.entry C j = st.ram.entry C j
  cell : st1.ram.entry C i = Pte.setAddr c CopyState.tableFlags
  zero : ∀ j, st1.ram.entry c j = 0
  fresh : st.machine.pmm.bitmapTest c = false
  bits : ∀ g, st.machine.pmm.bitmapTest g = true → st1.machine.pmm.bitmapTest g = true
  allocated : st1.allocatedFrames = st.allocatedFrames ++ [c]
  incref : st1.increfFrames = st.increfFrames

lemma newTable_outcome {A : Claims Nat} (hown : Own K exact st.machine.pmm A)
    (hC : st.machine.pmm.bitmapTest C = true) : Outcome (st.newTable C i)
      (fun r => Linked st r.2 C i r.1 ∧ Own K exact r.2.machine.pmm ({(r.1, true)} + A))
      fun stop => stop = .outOfMemory st := by
  rw [CopyState.newTable]
  split
  · exact .of_error rfl rfl
  rename_i c s hall
  obtain ⟨hown', hfr, hram, hgrw⟩ := Machine.allocFrame_of_own hown hall
  have hne : C ≠ c := by
    rintro rfl
    rw [hC] at hfr
    cases hfr
  have hram' : s.ram = st.ram := hram
  refine .of_ok rfl ⟨?_, hown'⟩
  constructor
  case page =>
    intro g hgC hgc
    show ((s.ram.zeroPage c).setEntry C i _).page g = _
    rw [page_setEntry_of_ne hgC, page_zeroPage_of_ne hgc, hram']
  case row =>
    intro j hj
    show ((s.ram.zeroPage c).setEntry C i _).entry C j = _
    rw [entry_setEntry, if_neg fun hh => hj hh.2, entry,
      page_zeroPage_of_ne hne, hram', entry]
  case cell =>
    show ((s.ram.zeroPage c).setEntry C i _).entry C i = _
    rw [entry_setEntry, if_pos ⟨rfl, rfl⟩]
  case zero =>
    intro j
    show ((s.ram.zeroPage c).setEntry C i _).entry c j = _
    rw [entry_setEntry, if_neg fun hh => hne hh.1.symm, entry_zeroPage_self]
  case fresh => exact hfr
  case bits => exact fun g hg => (hgrw g hg).1
  case allocated => rfl
  case incref => rfl

lemma target_link (hc : c < 2 ^ 40) (level : Nat) :
    target level (setAddr c CopyState.tableFlags) = some c := by
  have haddr := addr_setAddr hc (show Pte.IsFlags CopyState.tableFlags by decide)
  have hpres : isPresent CopyState.tableFlags = true := by decide
  have hhuge : isHuge CopyState.tableFlags = false := by decide
  simp [target, haddr, hpres, hhuge]

def around (m : PhysMem) (k P C i : Nat) (Y : Claims Nat) : Claims Nat :=
  (rest pageTree m.tables k P i).map hold + (rest pageTree m.tables k C i).map hold + Y

lemma CopyInv.page_linked {st1 : CopyState} (h : CopyInv K exact k P C Y st0 st)
    (hlink : Linked st st1 C i c) {u : Use Nat Word} (hu : u ∈ uses st.ram k P)
    (htab : u.isTable = true) : st1.ram.page u.frame = st.ram.page u.frame := by
  have htable := isTable_of_mem hu htab
  refine hlink.page _ ?_ ?_
  · intro heq
    have hmem : (C, true) ∈ holds st.ram k C + Y :=
      Multiset.mem_add.mpr (.inl (table_mem_holds st.ram k C))
    exact h.own_parent.not_isTable hmem (heq ▸ htable)
  intro heq
  have hbit := (h.own_parent.claimed (Multiset.mem_add.mpr (.inl htable.mem_holds))).1
  rw [heq, hlink.fresh] at hbit
  cases hbit

lemma CopyInv.page_others {Z : Claims Nat} {g : Nat} {st1 st2 : CopyState}
    (hsub : CopyInv K exact k f c Z st1 st2)
    (hown : Own K exact st1.machine.pmm (holds st1.ram k f + {(c, true)} + Z))
    (hg : (g, true) ∈ Z) : st2.ram.page g = st1.ram.page g := by
  have hbit := (hown.claimed (Multiset.mem_add.mpr (.inr hg))).1
  refine (hsub.grows g hbit).2 ?_
  rintro (htab | rfl)
  · rw [add_assoc] at hown
    exact hown.not_isTable (c := (g, true)) (Multiset.mem_add.mpr (.inr hg)) htab
  · rw [add_comm (holds st1.ram k f), add_assoc] at hown
    exact hown.ne_sole (c := (g, true)) (Multiset.mem_add.mpr (.inr hg)) rfl

/-- The parent uses every frame once, and its counts are far from saturation. -/
structure CopyPre (K : Nat → Prop) (exact : Prop) (k P C : Nat) (Y : Claims Nat)
    (st : CopyState) : Prop where
  own : Own K exact st.machine.pmm (holds st.ram k P + {(C, true)} + Y)
  empty : ∀ i < entryCount k, Pte.target k (st.ram.entry C i) = none
  linear : ∀ f, refs f (uses st.ram k P) ≤ 1
  room : ∀ f, 0 < refs f (uses st.ram k P) → claims f Y + 2 ≤ 255

section Table

variable {st1 st2 : CopyState} (h : Copying K exact (k + 1) P C Y st0 (i :: is) st)
  (hsome : target (k + 1) (st.ram.entry P i) = some f) (hlink : Linked st st1 C i c)

include h hsome hlink

lemma Copying.uses_linked : uses st1.ram k f = uses st.ram k f := by
  have hle := uses_le_of_target (h.inSpan i (by simp)) hsome
  exact uses_congr fun u hu htab => h.page_linked hlink (Multiset.mem_of_le hle hu) htab

lemma Copying.pteAt_linked (hpath : InUser (k + 1) (i :: path)) :
    pteAt st1.ram k f path = pteAt st.ram (k + 1) P (i :: path) := by
  have hold : pteAt st.ram (k + 1) P (i :: path) = pteAt st.ram k f path := leafAt_cons hsome
  have hle := uses_le_of_target (h.inSpan i (by simp)) hsome
  rw [hold]
  exact leafAt_congr hpath.2 fun u hu htab =>
    tables_of_page (h.page_linked hlink (Multiset.mem_of_le hle hu) htab)

lemma Copying.own_linked (hown : Own K exact st1.machine.pmm
      ({(c, true)} + (holds st.ram (k + 1) P + holds st.ram (k + 1) C + Y))) :
    Own K exact st1.machine.pmm (holds st1.ram k f + {(c, true)} +
      around st.ram (k + 1) P C i Y) := by
  have hi : i < entryCount (k + 1) := h.inSpan i (by simp)
  have hf : holds st1.ram k f = holds st.ram k f := by
    rw [holds, holds, h.uses_linked hsome hlink]
  convert hown using 1
  rw [holds_eq_rest (t := P) hi, holds_eq_rest (t := C) hi, holdsBelow_table hsome,
    holdsBelow_none (h.empty i (by simp)), hf, around]
  abel

lemma Copying.pre_linked (hpre : CopyPre K exact (k + 1) P C Y st0)
    (hown : Own K exact st1.machine.pmm
      ({(c, true)} + (holds st.ram (k + 1) P + holds st.ram (k + 1) C + Y))) :
    CopyPre K exact k f c (around st.ram (k + 1) P C i Y) st1 := by
  have hi : i < entryCount (k + 1) := h.inSpan i (by simp)
  have hrefs : ∀ g, refs g (uses st1.ram k f) ≤ refs g (uses st0.ram (k + 1) P) := by
    intro g
    rw [h.uses_linked hsome hlink, ← refs_of_shape h.shape g]
    exact refs_mono (uses_le_of_target hi hsome)
  constructor
  case own => exact h.own_linked hsome hlink hown
  case empty =>
    intro j _
    rw [hlink.zero, target_zero]
  case linear => exact fun g => le_trans (hrefs g) (hpre.linear g)
  case room =>
    intro g hg
    have hbel : below pageTree st.ram.tables (k + 1) (st.ram.entry P i) = uses st.ram k f :=
      below_of_target hsome
    obtain ⟨hP, hC⟩ := h.claims_todo hpre.linear (f := g) (by
      rw [hbel, ← h.uses_linked hsome hlink]
      exact hg)
    have hrest : claims g ((rest pageTree st.ram.tables (k + 1) C i).map hold) ≤
        claims g (holds st.ram (k + 1) C) := by
      rw [holds_eq_rest hi]
      exact claims_mono (Multiset.le_add_right _ _)
    have hroom := hpre.room g (lt_of_lt_of_le hg (hrefs g))
    rw [around, claims_add, claims_add]
    omega

/-- An entry that leads to a table is copied once the subtree below is: the copying of the subtree
touches no table outside it. -/
lemma Copying.copyEntry_table (hown : Own K exact st1.machine.pmm
      (holds st1.ram k f + {(c, true)} + around st.ram (k + 1) P C i Y))
    (hsub : CopyInv K exact k f c (around st.ram (k + 1) P C i Y) st1 st2) :
    CopyEntry K exact (k + 1) P C i Y st st2 ∧ st2.ram.entry P i = st.ram.entry P i ∧
      target (k + 1) (st2.ram.entry C i) = some c := by
  have hi : i < entryCount (k + 1) := h.inSpan i (by simp)
  have hspan : i ∈ pageTree.span (k + 1) := Finset.mem_range.mpr hi
  have hmem : ∀ t u, u ∈ rest pageTree st.ram.tables (k + 1) t i → u.isTable = true →
      (u.frame, true) ∈ (rest pageTree st.ram.tables (k + 1) t i).map hold := fun t u hu htab =>
    Multiset.mem_map.mpr ⟨u, hu, hold_of_isTable htab⟩
  -- tables outside the subtree keep their contents
  have hrestP : ∀ u ∈ rest pageTree st.ram.tables (k + 1) P i, u.isTable = true →
      st2.ram.page u.frame = st.ram.page u.frame := by
    intro u hu htab
    have huses : u ∈ uses st.ram (k + 1) P := by
      rw [uses, visit_eq_rest hspan]
      exact Multiset.mem_add.mpr (.inl hu)
    refine (hsub.page_others hown ?_).trans (h.page_linked hlink huses htab)
    exact Multiset.mem_add.mpr (.inl (Multiset.mem_add.mpr (.inl (hmem P u hu htab))))
  have hrestC : ∀ u ∈ rest pageTree st.ram.tables (k + 1) C i, u.isTable = true →
      st2.ram.page u.frame = st1.ram.page u.frame := fun u hu htab =>
    hsub.page_others hown
      (Multiset.mem_add.mpr (.inl (Multiset.mem_add.mpr (.inr (hmem C u hu htab)))))
  have hpageC : st2.ram.page C = st1.ram.page C := hrestC _ (table_mem_rest (k + 1) C i) rfl
  have hentC : ∀ j, st2.ram.entry C j = st1.ram.entry C j := entry_of_page hpageC
  have hentP : ∀ j, st2.ram.entry P j = st.ram.entry P j :=
    entry_of_page (hrestP _ (table_mem_rest (k + 1) P i) rfl)
  have hc : target (k + 1) (st2.ram.entry C i) = some c := by
    have hlt := (hown.claimed (c := (c, true)) (by simp)).2.2
    rw [hentC, hlink.cell, target_link (hown.lt_two_pow hlt)]
  have hP : target (k + 1) (st2.ram.entry P i) = some f := hentP i ▸ hsome
  have hsameP : SameExcept pageTree st.ram.tables st2.ram.tables (k + 1) P i :=
    .of_rest fun u hu htab => tables_of_page (hrestP u hu htab)
  have hsameC : SameExcept pageTree st.ram.tables st2.ram.tables (k + 1) C i := by
    constructor
    · intro j hj
      exact (hentC j).trans (hlink.row j hj)
    intro j hj hne u hu htab
    have hrefs := refs_root_below (h.own_child.refs_table (isTable_self _ _ C)) hj
    have huses : u ∈ uses st.ram (k + 1) C := Multiset.mem_of_le (below_le_visit _ _ hj) hu
    have hbit := (h.own_child.claimed (Multiset.mem_add.mpr
      (.inl (isTable_of_mem huses htab).mem_holds))).1
    have hkeep := hrestC u (Multiset.mem_of_le (below_le_rest hj hne) hu) htab
    refine tables_of_page (hkeep.trans (hlink.page _ (refs_eq_zero.mp hrefs u hu) ?_))
    intro heq
    rw [heq, hlink.fresh] at hbit
    cases hbit
  refine ⟨?_, hentP i, hc⟩
  constructor
  case sameP => exact hsameP
  case sameC => exact hsameC
  case own =>
    rw [holds_of_sameExcept hsameP hi, holds_of_sameExcept hsameC hi, holdsBelow_table hP,
      holdsBelow_table hc]
    convert hsub.own using 1
    rw [around]
    abel
  case lists =>
    obtain ⟨A, I, hA, hI, hC⟩ := hsub.lists
    refine ⟨[c] ++ A, I, by rw [hA, hlink.allocated, append_assoc],
      by rw [hI, hlink.incref], ?_⟩
    rw [holdsBelow_table hc, hC, ← nil_append I]
    simp [recorded]
  case shape =>
    rw [below_of_target (S := pageTree) hP, below_of_target (S := pageTree) hsome]
    exact hsub.shape.trans (congrArg _ (h.uses_linked hsome hlink))
  case grows =>
    intro g hg
    refine ⟨(hsub.grows g (hlink.bits g hg)).1, fun hW => ?_⟩
    rw [not_or] at hW
    have hgc : g ≠ c := by
      rintro rfl
      rw [hlink.fresh] at hg
      cases hg
    refine ((hsub.grows g (hlink.bits g hg)).2 ?_).trans (hlink.page g hW.2 hgc)
    rintro (⟨l, hl⟩ | rfl)
    · -- tables of the subtree are tables of the parent
      rw [h.uses_linked hsome hlink] at hl
      exact hW.1 ⟨l, Multiset.mem_of_le (uses_le_of_target hi hsome) hl⟩
    · exact hgc rfl
  case leaves =>
    intro path hpath
    have hnew : pteAt st2.ram (k + 1) P (i :: path) = pteAt st2.ram k f path := leafAt_cons hP
    rw [hnew, ← h.pteAt_linked hsome hlink hpath]
    exact hsub.leaves path hpath.2

end Table

/-! ## The recursion -/

/-- Induction on the level: entry by entry, a table is copied or the memory runs out. -/
lemma copyLevel_spec (hpre : CopyPre K exact k P C Y st) :
    Outcome (copyLevel k P C st) (Copying K exact k P C Y st [])
      fun stop => ∃ st', stop = .outOfMemory st' ∧ CopyInv K exact k P C Y st st' := by
  induction k generalizing P C Y st with
  | zero =>
    refine forEntries_rule (Copying K exact 0 P C Y st) (fun i is st' h => h.skip) ?_
      (Copying.start hpre.own hpre.empty)
    intro i is st' f h hsome
    have hf : 0 < refs f (uses st.ram 0 P) := by
      rw [← refs_of_shape h.shape, ← claims_holds, holds_eq_rest (h.inSpan i (by simp)),
        holdsBelow_leaf hsome]
      simp
    obtain ⟨st'', hst'', hnext⟩ := h.shareLeaf hpre.linear (hpre.room f hf) hsome
    exact .of_ok hst'' hnext
  | succ k ih =>
    refine forEntries_rule (Copying K exact (k + 1) P C Y st) (fun i is st' h => h.skip) ?_
      (Copying.start hpre.own hpre.empty)
    intro i is st' f h hsome
    have hbit : st'.machine.pmm.bitmapTest C = true := (h.own_child.claimed (Multiset.mem_add.mpr
      (.inl (table_mem_holds st'.ram (k + 1) C)))).1
    have hout := newTable_outcome (i := i) h.own hbit
    split
    · rename_i stop hstop
      exact .of_error rfl ⟨st', hout.error stop hstop, h.toCopyInv⟩
    rename_i c st1 hlinked
    obtain ⟨hlink, hown⟩ := hout.ok _ hlinked
    -- the new table is empty, so the level below starts from the same condition
    have hpre' := h.pre_linked hsome hlink hpre hown
    have hsub := ih hpre'
    constructor
    · intro st2 hst2
      have hcopy := hsub.ok st2 hst2
      obtain ⟨hent, hP, hC⟩ := h.copyEntry_table hsome hlink hpre'.own hcopy.toCopyInv
      refine h.next hent (fun path hpath => ?_) fun path hpath => ?_
      · have hnew : pteAt st2.ram (k + 1) P (i :: path) = pteAt st2.ram k f path :=
          leafAt_cons (hP.symm ▸ hsome : target (k + 1) (st2.ram.entry P i) = some f)
        rw [hnew, (hcopy.done hpath.2).1, h.pteAt_linked hsome hlink hpath]
      have hnew : pteAt st2.ram (k + 1) C (i :: path) = pteAt st2.ram k c path :=
        leafAt_cons hC
      rw [hnew, (hcopy.done hpath.2).2, h.pteAt_linked hsome hlink hpath]
    intro stop hstop
    obtain ⟨st2, rfl, hinv⟩ := hsub.error stop hstop
    exact ⟨st2, rfl, h.entry (h.copyEntry_table hsome hlink hpre'.own hinv).1⟩

/-! ## The whole call -/

lemma foldlM_release (release : Machine → Nat → Except Panic Machine) {b : Bool}
    (hrelease : ∀ (s : Machine) f X, Own K exact s.pmm ({(f, b)} + X) →
      ∃ p, release s f = .ok { s with pmm := p } ∧ Own K exact p X) {l : List Nat}
    (h : Own K exact s.pmm ((l.map fun f => (f, b) : List (Nat × Bool)) + X)) :
    ∃ p, l.foldlM release s = .ok { s with pmm := p } ∧ Own K exact p X := by
  induction l generalizing s with
  | nil => exact ⟨s.pmm, rfl, by simpa using h⟩
  | cons f l ih =>
    rw [map_cons, ← Multiset.cons_coe, ← Multiset.singleton_add, add_assoc] at h
    obtain ⟨p1, hp1, hown1⟩ := hrelease s f _ h
    obtain ⟨p2, hp2, hown2⟩ := ih (s := { s with pmm := p1 }) hown1
    refine ⟨p2, ?_, hown2⟩
    rw [foldlM_cons, hp1]
    exact hp2

lemma rollback_of_own
    (h : Own K exact st.machine.pmm (recorded st.allocatedFrames st.increfFrames + X)) :
    ∃ p, rollback st = .ok { st.machine with pmm := p } ∧ Own K exact p X := by
  rw [recorded, add_assoc] at h
  obtain ⟨p1, hp1, hown1⟩ := foldlM_release (fun s f => s.freeFrame f) (fun s f X h =>
    Machine.freeFrame_of_own h (h.ledger.sole (f, true) (by simp) rfl)) h
  obtain ⟨p2, hp2, hown2⟩ := foldlM_release (fun s f => s.decref f) (fun s f X h =>
    Machine.decref_of_own h) (s := { st.machine with pmm := p1 }) hown1
  refine ⟨p2, ?_, hown2⟩
  rw [rollback, hp1]
  exact hp2

/-- What `copy_user_pages` leaves behind; `b` is its result. -/
structure Copied (K : Nat → Prop) (exact : Prop) (P C : Nat) (Y : Claims Nat)
    (s : Machine) (b : Bool) (s' : Machine) : Prop where
  own : Own K exact s'.pmm (holds s'.ram 3 P + (if b then holds s'.ram 3 C else {(C, true)}) + Y)
  shape : shape (uses s'.ram 3 P) = shape (uses s.ram 3 P)
  keeps : ∀ f, s.pmm.bitmapTest f = true → ¬ IsTable s.ram 3 P f → f ≠ C →
    s'.ram.page f = s.ram.page f
  high : ∀ i, 256 ≤ i →
    s'.ram.entry P i = s.ram.entry P i ∧ s'.ram.entry C i = s.ram.entry C i
  leaves : ∀ path, InUser 3 path →
    pteAt s'.ram 3 P path = pteAt s.ram 3 P path ∨
      pteAt s'.ram 3 P path = (pteAt s.ram 3 P path).map ro
  mirror : b = true → ∀ path, InUser 3 path →
    pteAt s'.ram 3 P path = (pteAt s.ram 3 P path).map ro ∧
      pteAt s'.ram 3 C path = (pteAt s.ram 3 P path).map ro

lemma copyUserPages_spec (hpre : CopyPre K exact 3 P C Y ⟨s, [], []⟩) :
    ∃ b s', copyUserPages s P C = .ok (b, s') ∧ Copied K exact P C Y s b s' := by
  have hout := copyLevel_spec hpre
  cases hcopy : copyLevel 3 P C ⟨s, [], []⟩ with
  | ok st =>
    have h := hout.ok st hcopy
    refine ⟨true, st.machine, by simp only [copyUserPages, hcopy], h.own, h.shape, ?_, h.high,
      h.leaves, fun _ path hpath => h.done hpath⟩
    intro f hf htab hC
    exact (h.grows f hf).2 fun hW => hW.elim htab hC
  | error stop =>
    obtain ⟨st, rfl, h⟩ := hout.error stop hcopy
    obtain ⟨A, I, hA, hI, hC⟩ := h.lists
    -- the child's tree is its PML4 and what the lists record
    have hrec : Own K exact st.machine.pmm
        (recorded st.allocatedFrames st.increfFrames + (holds st.ram 3 P + {(C, true)} + Y)) := by
      convert h.own using 1
      rw [hC, hA, hI, nil_append, nil_append]
      abel
    obtain ⟨p, hp, hown⟩ := rollback_of_own hrec
    refine ⟨false, { st.machine with pmm := p }, by simp only [copyUserPages, hcopy, hp], hown,
      h.shape, ?_, h.high, h.leaves, fun hb => by simp at hb⟩
    intro f hf htab hne
    exact (h.grows f hf).2 fun hW => hW.elim htab hne

end Indominus.Memory
