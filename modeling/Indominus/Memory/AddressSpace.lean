import Indominus.Memory.Ownership

/-! # Creation and teardown of an address space -/

namespace Indominus.Memory

open Lib

variable {K : Nat → Prop} {exact : Prop} {s : Machine} {X : Claims Nat}

/-! ## Creation -/

section KernelHalf

variable {m : PhysMem} {src dst : Nat}

lemma page_copyKernelHalf {g : Nat} (hg : g ≠ dst) (is : List Nat) :
    (copyKernelHalf m src dst is).page g = m.page g := by
  induction is generalizing m with
  | nil => rfl
  | cons i is ih => rw [copyKernelHalf, ih, PhysMem.page_setEntry_of_ne hg]

lemma entry_copyKernelHalf (hne : src ≠ dst) (is : List Nat) (j : Nat) :
    (copyKernelHalf m src dst is).entry dst j = if j ∈ is then m.entry src j
      else m.entry dst j := by
  induction is generalizing m with
  | nil => simp [copyKernelHalf]
  | cons i is ih =>
    have hsrc : (m.setEntry dst i (m.entry src i)).entry src j = m.entry src j := by
      rw [PhysMem.entry_setEntry, if_neg fun hh => hne hh.1]
    rw [copyKernelHalf, ih, hsrc, PhysMem.entry_setEntry]
    by_cases hj : j = i
    · simp [hj]
    · simp [hj]

lemma entry_copyKernelHalf_of_notMem {is : List Nat} {j : Nat} (hj : j ∉ is) :
    (copyKernelHalf m src dst is).entry dst j = m.entry dst j := by
  induction is generalizing m with
  | nil => rfl
  | cons i is ih =>
    obtain ⟨hne, hj⟩ := List.ne_and_not_mem_of_not_mem_cons hj
    rw [copyKernelHalf, ih hj, PhysMem.entry_setEntry, if_neg fun hh => hne hh.2]

lemma mem_kernelIndices {i : Nat} : i ∈ kernelIndices ↔ 256 ≤ i ∧ i < 512 := by
  simp [kernelIndices]

end KernelHalf

/-- The new PML4 `c`: a fresh frame with an empty lower half and the upper half of `src`. -/
structure Created (K : Nat → Prop) (exact : Prop) (s s' : Machine) (src c : Nat)
    (A : Claims Nat) : Prop where
  own : Own K exact s'.pmm ({(c, true)} + A)
  fresh : s.pmm.bitmapTest c = false
  grows : Grows (fun _ => False) s s'
  lower : ∀ i < 256, s'.ram.entry c i = 0
  upper : src ≠ c → ∀ i, 256 ≤ i → i < 512 → s'.ram.entry c i = s.ram.entry src i

lemma createUserPml4_outcome (h : Own K exact s.pmm X) (src : Nat) :
    Outcome (createUserPml4 s src) (fun r => Created K exact s r.2 src r.1 X)
      fun e => e = .outOfMemoryForPml4 := by
  cases hall : s.allocFrame with
  | none =>
    refine .of_error (e := Panic.outOfMemoryForPml4) ?_ rfl
    simp [createUserPml4, createEmptyPml4, Machine.allocateFrame, hall]
  | some r =>
    obtain ⟨c, s1⟩ := r
    obtain ⟨hown, hfr, hram, hgrw⟩ := Machine.allocFrame_of_own h hall
    obtain ⟨m, hm⟩ : ∃ m, m = copyKernelHalf (s1.ram.zeroPage c) src c kernelIndices := ⟨_, rfl⟩
    refine .of_ok (a := (c, { s1 with ram := m })) ?_ ⟨hown, hfr, ?_, ?_, ?_⟩
    · simp [createUserPml4, createEmptyPml4, Machine.allocateFrame, hall, hm]
    · intro g hg
      have hgc : g ≠ c := by
        rintro rfl
        rw [hg] at hfr
        cases hfr
      refine ⟨(hgrw g hg).1, fun _ => ?_⟩
      rw [hm, page_copyKernelHalf hgc, PhysMem.page_zeroPage_of_ne hgc, hram]
    · intro i hi
      have hnot : i ∉ kernelIndices := fun hmem => absurd (mem_kernelIndices.mp hmem).1 (by omega)
      rw [hm, entry_copyKernelHalf_of_notMem hnot, PhysMem.entry_zeroPage_self]
    intro hne i hlo hhi
    rw [hm, entry_copyKernelHalf hne, if_pos (mem_kernelIndices.mpr ⟨hlo, hhi⟩),
      PhysMem.entry_of_page (PhysMem.page_zeroPage_of_ne hne), hram]

/-! ## Teardown -/

/-- The state of a teardown loop: nothing was written, and of the table `t` the claims through the
entries `is` are left. -/
def Freeing (K : Nat → Prop) (exact : Prop) (s : Machine) (k t : Nat) (X : Claims Nat)
    (is : List Nat) (s' : Machine) : Prop :=
  ∃ p, s' = { s with pmm := p } ∧
    Own K exact p ({(t, true)} + (is.map fun i => holdsBelow s.ram k (s.ram.entry t i)).sum + X)

lemma Freeing.skip {k t i : Nat} {is : List Nat} {s' : Machine}
    (h : Freeing K exact s k t X (i :: is) s')
    (hnone : Pte.target k (s'.ram.entry t i) = none) : Freeing K exact s k t X is s' := by
  obtain ⟨p, rfl, hown⟩ := h
  refine ⟨p, rfl, ?_⟩
  rwa [List.map_cons, List.sum_cons, holdsBelow_none hnone, zero_add] at hown

lemma Freeing.loop {k t : Nat} {body : (i target : Nat) → Machine → Except Panic Machine}
    (hbody : ∀ i f p Y, Pte.target k (s.ram.entry t i) = some f →
      Own K exact p (holdsBelow s.ram k (s.ram.entry t i) + Y) →
        ∃ p', body i f { s with pmm := p } = .ok { s with pmm := p' } ∧ Own K exact p' Y)
    (h : Own K exact s.pmm (holds s.ram k t + X)) :
    ∃ p', forEntries Machine.ram k t body (entryIndices k) s = .ok { s with pmm := p' } ∧
      Own K exact p' ({(t, true)} + X) := by
  have hst : Freeing K exact s k t X (entryIndices k) s := ⟨s.pmm, rfl, holds_eq s.ram k t ▸ h⟩
  have hout : Outcome (forEntries Machine.ram k t body (entryIndices k) s)
      (Freeing K exact s k t X []) fun _ => False := by
    refine forEntries_rule (Freeing K exact s k t X) (fun i is s' hs' => hs'.skip) ?_ hst
    rintro i is s' f ⟨p, rfl, hown⟩ hsome
    rw [List.map_cons, List.sum_cons] at hown
    -- what lies below the entry comes first, everything else is context
    obtain ⟨p', hp', hrest⟩ := hbody i f p ({(t, true)} +
      (is.map fun i => holdsBelow s.ram k (s.ram.entry t i)).sum + X) hsome (by
        convert hown using 1
        abel)
    exact .of_ok hp' ⟨p', rfl, hrest⟩
  obtain ⟨s', hs', p', rfl, hown⟩ := hout.returns
  exact ⟨p', hs', by simpa using hown⟩

/-- Teardown cannot fail on an owned tree, and gives back all but its root. -/
lemma freeLevel_of_own {k t : Nat} (h : Own K exact s.pmm (holds s.ram k t + X)) :
    ∃ p', freeLevel k t s = .ok { s with pmm := p' } ∧ Own K exact p' ({(t, true)} + X) := by
  induction k generalizing t s X with
  | zero =>
    refine Freeing.loop (fun i f p Y hsome hown => ?_) h
    rw [holdsBelow_leaf hsome] at hown
    exact Machine.decref_of_own (s := { s with pmm := p }) hown
  | succ k ih =>
    refine Freeing.loop (fun i f p Y hsome hown => ?_) h
    rw [holdsBelow_table hsome] at hown
    obtain ⟨p1, hp1, hown1⟩ := ih (s := { s with pmm := p }) hown
    have hone : p1.refcount f = 1 := hown1.ledger.sole (f, true) (by simp) rfl
    obtain ⟨p2, hp2, hown2⟩ := Machine.freeFrame_of_own (s := { s with pmm := p1 }) hown1 hone
    exact ⟨p2, by simp only [hp1, hp2], hown2⟩

lemma freeUserAddressSpace_of_own {pml4 : Nat} (h : Own K exact s.pmm (holds s.ram 3 pml4 + X)) :
    ∃ p', freeUserAddressSpace s pml4 = .ok { s with pmm := p' } ∧ Own K exact p' X := by
  obtain ⟨p1, hp1, hown1⟩ := freeLevel_of_own h
  have hone : p1.refcount pml4 = 1 := hown1.ledger.sole (pml4, true) (by simp) rfl
  obtain ⟨p2, hp2, hown2⟩ := Machine.freeFrame_of_own (s := { s with pmm := p1 }) hown1 hone
  exact ⟨p2, by simp only [freeUserAddressSpace, hp1, hp2], hown2⟩

end Indominus.Memory
