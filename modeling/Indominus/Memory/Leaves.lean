import Indominus.Memory.Ownership

/-! # Leaf entries -/

namespace Indominus.Memory

open Lib Lib.Radix Pte

/-! ## Paths -/

abbrev pteAt (m : PhysMem) (k t : Nat) (path : List Nat) : Option Word :=
  leafAt pageTree m.tables k t path

abbrev InUser (k : Nat) (path : List Nat) : Prop := InSpan pageTree k path

variable {i f va pml4 pt T g : Nat} {path : List Nat} {m m' : PhysMem} {old new : Word}

lemma inSpan_head {k : Nat} (h : InUser k (i :: path)) : i ∈ pageTree.span k := by
  cases k with
  | zero =>
    obtain rfl := h.eq_nil
    exact h
  | succ k => exact h.1

lemma pteAt_leaf {t : Nat} {e : Word} (he : m.entry t i = e) (hf : target 0 e = some f) :
    pteAt m 0 t [i] = some e := by
  have hcell : m.tables t i = e := he
  simp [pteAt, leafAt_zero, hcell, hf]

lemma inUser_pathOf (hva : va < USER_SPACE_END) : InUser 3 (pathOf va) := by
  have h4 : pml4Index va < 256 := by
    simp only [pml4Index, USER_SPACE_END] at *
    omega
  have h3 : ∀ n, va / n % 512 < 512 := fun n => Nat.mod_lt _ (by decide)
  refine ⟨Finset.mem_range.mpr h4, Finset.mem_range.mpr (h3 _), Finset.mem_range.mpr (h3 _),
    Finset.mem_range.mpr (h3 _)⟩

lemma pathOf_eq_iff {va' : Nat} (hva : va < USER_SPACE_END) (hva' : va' < USER_SPACE_END) :
    pathOf va = pathOf va' ↔ va / PAGE_SIZE = va' / PAGE_SIZE := by
  simp only [pathOf, List.cons.injEq, pml4Index, pdptIndex, pdIndex, ptIndex, and_true, PAGE_SIZE,
    USER_SPACE_END] at *
  omega

lemma isSome_target_zero (e : Word) : (target 0 e).isSome = isPresent e := by
  simp only [target]
  cases isPresent e <;> simp

lemma walkPageTableToPte_eq (m : PhysMem) (pml4 va : Nat) :
    walkPageTableToPte m pml4 va = (slot pageTree m.tables 3 pml4 (pathOf va)).bind fun c =>
      if isPresent (m.entry c.1 c.2) then some c else none := by
  have hslot : slot pageTree m.tables 3 pml4 (pathOf va) =
      (target 3 (m.entry pml4 (pml4Index va))).bind fun pdpt =>
        (target 2 (m.entry pdpt (pdptIndex va))).bind fun pd =>
          (target 1 (m.entry pd (pdIndex va))).bind fun pt => some (pt, ptIndex va) := rfl
  rw [hslot, walkPageTableToPte]
  cases target 3 (m.entry pml4 (pml4Index va)) with
  | none => rfl
  | some pdpt =>
    simp only [Option.bind_some]
    cases target 2 (m.entry pdpt (pdptIndex va)) with
    | none => rfl
    | some pd =>
      simp only [Option.bind_some]
      cases target 1 (m.entry pd (pdIndex va)) with
      | none => rfl
      | some pt => rfl

lemma walk_eq_some (h : walkPageTableToPte m pml4 va = some (pt, i)) :
    slot pageTree m.tables 3 pml4 (pathOf va) = some (pt, i) ∧
      pteAt m 3 pml4 (pathOf va) = some (m.entry pt i) ∧
      target 0 (m.entry pt i) = some (addr (m.entry pt i)) := by
  rw [walkPageTableToPte_eq] at h
  obtain ⟨c, hslot, hc⟩ := Option.bind_eq_some_iff.mp h
  split at hc
  · rename_i hpres
    obtain rfl : c = (pt, i) := Option.some.inj hc
    have hpres' : isPresent (m.tables pt i) = true := hpres
    refine ⟨hslot, ?_, by simp [target, hpres]⟩
    rw [pteAt, leafAt, hslot]
    simp only [Option.bind_some, pageTree_target, isSome_target_zero, hpres', if_true]
    rfl
  · simp at hc

lemma walk_eq_none (h : walkPageTableToPte m pml4 va = none) :
    pteAt m 3 pml4 (pathOf va) = none := by
  rw [walkPageTableToPte_eq, Option.bind_eq_none_iff] at h
  rw [pteAt, leafAt, Option.bind_eq_none_iff]
  intro c hc
  have hpres := h c hc
  simp only [ite_eq_right_iff, reduceCtorEq, imp_false, Bool.not_eq_true] at hpres
  have hpres' : isPresent (m.tables c.1 c.2) = false := hpres
  simp [isSome_target_zero, hpres']

/-! ## Rewriting one leaf -/

/-- In the address space `T` the leaf entry `old` of a path has been replaced by `new`. -/
structure LeafEdit (m m' : PhysMem) (T : Nat) (path : List Nat) (old new : Word) : Prop where
  uses : uses m' 3 T + leafUse pageTree old = uses m 3 T + leafUse pageTree new
  leaf : ∀ q, InUser 3 q → pteAt m' 3 T q =
    if q = path then (if Pte.isPresent new then some new else none) else pteAt m 3 T q
  keeps : ∀ g, ¬ IsTable m 3 T g → m'.page g = m.page g
  root : ∀ j, m'.entry T j = m.entry T j

def TablesOnce (m : PhysMem) (T : Nat) : Prop := ∀ f, IsTable m 3 T f → refs f (uses m 3 T) ≤ 1

lemma Own.tablesOnce {K : Nat → Prop} {exact : Prop} {p : Pmm} {X : Claims Nat}
    (h : Own K exact p (holds m 3 T + X)) : TablesOnce m T :=
  fun _ hf => h.refs_table hf

lemma LeafEdit.of_setEntry (new : Word) (hp : InUser 3 path)
    (hs : slot pageTree m.tables 3 T path = some (pt, i)) (hone : TablesOnce m T) :
    LeafEdit m (m.setEntry pt i new) T path (m.entry pt i) new := by
  have hmem : Use.table 0 pt ∈ Memory.uses m 3 T := (slot_mem hp hs).1
  have hrefs : refs pt (Memory.uses m 3 T) ≤ 1 := hone pt ⟨0, hmem⟩
  have hw := PhysMem.writes_setEntry (m := m) pt i new
  -- the PT is not the PML4: it would be used twice
  have hroot : T ≠ pt := by
    rintro rfl
    have htwo := two_le_refs (table_mem_visit pageTree m.tables 3 T) hmem (by simp) rfl
    exact absurd (le_trans htwo hrefs) (by decide)
  constructor
  case uses => exact visit_set_slot hw hp hs hrefs
  case leaf =>
    intro q hq
    rw [pteAt, leafAt_set_slot hw hp hs hrefs hq]
    simp only [pageTree_target, isSome_target_zero]
  case keeps =>
    intro g hg
    refine PhysMem.page_setEntry_of_ne ?_
    rintro rfl
    exact hg ⟨0, hmem⟩
  case root => exact fun j => PhysMem.entry_of_page (PhysMem.page_setEntry_of_ne hroot) j

section

variable (h : LeafEdit m m' T path old new) (hold' : target 0 old = some f)
  (hnew : target 0 new = some g)

include h hold' hnew

lemma LeafEdit.holds_present :
    holds m' 3 T + {(f, isWritable old)} = holds m 3 T + {(g, isWritable new)} := by
  have huses := congrArg (Multiset.map hold) h.uses
  simpa [leafUse, hold', hnew, hold, holds] using huses

lemma LeafEdit.refs_present (x : Nat) : refs x (Memory.uses m' 3 T) + (if f = x then 1 else 0) =
    refs x (Memory.uses m 3 T) + if g = x then 1 else 0 := by
  have huses := congrArg (refs x) h.uses
  simp only [leafUse, pageTree_target, hold', hnew, Option.elim_some, refs_add, refs_singleton,
    Use.frame_leaf] at huses
  exact huses

end

end Indominus.Memory
