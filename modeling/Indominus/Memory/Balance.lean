import Indominus.Memory.AddressSpace
import Indominus.Memory.Mapper
import Mathlib.Order.Interval.Finset.Nat

/-!
# What the allocator has handed out, and what comes back

The allocator compared with an earlier state of itself: exactly the frames `S` have been handed out
since.
-/

namespace Indominus.Memory

open Lib Multiset Machine

/-! ## Sound allocators -/

/-- The frames that `alloc_frame` can still hand out. -/
def Pmm.available (p : Pmm) : Finset Nat :=
  (Finset.Ico 1 p.totalFrames).filter fun f => p.bitmapTest f = false

/-- A free frame has no references, and `FREE_FRAMES` covers the free frames. -/
structure Pmm.Sound (p : Pmm) : Prop where
  unreferenced : ∀ f, p.bitmapTest f = false → p.refcount f = 0
  counter : p.available.card ≤ p.freeFrames

/-- The bitmap, the reference counts and the counter are the same. -/
structure Pmm.Same (p p' : Pmm) : Prop where
  bitmap : p'.bitmap = p.bitmap
  refcounts : ∀ f, p'.refcount f = p.refcount f
  freeFrames : p'.freeFrames = p.freeFrames

lemma Pmm.Same.refl (p : Pmm) : p.Same p := ⟨rfl, fun _ => rfl, rfl⟩

/-! ## Frames on loan -/

/-- Since `p0` the frames `S` have been handed out, and nothing else has changed. -/
structure Lent (p0 : Pmm) (S : Multiset Nat) (p : Pmm) : Prop where
  bit : ∀ f, p.bitmapTest f = true ↔ p0.bitmapTest f = true ∨ f ∈ S
  count : ∀ f, p.refcount f = if f ∈ S then 1 else p0.refcount f
  fresh : ∀ f ∈ S, f ∈ p0.available
  nodup : S.Nodup
  counter : p.freeFrames + S.card = p0.freeFrames
  total : p.totalFrames = p0.totalFrames

namespace Lent

variable {p0 p p' : Pmm} {S : Multiset Nat} {f : Nat}

lemma refl (p : Pmm) : Lent p 0 p where
  bit f := by simp
  count f := by simp
  fresh f hf := by simp at hf
  nodup := nodup_zero
  counter := by simp
  total := rfl

lemma same (h : Lent p0 0 p) : p0.Same p := by
  refine ⟨?_, fun f => ?_, ?_⟩
  · apply Nat.eq_of_testBit_eq
    intro f
    have hbit := h.bit f
    simp only [notMem_zero, or_false] at hbit
    exact Bool.eq_iff_iff.mpr hbit
  · simpa using h.count f
  · simpa using h.counter

lemma allocFrame (h : Lent p0 S p) (hp0 : p0.Sound) (ha : p.allocFrame = some (f, p')) :
    Lent p0 (f ::ₘ S) p' := by
  obtain ⟨hpos, hlt, hfree, -, rfl⟩ := Pmm.allocFrame_eq_some ha
  have hnot : ¬(p0.bitmapTest f = true ∨ f ∈ S) := by
    rw [← h.bit, hfree]
    exact Bool.false_ne_true
  obtain ⟨hfree0, hout⟩ := not_or.mp hnot
  have hnd : (f ::ₘ S).Nodup := nodup_cons.mpr ⟨hout, h.nodup⟩
  have hfr : ∀ g ∈ f ::ₘ S, g ∈ p0.available := by
    intro g hg
    rcases mem_cons.mp hg with rfl | hg
    · rw [Pmm.available, Finset.mem_filter, Finset.mem_Ico, ← h.total]
      exact ⟨⟨hpos, hlt⟩, by simpa using hfree0⟩
    · exact h.fresh g hg
  -- one more frame was free, so the counter had not run down
  have hroom : (f ::ₘ S).card ≤ p0.freeFrames := by
    have hle : (⟨f ::ₘ S, hnd⟩ : Finset Nat) ⊆ p0.available := fun g hg => hfr g hg
    exact (Finset.card_le_card hle).trans hp0.counter
  rw [card_cons] at hroom
  have hcounter := h.counter
  refine ⟨fun g => ?_, fun g => ?_, hfr, hnd, ?_, h.total⟩
  · rw [Pmm.claim_bitmapTest, Bool.or_eq_true, decide_eq_true_iff, h.bit, mem_cons]
    tauto
  · rw [Pmm.claim_refcount, h.count]
    by_cases hg : g = f
    · simp [hg]
    · simp [hg]
  change p.freeFrames - 1 + (f ::ₘ S).card = p0.freeFrames
  rw [card_cons]
  omega

lemma allocates (h : Lent p0 S p) (hp0 : p0.Sound) {l : List Nat} (hl : Allocates p l p') :
    Lent p0 ((l : Multiset Nat) + S) p' := by
  induction hl generalizing S with
  | nil => simpa using h
  | cons hall _ ih =>
    have hnext := ih (h.allocFrame hp0 hall)
    rwa [add_cons, ← cons_add, cons_coe] at hnext

lemma release (h : Lent p0 (f ::ₘ S) p) (hp0 : p0.Sound) : Lent p0 S (p.release f) := by
  obtain ⟨hout, hnd⟩ := nodup_cons.mp h.nodup
  have hfree : p0.bitmapTest f = false := (Finset.mem_filter.mp (h.fresh f (by simp))).2
  refine ⟨fun g => ?_, fun g => ?_, fun g hg => h.fresh g (by simp [hg]), hnd, ?_, h.total⟩
  · by_cases hg : g = f
    · simp [hg, hfree, hout]
    · simp [hg, h.bit]
  · rw [Pmm.release_refcount, h.count]
    by_cases hg : g = f
    · simp [hg, hout, hp0.unreferenced f hfree]
    · simp [hg]
  have hcounter := h.counter
  rw [card_cons] at hcounter
  change p.freeFrames + 1 + S.card = p0.freeFrames
  omega

end Lent

/-! ## Giving frames up -/

/-- The frames of a list have been given up, one after the other, by `decref` or `free_frame`. -/
inductive Drops : Pmm → List Nat → Pmm → Prop
  | nil (p : Pmm) : Drops p [] p
  | cons {p p1 p2 : Pmm} {f : Nat} {l : List Nat}
      (h : p.decref f = .ok p1 ∨ p.freeFrame f = .ok p1) (rest : Drops p1 l p2) :
          Drops p (f :: l) p2

namespace Drops

variable {p0 p p1 p2 : Pmm} {l l' : List Nat} {S : Multiset Nat} {f : Nat}

lemma append (h : Drops p l p1) (h' : Drops p1 l' p2) : Drops p (l ++ l') p2 := by
  induction h with
  | nil => exact h'
  | cons hdrop _ ih => exact .cons hdrop (ih h')

lemma single (h : p.decref f = .ok p1 ∨ p.freeFrame f = .ok p1) : Drops p [f] p1 :=
  .cons h (.nil p1)

lemma release_of_one (h : p.decref f = .ok p1 ∨ p.freeFrame f = .ok p1) (hone : p.refcount f = 1) :
    p1 = p.release f := by
  rcases h with h | h
  · rw [Pmm.decref] at h
    split_ifs at h
    exact (Except.ok.inj h).symm
  rw [Pmm.freeFrame] at h
  split_ifs at h
  exact (Except.ok.inj h).symm

lemma lent (h : Drops p l p1) (hp0 : p0.Sound) (hlent : Lent p0 ((l : Multiset Nat) + S) p) :
    Lent p0 S p1 := by
  induction h with
  | nil => simpa using hlent
  | cons hdrop _ ih =>
    rw [← cons_coe, cons_add] at hlent
    have hone := hlent.count
    have hrel := release_of_one hdrop (by rw [hone, if_pos (by simp)])
    exact ih (hrel ▸ hlent.release hp0)

end Drops

/-! ## Teardown -/

/-- The frames of a tree, as often as it uses them. -/
def frames (m : PhysMem) (k t : Nat) : Multiset Nat := (holds m k t).map Prod.fst

lemma mem_frames {m : PhysMem} {k t f : Nat} :
    f ∈ frames m k t ↔ ∃ u ∈ uses m k t, u.frame = f := by
  simp [frames, holds, hold_fst]

variable {s s' : Machine} {k t f : Nat}

lemma Machine.allocFrame_cases (h : s.allocFrame = some (f, s')) :
    ∃ p, s.pmm.allocFrame = some (f, p) ∧ s' = { s with pmm := p } := by
  simp only [allocFrame, Option.map_eq_some_iff, Prod.exists, Prod.mk.injEq] at h
  obtain ⟨f', p, hp, rfl, rfl⟩ := h
  exact ⟨p, hp, rfl⟩

lemma Machine.decref_cases (h : s.decref f = .ok s') :
    ∃ p, s.pmm.decref f = .ok p ∧ s' = { s with pmm := p } := by
  cases hp : s.pmm.decref f with
  | error e => simp [decref, hp, Except.map] at h
  | ok p => exact ⟨p, rfl, by simpa [decref, hp, Except.map, eq_comm] using h⟩

lemma Machine.freeFrame_cases (h : s.freeFrame f = .ok s') :
    ∃ p, s.pmm.freeFrame f = .ok p ∧ s' = { s with pmm := p } := by
  cases hp : s.pmm.freeFrame f with
  | error e => simp [freeFrame, hp, Except.map] at h
  | ok p => exact ⟨p, rfl, by simpa [freeFrame, hp, Except.map, eq_comm] using h⟩

lemma forEntries_drops {body : (i target : Nat) → Machine → Except Panic Machine}
    (hbody : ∀ i f p s', Pte.target k (s.ram.entry t i) = some f →
      body i f { s with pmm := p } = .ok s' →
      ∃ l p', s' = { s with pmm := p' } ∧ Drops p l p' ∧
        (l : Multiset Nat) = (holdsBelow s.ram k (s.ram.entry t i)).map Prod.fst)
    {is : List Nat} {p : Pmm} (h : forEntries ram k t body is { s with pmm := p } = .ok s') :
    ∃ l p', s' = { s with pmm := p' } ∧ Drops p l p' ∧ (l : Multiset Nat) =
      ((is.map fun i => holdsBelow s.ram k (s.ram.entry t i)).sum).map Prod.fst := by
  induction is generalizing p with
  | nil => exact ⟨[], p, (Except.ok.inj h).symm, .nil p, by simp⟩
  | cons i is ih =>
    rw [forEntries] at h
    split at h
    · rename_i hnone
      obtain ⟨l, p', hs', hdps, hl⟩ := ih h
      refine ⟨l, p', hs', hdps, ?_⟩
      rw [List.map_cons, List.sum_cons, holdsBelow_none hnone, zero_add, hl]
    rename_i f hsome
    split at h
    · cases h
    rename_i s1 hs1
    obtain ⟨l1, p1, rfl, hdps1, hl1⟩ := hbody i f p s1 hsome hs1
    obtain ⟨l2, p2, hs', hdps2, hl2⟩ := ih h
    refine ⟨l1 ++ l2, p2, hs', hdps1.append hdps2, ?_⟩
    rw [List.map_cons, List.sum_cons, map_add, ← hl1, ← hl2, coe_add]

/-- Teardown drops every frame but the root as often as the tree refers to it. -/
lemma freeLevel_drops (h : freeLevel k t s = .ok s') :
    ∃ l p', s' = { s with pmm := p' } ∧ Drops s.pmm l p' ∧
      t ::ₘ (l : Multiset Nat) = frames s.ram k t := by
  induction k generalizing t s s' with
  | zero =>
    obtain ⟨l, p', hs', hdps, hl⟩ := forEntries_drops (fun i f p s1 hsome hs1 => by
      obtain ⟨p1, hp1, rfl⟩ := decref_cases hs1
      exact ⟨[f], p1, rfl, .single (.inl hp1), by simp [holdsBelow_leaf hsome]⟩) h
    refine ⟨l, p', hs', hdps, ?_⟩
    rw [frames, holds_eq, hl]
    simp
  | succ k ih =>
    obtain ⟨l, p', hs', hdps, hl⟩ := forEntries_drops (fun i c p s1 hsome hs1 => by
      split at hs1
      · cases hs1
      rename_i s2 hs2
      obtain ⟨l2, p2, rfl, hdps2, hl2⟩ := ih hs2
      obtain ⟨p3, hp3, rfl⟩ := freeFrame_cases hs1
      refine ⟨l2 ++ [c], p3, rfl, hdps2.append (.single (.inr hp3)), ?_⟩
      rw [holdsBelow_table hsome, ← frames, ← hl2]
      simp) h
    refine ⟨l, p', hs', hdps, ?_⟩
    rw [frames, holds_eq, hl]
    simp

lemma freeUserAddressSpace_drops (h : freeUserAddressSpace s t = .ok s') :
    ∃ l p', s' = { s with pmm := p' } ∧ Drops s.pmm l p' ∧
      (l : Multiset Nat) = frames s.ram 3 t := by
  rw [freeUserAddressSpace] at h
  split at h
  · cases h
  rename_i s1 hs1
  obtain ⟨l, p1, rfl, hdps, hl⟩ := freeLevel_drops hs1
  obtain ⟨p2, hp2, rfl⟩ := freeFrame_cases h
  refine ⟨l ++ [t], p2, rfl, hdps.append (.single (.inr hp2)), ?_⟩
  rw [← hl]
  simp

lemma freeUserAddressSpace_free (h : freeUserAddressSpace s t = .ok s') :
    s'.pmm.bitmapTest t = false := by
  rw [freeUserAddressSpace] at h
  split at h
  · cases h
  obtain ⟨p, hp, rfl⟩ := freeFrame_cases h
  rw [Pmm.freeFrame] at hp
  split_ifs at hp
  cases hp
  simp

end Indominus.Memory
