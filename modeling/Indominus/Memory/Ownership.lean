import Indominus.Lib.Ledger
import Indominus.Memory.Vmm

/-!
# Who owns which frame

A table is claimed by the entry that links it, a data frame by every leaf that maps it, as a sole
owner if the leaf is writable.
-/

namespace Indominus.Memory

open Lib Multiset

/-! ## The claims of a tree -/

def hold : Radix.Use Nat Word → Nat × Bool
  | .table _ t => (t, true)
  | .leaf e f => (f, Pte.isWritable e)

/-- Everything reached from the table `t` of level `k`. -/
abbrev uses (m : PhysMem) (k t : Nat) : Multiset (Radix.Use Nat Word) :=
  Radix.visit pageTree m.tables k t

/-- The claims of the tree below the table `t` of level `k`. -/
def holds (m : PhysMem) (k t : Nat) : Claims Nat := (uses m k t).map hold

/-- The claims made through one entry of a table of level `k`. -/
def holdsBelow (m : PhysMem) (k : Nat) (e : Word) : Claims Nat :=
  (Radix.below pageTree m.tables k e).map hold

lemma hold_fst (u : Radix.Use Nat Word) : (hold u).1 = u.frame := by
  cases u <;> rfl

variable {u : Radix.Use Nat Word} {e : Word} {i : Nat} {m' : PhysMem} {W : Nat → Prop}
  {m : PhysMem} {k t : Nat}

lemma hold_of_isTable (h : u.isTable = true) : hold u = (u.frame, true) := by
  cases u with
  | table l f => rfl
  | leaf e f => simp at h

lemma claims_map_hold (f : Nat) (M : Multiset (Radix.Use Nat Word)) :
    claims f (M.map hold) = Radix.refs f M := by
  rw [claims, Radix.refs, countP_map, countP_eq_card_filter]
  simp only [hold_fst]

lemma claims_holds (f : Nat) (m : PhysMem) (k t : Nat) :
    claims f (holds m k t) = Radix.refs f (uses m k t) :=
  claims_map_hold f _

lemma holds_eq (m : PhysMem) (k t : Nat) : holds m k t =
      {(t, true)} + ((entryIndices k).map fun i => holdsBelow m k (m.entry t i)).sum := by
  have hspan : pageTree.span k = Finset.range (entryCount k) := rfl
  have hsum : ∀ g : Nat → Claims Nat, ∑ i ∈ Finset.range (entryCount k), g i =
      ((entryIndices k).map g).sum := fun g => rfl
  rw [holds, uses, Radix.visit_eq, map_add, hspan,
    ← coe_mapAddMonoidHom hold, map_sum]
  rfl

lemma table_mem_holds (m : PhysMem) (k t : Nat) : (t, true) ∈ holds m k t :=
  mem_map.mpr ⟨_, Radix.table_mem_visit _ _ k t, rfl⟩

lemma holdsBelow_none (h : Pte.target k e = none) : holdsBelow m k e = 0 := by
  rw [holdsBelow, Radix.below_of_none (S := pageTree) h, map_zero]

lemma holdsBelow_leaf {f : Nat} (h : Pte.target 0 e = some f) :
    holdsBelow m 0 e = {(f, Pte.isWritable e)} := by
  simp [holdsBelow, Radix.below, Radix.leafUse, h, hold]

lemma holdsBelow_table {c : Nat} (h : Pte.target (k + 1) e = some c) :
    holdsBelow m (k + 1) e = holds m k c := by
  rw [holdsBelow, Radix.below_of_target (S := pageTree) h, holds]

lemma uses_le_of_target {c : Nat} (hi : i < entryCount (k + 1))
    (h : Pte.target (k + 1) (m.entry t i) = some c) : uses m k c ≤ uses m (k + 1) t := by
  have hle := Radix.below_le_visit pageTree m.tables (t := t) (Finset.mem_range.mpr hi)
  rwa [Radix.below_of_target (show pageTree.target (k + 1) (m.tables t i) = some c from h)] at hle

lemma holds_eq_rest (hi : i < entryCount k) :
    holds m k t = (Radix.rest pageTree m.tables k t i).map hold + holdsBelow m k (m.entry t i) := by
  rw [holds, uses, Radix.visit_eq_rest (Finset.mem_range.mpr hi), map_add]
  rfl

lemma holds_of_sameExcept
    (h : Radix.SameExcept pageTree m.tables m'.tables k t i) (hi : i < entryCount k) :
    holds m' k t = (Radix.rest pageTree m.tables k t i).map hold +
      holdsBelow m' k (m'.entry t i) := by
  rw [holds, uses, h.visit (Finset.mem_range.mpr hi), map_add]
  rfl

lemma holds_of_empty (h : ∀ i < entryCount k, Pte.target k (m.entry t i) = none) :
    holds m k t = {(t, true)} := by
  rw [holds, uses, Radix.visit_of_empty (fun i hi => h i (Finset.mem_range.mp hi)),
    map_singleton, hold]

lemma uses_congr (h : ∀ u ∈ uses m k t, u.isTable → m'.page u.frame = m.page u.frame) :
    uses m' k t = uses m k t :=
  Radix.visit_congr fun u hu htab => PhysMem.tables_of_page (h u hu htab)

/-! ## The allocator's ledger -/

/-- The bitmap and the counts of the allocator cover the claims `A`, and none of them is on a
frame of the kernel. -/
structure Own (K : Nat → Prop) (exact : Prop) (p : Pmm) (A : Claims Nat) : Prop where
  ledger : Ledger exact p.refcount A
  used : ∀ f, 0 < p.refcount f → p.bitmapTest f = true ∧ 0 < f ∧ f < p.totalFrames
  kernel : ∀ f, K f → p.bitmapTest f = true ∧ claims f A = 0
  size : p.totalFrames ≤ MAX_FRAMES

namespace Own

variable {K : Nat → Prop} {exact : Prop} {p p' : Pmm} {A B : Claims Nat} {f : Nat}
  {b : Bool}

variable {c : Nat × Bool}

lemma claimed (h : Own K exact p A) (hc : c ∈ A) :
    p.bitmapTest c.1 = true ∧ 0 < c.1 ∧ c.1 < p.totalFrames :=
  h.used _ (h.ledger.pos hc)

lemma lt_two_pow (h : Own K exact p A) (hf : f < p.totalFrames) : f < 2 ^ 40 := by
  have := h.size
  simp only [MAX_FRAMES] at this
  omega

lemma refcount_free (h : Own K exact p A) (hf : p.bitmapTest f = false) : p.refcount f = 0 := by
  by_contra hne
  have hset := (h.used f (Nat.pos_of_ne_zero hne)).1
  rw [hf] at hset
  cases hset

lemma not_kernel (h : Own K exact p A) (hc : c ∈ A) : ¬ K c.1 := by
  intro hK
  have hpos := claims_pos hc
  rw [(h.kernel _ hK).2] at hpos
  exact absurd hpos (lt_irrefl 0)

lemma ne_sole (h : Own K exact p ({(f, true)} + A)) (hc : c ∈ A) : c.1 ≠ f :=
  claims_eq_zero.mp h.ledger.claims_rest c hc

lemma forget (h : Own K exact p ({(f, true)} + A)) : Own K exact p A where
  ledger := h.ledger.forget
  used := h.used
  kernel g hK := by
    have := h.kernel g hK
    simp only [claims_add] at this
    exact ⟨this.1, by omega⟩
  size := h.size

lemma retag {b' : Bool} (h : Own K exact p ({(f, b)} + A))
    (hone : b' = true → p.refcount f = 1) : Own K exact p ({(f, b')} + A) where
  ledger := h.ledger.retag hone
  used := h.used
  kernel g hK := by
    have := h.kernel g hK
    simpa using this
  size := h.size

lemma allocFrame (h : Own K exact p A) (ha : p.allocFrame = some (f, p')) :
    Own K exact p' ({(f, true)} + A) ∧ p.bitmapTest f = false ∧ p'.totalFrames = p.totalFrames ∧
      (∀ g, p'.bitmapTest g = (decide (g = f) || p.bitmapTest g)) := by
  obtain ⟨hpos, hlt, hfree, -, rfl⟩ := Pmm.allocFrame_eq_some ha
  have hne : ∀ g, K g → g ≠ f := by
    rintro g hK rfl
    rw [(h.kernel g hK).1] at hfree
    cases hfree
  refine ⟨⟨?_, ?_, ?_, h.size⟩, hfree, rfl, fun g => Pmm.claim_bitmapTest p f g⟩
  · exact h.ledger.acquire (h.refcount_free hfree) (fun g => Pmm.claim_refcount p f g) true
  · intro g hg
    rw [Pmm.claim_refcount] at hg
    by_cases hgf : g = f
    · subst hgf
      exact ⟨by simp, hpos, hlt⟩
    rw [if_neg hgf] at hg
    obtain ⟨h1, h2, h3⟩ := h.used g hg
    exact ⟨by simp [h1], h2, h3⟩
  intro g hK
  obtain ⟨hbit, hnone⟩ := h.kernel g hK
  exact ⟨by simp [hbit], by simp [hnone, (hne g hK).symm]⟩

section

variable (h : Own K exact p ({(f, b)} + A))

include h

lemma drop (hrc : ∀ g, p'.refcount g = if g = f then p.refcount f - 1 else p.refcount g)
    (hbit : ∀ g, 0 < p'.refcount g ∨ g ≠ f → p'.bitmapTest g = p.bitmapTest g)
    (htot : p'.totalFrames = p.totalFrames) : Own K exact p' A where
  ledger := h.ledger.release hrc
  used g hg := by
    have hg' : 0 < p.refcount g := by
      rw [hrc] at hg
      split at hg
      · rename_i hgf
        subst hgf
        omega
      · exact hg
    rw [hbit g (.inl hg), htot]
    exact h.used g hg'
  kernel g hK := by
    have hne : g ≠ f := by
      rintro rfl
      exact h.not_kernel (c := (g, b)) (by simp) hK
    have := h.kernel g hK
    rw [hbit g (.inr hne)]
    simp only [claims_add] at this
    exact ⟨this.1, by omega⟩
  size := htot ▸ h.size

lemma release (hone : p.refcount f = 1) : Own K exact (p.release f) A := by
  refine h.drop (fun g => ?_) (fun g hg => ?_) rfl
  · rw [Pmm.release_refcount, hone]
  have hne : g ≠ f := by
    rcases hg with hg | hg
    · rintro rfl
      simp at hg
    · exact hg
  simp [hne]

lemma freeFrame (hone : p.refcount f = 1) : ∃ p', p.freeFrame f = .ok p' ∧ Own K exact p' A := by
  obtain ⟨hbit, hpos, hlt⟩ := h.claimed (c := (f, b)) (by simp)
  exact ⟨_, Pmm.freeFrame_ok hpos hlt hbit hone, h.release hone⟩

lemma decref : ∃ p', p.decref f = .ok p' ∧ Own K exact p' A := by
  obtain ⟨hbit, hpos, hlt⟩ := h.claimed (c := (f, b)) (by simp)
  have hrc : 0 < p.refcount f := h.ledger.pos (c := (f, b)) (by simp)
  by_cases hone : p.refcount f = 1
  · exact ⟨_, Pmm.decref_last hlt hbit hone, h.release hone⟩
  refine ⟨_, Pmm.decref_shared hlt hbit (by omega), h.drop (fun g => ?_) (fun g _ => ?_) rfl⟩
  · rw [Pmm.setRefcount_refcount]
  · rw [Pmm.setRefcount_bitmapTest]

lemma incref (hroom : claims f A + 2 ≤ 255) :
    ∃ p', p.incref f = .ok p' ∧ Own K exact p' ({(f, false)} + {(f, false)} + A) ∧
      p'.totalFrames = p.totalFrames ∧ ∀ g, p'.bitmapTest g = p.bitmapTest g := by
  obtain ⟨hbit, hpos, hlt⟩ := h.claimed (c := (f, b)) (by simp)
  have hker : ∀ g, K g → claims g ({(f, false)} + {(f, false)} + A) = 0 := by
    intro g hK
    have hne : f ≠ g := by
      rintro rfl
      exact h.not_kernel (c := (f, b)) (by simp) hK
    have := (h.kernel g hK).2
    simp only [claims_add] at this
    simp only [claims_add, claims_singleton, if_neg hne]
    omega
  have hbnd : claims f A + 1 ≤ p.refcount f := by
    have := h.ledger.bound f
    simp only [claims_add, claims_singleton, if_true] at this
    omega
  by_cases hsat : p.refcount f < 255
  · refine ⟨_, Pmm.incref_ok hlt hbit hsat, ⟨?_, ?_, ?_, h.size⟩, rfl, fun g => rfl⟩
    · refine h.ledger.share ?_ ?_ (fun g hg => ?_)
      · rw [Pmm.setRefcount_refcount, if_pos rfl]
        omega
      · rw [Pmm.setRefcount_refcount, if_pos rfl]
      · rw [Pmm.setRefcount_refcount, if_neg hg]
    · intro g hg
      rw [Pmm.setRefcount_refcount] at hg
      by_cases hgf : g = f
      · subst hgf
        exact ⟨hbit, hpos, hlt⟩
      · rw [if_neg hgf] at hg
        exact h.used g hg
    · exact fun g hK => ⟨(h.kernel g hK).1, hker g hK⟩
  -- the count stays at 255, which still covers the claims
  refine ⟨p, by simp [Pmm.incref, hlt, hbit, hsat], ⟨?_, h.used, ?_, h.size⟩, rfl, fun g => rfl⟩
  · exact h.ledger.share (by omega) (by omega) fun g _ => rfl
  · exact fun g hK => ⟨(h.kernel g hK).1, hker g hK⟩

end

end Own

/-! ## Tables of an owned tree -/

/-- Is `f` a table of the tree below `t`? -/
def IsTable (m : PhysMem) (k t f : Nat) : Prop := ∃ l, Radix.Use.table l f ∈ uses m k t

lemma isTable_self (m : PhysMem) (k t : Nat) : IsTable m k t t :=
  ⟨k, Radix.table_mem_visit _ _ k t⟩

lemma IsTable.mem_holds {f : Nat} (h : IsTable m k t f) : (f, true) ∈ holds m k t := by
  obtain ⟨l, hl⟩ := h
  exact mem_map.mpr ⟨_, hl, rfl⟩

lemma isTable_of_mem (hu : u ∈ uses m k t) (htab : u.isTable = true) : IsTable m k t u.frame := by
  cases u with
  | table l f => exact ⟨l, hu⟩
  | leaf e f => simp at htab

namespace Own

variable {K : Nat → Prop} {exact : Prop} {p : Pmm} {X : Claims Nat} {m : PhysMem}
  {k t f : Nat}

section

variable (h : Own K exact p (holds m k t + X))

include h

lemma table_claims (hf : IsTable m k t f) : claims f X = 0 ∧ claims f (holds m k t) = 1 := by
  have hmem : (f, true) ∈ holds m k t + X := mem_add.mpr (.inl hf.mem_holds)
  have hle := h.ledger.claims_sole_le hmem
  have hpos := claims_pos hf.mem_holds
  rw [claims_add] at hle
  simp only at hpos
  omega

lemma refs_table (hf : IsTable m k t f) : Radix.refs f (uses m k t) ≤ 1 := by
  rw [← claims_holds, (h.table_claims hf).2]

lemma not_isTable {c : Nat × Bool} (hc : c ∈ X) : ¬ IsTable m k t c.1 := by
  intro hf
  have hpos := claims_pos hc
  rw [(h.table_claims hf).1] at hpos
  exact absurd hpos (lt_irrefl 0)

lemma exists_leaf (hu : u ∈ uses m k t) (hX : 0 < claims u.frame X) : ∃ e, u = .leaf e u.frame := by
  cases u with
  | table l g =>
    rw [Radix.Use.frame_table, (h.table_claims ⟨l, hu⟩).1] at hX
    exact absurd hX (lt_irrefl 0)
  | leaf e g => exact ⟨e, rfl⟩

lemma not_isTable_leaf (hf : Radix.Use.leaf e f ∈ uses m k t) : ¬ IsTable m k t f := by
  rintro ⟨l, hl⟩
  have htwo := Radix.two_le_refs hl hf (by simp) rfl
  have hone := h.refs_table ⟨l, hl⟩
  simp only [Radix.Use.frame_table] at htwo
  omega

end

end Own

/-! ## Operations that free nothing -/

/-- What was allocated stays allocated, and keeps its contents outside `W`. -/
def Grows (W : Nat → Prop) (s s' : Machine) : Prop :=
  ∀ f, s.pmm.bitmapTest f = true →
    s'.pmm.bitmapTest f = true ∧ (¬ W f → s'.ram.page f = s.ram.page f)

lemma Grows.refl (W : Nat → Prop) (s : Machine) : Grows W s s := fun _ hf => ⟨hf, fun _ => rfl⟩

lemma Grows.trans {s1 s2 s3 : Machine} (h1 : Grows W s1 s2) (h2 : Grows W s2 s3) :
    Grows W s1 s3 := by
  intro f hf
  obtain ⟨hbit2, hpage2⟩ := h1 f hf
  obtain ⟨hbit3, hpage3⟩ := h2 f hbit2
  exact ⟨hbit3, fun hW => (hpage3 hW).trans (hpage2 hW)⟩

lemma Grows.mono {W' : Nat → Prop} {s s' : Machine} (h : Grows W s s')
    (hW : ∀ f, s.pmm.bitmapTest f = true → W f → W' f) : Grows W' s s' :=
  fun f hf => ⟨(h f hf).1, fun hn => (h f hf).2 fun hw => hn (hW f hf hw)⟩

/-! ## The allocator's calls on a machine -/

namespace Machine

variable {K : Nat → Prop} {exact : Prop} {s s' : Machine} {A : Claims Nat} {f : Nat}
  {b : Bool}

lemma allocFrame_of_own (h : Own K exact s.pmm A) (ha : s.allocFrame = some (f, s')) :
    Own K exact s'.pmm ({(f, true)} + A) ∧ s.pmm.bitmapTest f = false ∧ s'.ram = s.ram ∧
      Grows (fun _ => False) s s' := by
  simp only [allocFrame, Option.map_eq_some_iff, Prod.exists, Prod.mk.injEq] at ha
  obtain ⟨f', p', hp', rfl, rfl⟩ := ha
  obtain ⟨hown, hfree, -, hbit⟩ := h.allocFrame hp'
  exact ⟨hown, hfree, rfl, fun g hg => ⟨by simp [hbit, hg], fun _ => rfl⟩⟩

lemma freeFrame_of_own (h : Own K exact s.pmm ({(f, b)} + A)) (hone : s.pmm.refcount f = 1) :
    ∃ p', s.freeFrame f = .ok { s with pmm := p' } ∧ Own K exact p' A := by
  obtain ⟨p', hp', hown⟩ := h.freeFrame hone
  exact ⟨p', by rw [freeFrame, hp']; rfl, hown⟩

lemma decref_of_own (h : Own K exact s.pmm ({(f, b)} + A)) :
    ∃ p', s.decref f = .ok { s with pmm := p' } ∧ Own K exact p' A := by
  obtain ⟨p', hp', hown⟩ := h.decref
  exact ⟨p', by rw [decref, hp']; rfl, hown⟩

end Machine

end Indominus.Memory
