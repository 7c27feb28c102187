import Indominus.Memory.Leaves

/-! # Copy-on-write faults -/

namespace Indominus.Memory

open Lib Lib.Radix Pte

/-- A leaf entry with the flags of `e` and `WRITABLE`, that maps `frame`. -/
def writablePte (frame : Nat) (e : Word) : Word := Pte.setAddr frame (Pte.flags e ||| Pte.WRITABLE)

section WritablePte

variable {f : Nat} {e : Word}

lemma isFlags_writablePte (e : Word) : Pte.IsFlags (flags e ||| Pte.WRITABLE) :=
  (isFlags_flags e).or (by decide)

lemma addr_writablePte (hf : f < 2 ^ 40) : addr (writablePte f e) = f :=
  addr_setAddr hf (isFlags_writablePte e)

lemma isWritable_writablePte : isWritable (writablePte f e) = true := by
  have hbit : Pte.WRITABLE.getLsbD 1 = true := by decide
  rw [writablePte, isWritable_setAddr, isWritable, BitVec.getLsbD_or, hbit, Bool.or_true]

lemma isPresent_writablePte (he : isPresent e = true) :
    isPresent (writablePte f e) = true := by
  have hbit : (flags e).getLsbD 0 = true := isPresent_flags.trans he
  rw [writablePte, isPresent_setAddr, isPresent, BitVec.getLsbD_or, hbit, Bool.true_or]

lemma target_writablePte (hf : f < 2 ^ 40) (he : isPresent e = true) :
    target 0 (writablePte f e) = some f := by
  simp [target, isPresent_writablePte he, addr_writablePte hf]

end WritablePte

/-- The fault at `va` was resolved: the entry became writable and maps the same contents. -/
structure CowResolved (K : Nat → Prop) (exact : Prop) (T va : Nat) (X : Claims Nat)
    (s s' : Machine) (e e' : Word) : Prop where
  own : Own K exact s'.pmm (holds s'.ram 3 T + X)
  old : pteAt s.ram 3 T (pathOf va) = some e
  readOnly : Pte.isWritable e = false
  new : e' = writablePte (Pte.addr e') e
  leaf : ∀ q, InUser 3 q → pteAt s'.ram 3 T q = if q = pathOf va then some e' else pteAt s.ram 3 T q
  copy : s'.ram.page (Pte.addr e') = s.ram.page (Pte.addr e)
  keeps : ∀ g, s.pmm.bitmapTest g = true → ¬ IsTable s.ram 3 T g → s'.ram.page g = s.ram.page g
  root : ∀ j, s'.ram.entry T j = s.ram.entry T j
  linear : (∀ g, refs g (uses s.ram 3 T) ≤ 1) → ∀ g, refs g (uses s'.ram 3 T) ≤ 1

variable {K : Nat → Prop} {exact : Prop} {s : Machine} {X : Claims Nat} {T va pt i : Nat}

lemma walk_mem_holds {m : PhysMem} (hva : va < USER_SPACE_END)
    (hwalk : walkPageTableToPte m T va = some (pt, i)) :
    Use.leaf (m.entry pt i) (addr (m.entry pt i)) ∈ uses m 3 T := by
  obtain ⟨-, hpte, htgt⟩ := walk_eq_some hwalk
  obtain ⟨f, hf, hmem⟩ := leaf_mem (inUser_pathOf hva) hpte
  obtain rfl : addr (m.entry pt i) = f := addr_of_target hf
  exact hmem

section

variable {e : Word} (h : Own K exact s.pmm (holds s.ram 3 T + X)) (hva : va < USER_SPACE_END)
  (hwalk : walkPageTableToPte s.ram T va = some (pt, i)) (he : s.ram.entry pt i = e)

include h hva hwalk he

/-- A frame with one reference: the entry is made writable in place. -/
lemma cowResolved_sole (hone : s.pmm.refcount (addr e) = 1) (hro : isWritable e = false) :
    CowResolved K exact T va X s { s with ram := s.ram.setEntry pt i (writablePte (addr e) e) } e
      (writablePte (addr e) e) := by
  obtain ⟨hslot, hpte, htgt⟩ := walk_eq_some hwalk
  have hmem := walk_mem_holds hva hwalk
  rw [he] at hpte htgt hmem
  have hpres : isPresent e = true := by rw [← isSome_target_zero, htgt, Option.isSome_some]
  have htgt' := target_writablePte (addr_lt e) hpres
  have haddr := addr_writablePte (e := e) (addr_lt e)
  have hedit := LeafEdit.of_setEntry (writablePte (addr e) e) (inUser_pathOf hva) hslot h.tablesOnce
  rw [he] at hedit
  have hnot : ¬ IsTable s.ram 3 T (addr e) := h.not_isTable_leaf hmem
  constructor
  case own =>
    -- the claim of the entry turns from a shared one into a sole owner's
    have hclm : (addr e, false) ∈ holds s.ram 3 T :=
      Multiset.mem_map.mpr ⟨_, hmem, by rw [hold, hro]⟩
    obtain ⟨R, hR⟩ := Multiset.exists_cons_of_mem hclm
    rw [← Multiset.singleton_add] at hR
    have hnew := hedit.holds_present htgt htgt'
    rw [hro, isWritable_writablePte] at hnew
    have hR' : holds (s.ram.setEntry pt i (writablePte (addr e) e)) 3 T =
        {(addr e, true)} + R := by
      refine add_right_cancel (b := {(addr e, false)}) ?_
      rw [hnew, hR]
      abel
    rw [hR', add_assoc]
    rw [hR, add_assoc] at h
    exact h.retag fun _ => hone
  case old => exact hpte
  case readOnly => exact hro
  case new => rw [haddr]
  case leaf =>
    intro q hq
    rw [hedit.leaf q hq, if_pos (isPresent_writablePte hpres)]
  case copy => rw [haddr, hedit.keeps _ hnot]
  case keeps => exact fun g _ hg => hedit.keeps g hg
  case root => exact hedit.root
  case linear =>
    intro hlin g
    have hrefs := hedit.refs_present htgt htgt' g
    have hg := hlin g
    simp only at hrefs ⊢
    omega

/-- A shared frame: the page is copied to a new frame `n`, the entry is pointed at the copy, and the
reference that the entry had on the old frame is given back. -/
lemma cowResolved_shared (hro : isWritable e = false) {n : Nat} {s1 : Machine}
    (hall : s.allocFrame = some (n, s1)) :
    ∃ s', ({ s1 with ram := (s1.ram.copyPage (addr e) n).setEntry pt i (writablePte n e) } :
        Machine).decref (addr e) = .ok s' ∧
      CowResolved K exact T va X s s' e (writablePte n e) := by
  obtain ⟨hslot, hpte, htgt⟩ := walk_eq_some hwalk
  have hmem := walk_mem_holds hva hwalk
  rw [he] at hpte htgt hmem
  have hpres : isPresent e = true := by rw [← isSome_target_zero, htgt, Option.isSome_some]
  obtain ⟨hown1, hfr, hram, hgrw⟩ := Machine.allocFrame_of_own h hall
  have hn : n < 2 ^ 40 := hown1.lt_two_pow (hown1.claimed (c := (n, true)) (by simp)).2.2
  have htgt' := target_writablePte hn hpres
  have haddr := addr_writablePte (e := e) hn
  rw [hram]
  -- the copy goes to a fresh frame, so the tables are what they were
  obtain ⟨m1, hm1⟩ : ∃ m1, m1 = s.ram.copyPage (addr e) n := ⟨_, rfl⟩
  have hpage : ∀ g, s.pmm.bitmapTest g = true → m1.page g = s.ram.page g := by
    intro g hg
    rw [hm1, PhysMem.page_copyPage, if_neg]
    rintro rfl
    rw [hg] at hfr
    cases hfr
  have htbs : ∀ u ∈ uses s.ram 3 T, u.isTable → m1.page u.frame = s.ram.page u.frame :=
    fun u hu htab => hpage _ (h.claimed (Multiset.mem_add.mpr
      (.inl (isTable_of_mem hu htab).mem_holds))).1
  have huses : uses m1 3 T = uses s.ram 3 T := uses_congr htbs
  have hagr : ∀ u ∈ uses s.ram 3 T, u.isTable → m1.tables u.frame = s.ram.tables u.frame :=
    fun u hu htab => PhysMem.tables_of_page (htbs u hu htab)
  have hslot1 : slot pageTree m1.tables 3 T (pathOf va) = some (pt, i) :=
    (slot_congr (inUser_pathOf hva) hagr).trans hslot
  have hent : m1.entry pt i = e := by
    rw [← he]
    exact PhysMem.entry_of_page (htbs _ (slot_mem (inUser_pathOf hva) hslot).1 rfl) i
  have honce : TablesOnce m1 T := by
    rintro g ⟨l, hl⟩
    rw [huses] at hl ⊢
    exact h.tablesOnce g ⟨l, hl⟩
  have hedit := LeafEdit.of_setEntry (writablePte n e) (inUser_pathOf hva) hslot1 honce
  rw [hent] at hedit
  obtain ⟨m2, hm2⟩ : ∃ m2, m2 = m1.setEntry pt i (writablePte n e) := ⟨_, rfl⟩
  rw [← hm2] at hedit
  have hhol : holds m2 3 T + {(addr e, false)} = holds s.ram 3 T + {(n, true)} := by
    have hnew := hedit.holds_present htgt htgt'
    rwa [hro, isWritable_writablePte, holds, holds, huses] at hnew
  -- the old frame loses the reference of this entry
  obtain ⟨p2, hp2, hown2⟩ := Machine.decref_of_own (s := { s1 with ram := m2 })
    (f := addr e) (b := false) (A := holds m2 3 T + X) (by
      convert hown1 using 1
      rw [← add_assoc, add_comm _ (holds m2 3 T), hhol]
      abel)
  rw [← hm1, ← hm2]
  refine ⟨_, hp2, ?_⟩
  have hnot : ∀ g, s.pmm.bitmapTest g = true → ¬ IsTable s.ram 3 T g →
    m2.page g = s.ram.page g := by
    intro g hg htab
    rw [hedit.keeps g, hpage g hg]
    rintro ⟨l, hl⟩
    exact htab ⟨l, huses ▸ hl⟩
  have hnTable : ¬ IsTable m1 3 T n := by
    rintro ⟨l, hl⟩
    rw [huses] at hl
    have hbit := (h.claimed (Multiset.mem_add.mpr (.inl (IsTable.mem_holds ⟨l, hl⟩)))).1
    rw [hfr] at hbit
    cases hbit
  constructor
  case own => exact hown2
  case old => exact hpte
  case readOnly => exact hro
  case new => rw [haddr]
  case leaf =>
    intro q hq
    rw [hedit.leaf q hq, if_pos (isPresent_writablePte hpres)]
    have hkeep : pteAt m1 3 T q = pteAt s.ram 3 T q := leafAt_congr hq hagr
    rw [hkeep]
  case copy =>
    rw [haddr]
    rw [hedit.keeps n hnTable, hm1, PhysMem.page_copyPage, if_pos rfl]
  case keeps => exact hnot
  case root =>
    intro j
    refine (hedit.root j).trans (PhysMem.entry_of_page ?_ j)
    exact htbs _ (table_mem_visit pageTree s.ram.tables 3 T) rfl
  case linear =>
    intro hlin g
    have hrefs := hedit.refs_present htgt htgt' g
    have hn0 : refs n (uses s.ram 3 T) = 0 := by
      rw [← claims_holds]
      have hrest := hown1.ledger.claims_rest
      rw [claims_add] at hrest
      omega
    have hg := hlin g
    rw [huses] at hrefs
    show refs g (uses m2 3 T) ≤ 1
    by_cases hng : n = g
    · subst hng
      rw [if_pos rfl] at hrefs
      omega
    · rw [if_neg hng] at hrefs
      omega

end

/-- The handler declines only if no read-only page is there or no frame is left. -/
lemma handleCowFault_spec (h : Own K exact s.pmm (holds s.ram 3 T + X))
    (hva : va < USER_SPACE_END) :
    (handleCowFault s T va = .ok (false, s) ∧
        ∀ e, pteAt s.ram 3 T (pathOf va) = some e → isWritable e = false → s.allocFrame = none) ∨
      ∃ s' e e', handleCowFault s T va = .ok (true, s') ∧ CowResolved K exact T va X s s' e e' := by
  cases hwalk : walkPageTableToPte s.ram T va with
  | none =>
    refine .inl ⟨by simp only [handleCowFault, hwalk], fun e he => ?_⟩
    rw [walk_eq_none hwalk] at he
    simp at he
  | some c =>
    obtain ⟨pt, i⟩ := c
    obtain ⟨e, he⟩ : ∃ e, s.ram.entry pt i = e := ⟨_, rfl⟩
    have hmem := walk_mem_holds hva hwalk
    obtain ⟨-, hpte, -⟩ := walk_eq_some hwalk
    rw [he] at hmem hpte
    have hclm : (addr e, isWritable e) ∈ holds s.ram 3 T + X :=
      Multiset.mem_add.mpr (.inl (Multiset.mem_map.mpr ⟨_, hmem, rfl⟩))
    have hlt : addr e < s.pmm.totalFrames := (h.claimed hclm).2.2
    have hpos : 0 < s.pmm.refcount (addr e) := h.ledger.pos hclm
    have hrc : s.pmm.getRefcount (addr e) = .ok (s.pmm.refcount (addr e)) := by
      rw [Pmm.getRefcount, if_neg (not_not_intro hlt)]
    simp only [handleCowFault, hwalk, he, hrc, isWritable_flags]
    by_cases hshared : 1 < s.pmm.refcount (addr e)
    · -- a writable entry would be the only reference
      have hro : isWritable e = false := by
        by_contra hw
        have hone := h.ledger.sole _ hclm (by simpa using hw)
        simp only at hone
        omega
      rw [if_pos hshared]
      cases hall : s.allocFrame with
      | none => exact .inl ⟨rfl, fun _ _ _ => rfl⟩
      | some r =>
        obtain ⟨s', hs', hres⟩ := cowResolved_shared h hva hwalk he hro hall
        refine .inr ⟨s', e, _, ?_, hres⟩
        simp only [writablePte] at hs'
        simp only [hs']
    rw [if_neg hshared]
    cases hw : isWritable e with
    | false =>
      refine .inr ⟨_, e, _, ?_, cowResolved_sole h hva hwalk he (by omega) hw⟩
      rw [setFlags_eq]
      rfl
    | true =>
      refine .inl ⟨by rw [if_neg (by simp)], fun e' he' hro => ?_⟩
      obtain rfl : e = e' := Option.some.inj (hpte.symm.trans he')
      rw [hw] at hro
      cases hro

end Indominus.Memory
