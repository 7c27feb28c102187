import Indominus.Lib.RadixNodes
import Indominus.Memory.Balance
import Indominus.Memory.ReferenceMapper

/-! # When mapping fails -/

namespace Indominus.Memory

open Lib Lib.Radix Lib.Budget Finset

/-! ## Frames that are left -/

namespace Pmm

variable {p p' : Pmm} {f : Nat}

@[simp] lemma mem_available {g : Nat} :
    g ∈ p.available ↔ (0 < g ∧ g < p.totalFrames) ∧ p.bitmapTest g = false := by
  rw [available, mem_filter, mem_Ico, Nat.succ_le_iff]

lemma available_of_allocFrame (h : p.allocFrame = some (f, p')) :
    p'.available = p.available.erase f := by
  obtain ⟨-, -, -, -, rfl⟩ := allocFrame_eq_some h
  ext g
  simp only [mem_erase, mem_available, claim_totalFrames, claim_bitmapTest, Bool.or_eq_false_iff,
    decide_eq_false_iff_not]
  tauto

lemma mem_available_of_allocFrame (h : p.allocFrame = some (f, p')) : f ∈ p.available := by
  obtain ⟨hpos, hlt, hfree, -⟩ := allocFrame_eq_some h
  exact mem_available.mpr ⟨⟨hpos, hlt⟩, hfree⟩

lemma le_of_allocFrame {g : Nat} (h : p.allocFrame = some (f, p'))
    (hg : g ∈ p.available) : f ≤ g := by
  obtain ⟨-, -, -, hbel, -⟩ := allocFrame_eq_some h
  obtain ⟨⟨hpos, -⟩, hfree⟩ := mem_available.mp hg
  by_contra hlt
  rw [hbel g hpos (not_le.mp hlt)] at hfree
  cases hfree

/-- How many frames `alloc_frame` can still hand out. -/
def framesLeft (p : Pmm) : Nat := p.available.card

lemma framesLeft_of_allocFrame (h : p.allocFrame = some (f, p')) :
    p'.framesLeft + 1 = p.framesLeft := by
  rw [framesLeft, available_of_allocFrame h]
  exact card_erase_add_one (mem_available_of_allocFrame h)

lemma allocFrame_eq_none_iff : p.allocFrame = none ↔ p.framesLeft = 0 := by
  rw [framesLeft, available, card_eq_zero, filter_eq_empty_iff]
  constructor
  · intro h f hf
    rw [allocFrame, Option.map_eq_none_iff] at h
    obtain ⟨hpos, hlt⟩ := mem_Ico.mp hf
    have hset : p.bitmap.testBit f = true := scan_eq_none h f hpos (by omega)
    rw [bitmapTest, hset]
    exact Bool.noConfusion
  intro h
  cases hall : p.allocFrame with
  | none => rfl
  | some r =>
    obtain ⟨hpos, hlt, hfree, -⟩ := allocFrame_eq_some hall
    exact absurd hfree (h (mem_Ico.mpr ⟨hpos, hlt⟩))

end Pmm

lemma Allocates.framesLeft {p p' : Pmm} {l : List Nat} (h : Allocates p l p') :
    p'.framesLeft + l.length = p.framesLeft := by
  induction h with
  | nil => rfl
  | cons hall _ ih =>
    have hstep := Pmm.framesLeft_of_allocFrame hall
    rw [List.length_cons]
    omega

lemma Allocates.lowest {p p' : Pmm} {l : List Nat} (h : Allocates p l p') :
    (∀ g, g ∈ p.available ↔ g ∈ l ∨ g ∈ p'.available) ∧ ∀ f ∈ l, ∀ g ∈ p'.available, f < g := by
  induction h with
  | nil => exact ⟨fun g => by simp, by simp⟩
  | @cons p p1 p2 f l hall _ ih =>
    obtain ⟨hspl, hbel⟩ := ih
    have hmem : ∀ g, g ∈ p1.available ↔ g ≠ f ∧ g ∈ p.available := by
      intro g
      rw [Pmm.available_of_allocFrame hall, mem_erase]
    have hf := Pmm.mem_available_of_allocFrame hall
    constructor
    · intro g
      rw [List.mem_cons, or_assoc, ← hspl, hmem]
      by_cases heq : g = f
      · simp [heq, hf]
      · simp [heq]
    intro g hg g' hg'
    rcases List.mem_cons.mp hg with rfl | hg
    · obtain ⟨hne, hin⟩ := (hmem g').mp ((hspl g').mpr (.inr hg'))
      exact lt_of_le_of_ne (Pmm.le_of_allocFrame hall hin) hne.symm
    · exact hbel g hg g' hg'

/-! ## Adding a path -/

/-- Which tables and pages of the address space exist. -/
def hasNode (m : PhysMem) (T : Nat) : List Nat → Bool := nodeAt pageTree m.tables 3 T

/-- Every entry of the user half is unused or leads somewhere. -/
def TidyTables (m : PhysMem) (k t : Nat) : Prop := Tidy pageTree m.tables 0 k t

/-- The nodes of a path below the table `t` have been added. -/
structure PathAdded (k : Nat) (s s' : Machine) (t : Nat) (path : List Nat) : Prop where
  tidy : TidyTables s'.ram k t
  nodes : ∀ q, InSpanPrefix pageTree k q →
    nodeAt pageTree s'.ram.tables k t q = grown (nodeAt pageTree s.ram.tables k t) path q
  units : s'.pmm.framesLeft + missing (nodeAt pageTree s.ram.tables k t) path = s.pmm.framesLeft

/-- The documented mapper with its errors: `map_to` succeeds if the page is free and the frames
suffice, `unmap` if the page is mapped. -/
structure Mapper.Exact (M : Mapper) : Prop extends M.Documented where
  maps : ∀ {s : Machine} {T va frame : Nat} {flags : Word}, va < USER_SPACE_END → Hierarchy 3 s T →
    TidyTables s.ram 3 T → frame < 2 ^ 40 → Pte.IsFlags flags → Pte.isPresent flags = true →
    hasNode s.ram T (pathOf va) = false → missing (hasNode s.ram T) (pathOf va) ≤ s.pmm.framesLeft →
      ∃ s', M.mapTo s T va frame flags = .ok s'
  adds : ∀ {s s' : Machine} {T va frame : Nat} {flags : Word}, va < USER_SPACE_END →
    Hierarchy 3 s T →
    TidyTables s.ram 3 T → frame < 2 ^ 40 → Pte.IsFlags flags → Pte.isPresent flags = true →
    M.mapTo s T va frame flags = .ok s' → PathAdded 3 s s' T (pathOf va)
  unmaps : ∀ {m : PhysMem} {T va : Nat} {e : Word}, va < USER_SPACE_END →
    pteAt m 3 T (pathOf va) = some e →
    ∃ frame m', M.unmap m T va = some (frame, m')

/-! ## The reference mapper -/

variable {s s1 s2 : Machine} {k t i c : Nat} {N N' : List (Nat × Nat)} {e : Word} {path : List Nat}

/-- The next table on the way, and its frame if it is new. -/
structure NextNode (k : Nat) (s s1 : Machine) (t i c : Nat) : Prop where
  tidy : TidyTables s1.ram k c
  nodes : ∀ q, q ≠ [] → InSpanPrefix pageTree k q →
    nodeAt pageTree s1.ram.tables k c q = nodeAt pageTree s.ram.tables (k + 1) t (i :: q)
  units : s1.pmm.framesLeft + (if nodeAt pageTree s.ram.tables (k + 1) t [i] then 0 else 1) =
    s.pmm.framesLeft

lemma NextNode.missing_eq (h : NextNode k s s1 t i c) (hpath : InUser k path) :
    missing (nodeAt pageTree s.ram.tables (k + 1) t) (i :: path) =
      (if nodeAt pageTree s.ram.tables (k + 1) t [i] then 0 else 1) +
        missing (nodeAt pageTree s1.ram.tables k c) path := by
  have hne : path ≠ [] := by
    rintro rfl
    cases k <;> exact hpath.elim
  rw [missing_cons hne]
  congr 1
  exact missing_congr fun q hq hqne => (h.nodes q hqne (hpath.of_initial hq)).symm

lemma PathAdded.cons (hn : NextNode k s s1 t i c) (hm : PathAdded k s1 s2 c path)
    (hpath : InUser k path) (htidy : TidyTables s.ram (k + 1) t)
    (hsame : SameExcept pageTree s.ram.tables s2.ram.tables (k + 1) t i)
    (htgt : Pte.target (k + 1) (s2.ram.entry t i) = some c) :
    PathAdded (k + 1) s s2 t (i :: path) := by
  constructor
  case tidy => exact hsame.tidy htidy htgt hm.tidy
  case nodes =>
    intro q hq
    cases q with
    | nil => simp [grown]
    | cons j q =>
      by_cases hj : j = i
      · subst hj
        have hlink : nodeAt pageTree s2.ram.tables (k + 1) t (j :: q) =
          nodeAt pageTree s2.ram.tables k c q :=
          nodeAt_cons htgt
        have hq' := (inSpanPrefix_cons.mp hq).2
        rw [hlink, hm.nodes q hq', grown, grown, List.isPrefixOf_cons_cons, beq_self_eq_true,
          Bool.true_and]
        by_cases hnil : q = []
        · subst hnil
          simp
        · rw [hn.nodes q hnil hq']
      · have hbeq : (j == i) = false := by simpa using hj
        rw [hsame.nodeAt hj hq, grown, List.isPrefixOf_cons_cons, hbeq, Bool.false_and,
          Bool.or_false]
  case units =>
    have hm' := hm.units
    have hn' := hn.units
    rw [hn.missing_eq hpath]
    omega

lemma nextNode_new (h : Hierarchy (k + 1) s t) (hzero : s.ram.entry t i = 0) {p : Pmm} (w : Word)
    (hall : s.pmm.allocFrame = some (c, p)) :
    NextNode k s ⟨p, (s.ram.zeroPage c).setEntry t i w⟩ t i c := by
  obtain ⟨-, -, hfree, -⟩ := Pmm.allocFrame_eq_some hall
  have hct : t ≠ c := by
    rintro rfl
    rw [h.allocated t (isTable_self _ _ _)] at hfree
    cases hfree
  obtain ⟨m, hm⟩ : ∃ m, m = (s.ram.zeroPage c).setEntry t i w := ⟨_, rfl⟩
  rw [← hm]
  have hemp : ∀ j, m.tables c j = 0 := by
    intro j
    show m.entry c j = 0
    rw [hm, PhysMem.entry_setEntry, if_neg fun hh => hct hh.1.symm, PhysMem.entry_zeroPage_self]
  have hnone : pageTree.target (k + 1) (s.ram.tables t i) = none := by
    show Pte.target (k + 1) (s.ram.entry t i) = none
    rw [hzero, Pte.target_zero]
  constructor
  case tidy => exact tidy_of_unused (fun j _ => hemp j) Pte.target_zero
  case nodes =>
    intro q hq _
    cases q with
    | nil => exact absurd rfl hq
    | cons j q =>
      have hleaf : pageTree.target k (m.tables c j) = none := by
        rw [hemp]
        exact Pte.target_zero k
      rw [nodeAt_of_target_none hleaf, nodeAt_of_target_none hnone]
  case units =>
    rw [nodeAt_of_target_none hnone]
    exact Pmm.framesLeft_of_allocFrame hall

lemma nextNode_old (h : Hierarchy (k + 1) s t) (htidy : TidyTables s.ram (k + 1) t)
    (hi : i < entryCount (k + 1)) (hc : Pte.target (k + 1) (s.ram.entry t i) = some c) (w : Word) :
    NextNode k s { s with ram := s.ram.setEntry t i w } t i c := by
  have hspan : i ∈ pageTree.span (k + 1) := mem_range.mpr hi
  have hroot := refs_root_below (h.once t (isTable_self _ _ _)) hspan
  rw [below_of_target (show pageTree.target (k + 1) (s.ram.tables t i) = some c from hc)] at hroot
  have hagr : ∀ u ∈ uses s.ram k c, u.isTable = true →
      (s.ram.setEntry t i w).tables u.frame = s.ram.tables u.frame := fun u hu _ =>
    PhysMem.tables_of_page (PhysMem.page_setEntry_of_ne (refs_eq_zero.mp hroot u hu))
  have hlink : ∀ q, nodeAt pageTree s.ram.tables (k + 1) t (i :: q) =
    nodeAt pageTree s.ram.tables k c q :=
    fun q => nodeAt_cons hc
  constructor
  case tidy => exact tidy_congr hagr ((htidy i hspan).2 c hc)
  case nodes => exact fun q _ hq => (nodeAt_congr hq hagr).trans (hlink q).symm
  case units =>
    rw [hlink, nodeAt_nil]
    rfl

/-- The step to the next table fails only if a table is missing and there is no frame for it. -/
lemma createNextTable_outcome (flags : Word) (h : Hierarchy (k + 1) s t)
    (htidy : TidyTables s.ram (k + 1) t) (hi : i < entryCount (k + 1)) :
    (∃ c s1, createNextTable s (k + 1) t i (parentFlags flags) = .ok (c, s1) ∧
      NextNode k s s1 t i c) ∨
      (∃ err, createNextTable s (k + 1) t i (parentFlags flags) = .error err) ∧
        nodeAt pageTree s.ram.tables (k + 1) t [i] = false ∧ s.pmm.framesLeft = 0 := by
  rw [createNextTable]
  cases hc : Pte.target (k + 1) (s.ram.entry t i) with
  | none =>
    have hzero : s.ram.entry t i = 0 := htidy.entry (mem_range.mpr hi) hc
    rw [if_pos hzero, Machine.allocateFrame, Machine.allocFrame]
    cases hall : s.pmm.allocFrame with
    | none => exact .inr ⟨⟨_, rfl⟩, nodeAt_of_target_none hc, Pmm.allocFrame_eq_none_iff.mp hall⟩
    | some r => exact .inl ⟨r.1, _, rfl, nextNode_new h hzero _ hall⟩
  | some c =>
    have hne : s.ram.entry t i ≠ 0 := by
      intro hzero
      rw [hzero] at hc
      cases hc
    rw [if_neg hne]
    exact .inl ⟨c, _, rfl, nextNode_old h htidy hi hc _⟩

section Walk

variable {frame : Nat} {flags : Word} (hflags : Pte.isPresent flags = true)

include hflags

/-- The walk fails only on an occupied leaf or when the frames run out. -/
lemma mapLevel_outcome (hfrm : frame < 2 ^ 40) (hfl : Pte.IsFlags flags) (h : Hierarchy k s t)
    (htidy : TidyTables s.ram k t) (hpath : InUser k path) :
    (∃ s', mapLevel frame flags k t path s = .ok s' ∧ PathAdded k s s' t path) ∨
      (∃ err, mapLevel frame flags k t path s = .error err) ∧
        ¬ (nodeAt pageTree s.ram.tables k t path = false ∧
        missing (nodeAt pageTree s.ram.tables k t) path ≤ s.pmm.framesLeft) := by
  induction k generalizing s t path with
  | zero =>
    obtain ⟨i, rfl, hi⟩ := hpath.exists_leaf
    rw [mapLevel]
    split_ifs with hzero
    · refine .inl ⟨_, rfl, ?_⟩
      have hw := PhysMem.writes_setEntry (m := s.ram) t i (Pte.setAddr frame flags)
      have hsome : (Pte.target 0 (Pte.setAddr frame flags)).isSome = true := by
        simp [Pte.target, hflags, Pte.addr_setAddr hfrm hfl]
      constructor
      case tidy =>
        intro j hj hne
        by_cases hji : j = i
        · subst hji
          rw [hw.at_cell]
          exact hsome
        · rw [hw.at_row j hji] at hne ⊢
          exact htidy j hj hne
      case nodes =>
        intro q hq
        rcases q with _ | ⟨j, _ | ⟨l, q⟩⟩
        · simp [grown]
        · rw [nodeAt, grown, nodeAt]
          by_cases hji : j = i
          · subst hji
            rw [hw.at_cell]
            simpa using hsome
          · rw [hw.at_row j hji]
            simp [hji]
        · exact hq.elim
      case units => rfl
    · -- in tidy tables only an entry in use is not zero
      refine .inr ⟨⟨_, rfl⟩, fun hfree => hzero (htidy.entry hi ?_)⟩
      exact Option.isNone_iff_eq_none.mp (Option.isSome_eq_false_iff.mp hfree.1)
  | succ k ih =>
    obtain ⟨i, path, rfl, hi, hpath⟩ := hpath.exists_cons
    have hi' := mem_range.mp hi
    have hne : path ≠ [] := by
      rintro rfl
      cases k <;> exact hpath.elim
    rw [mapLevel]
    obtain ⟨c, s1, hnext, hnode⟩ | ⟨⟨err, hnext⟩, hnone, hleft⟩ :=
      createNextTable_outcome flags h htidy hi'
    · obtain ⟨N, hN⟩ := createNextTable_cases h hi' hflags hnext
      rw [hnext]
      obtain ⟨s', hok, hadd⟩ | ⟨herr, hfull⟩ := ih hN.hierarchy hnode.tidy hpath
      · obtain ⟨N', hN'⟩ := mapLevel_spec hfrm hfl hflags hN.hierarchy hpath hok
        obtain ⟨-, hsame, htgt⟩ := hN.around hN'
        exact .inl ⟨s', hok, hadd.cons hnode hpath htidy hsame htgt⟩
      · refine .inr ⟨herr, fun hfree => hfull ⟨?_, ?_⟩⟩
        · rw [hnode.nodes path hne (hpath.of_initial (List.prefix_refl _))]
          exact hfree.1
        · have hroom := hfree.2
          have hun := hnode.units
          rw [hnode.missing_eq hpath] at hroom
          omega
    · rw [hnext]
      refine .inr ⟨⟨err, rfl⟩, fun hfree => ?_⟩
      have hroom := hfree.2
      rw [missing_cons hne, hnone, hleft, if_neg Bool.false_ne_true] at hroom
      omega

end Walk

lemma referenceMapper_exact : referenceMapper.Exact where
  toDocumented := referenceMapper_documented
  maps hva h htidy hfrm hfl hflags hfree hun := by
    obtain ⟨s', hok, -⟩ | ⟨-, hfull⟩ := mapLevel_outcome hflags hfrm hfl h htidy (inUser_pathOf hva)
    · exact ⟨s', hok⟩
    · exact absurd ⟨hfree, hun⟩ hfull
  adds hva h htidy hfrm hfl hflags hok := by
    obtain ⟨s', hok', hadd⟩ | ⟨⟨err, herr⟩, -⟩ :=
      mapLevel_outcome hflags hfrm hfl h htidy (inUser_pathOf hva)
    · cases hok'.symm.trans hok
      exact hadd
    · cases herr.symm.trans hok
  unmaps {m T va e} _ he := by
    show ∃ frame m', referenceUnmap m T va = some (frame, m')
    rw [referenceUnmap]
    cases hwalk : walkPageTableToPte m T va with
    | none =>
      rw [walk_eq_none hwalk] at he
      cases he
    | some c => exact ⟨_, _, rfl⟩

end Indominus.Memory
