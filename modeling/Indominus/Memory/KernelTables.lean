import Indominus.Lib.RadixTables
import Indominus.Memory.ExactMapper

/-!
# Page tables that map themselves

A frame of the kernel's tables is a table and a page, so `Hierarchy` does not hold.
-/

namespace Indominus.Memory

open Lib Lib.Radix List Pte PhysMem

variable {s s' s1 : Machine} {T t c i k : Nat} {q r path : List Nat} {e flags : Word}

def IsIndex (i : Nat) : Prop := i < 512

/-- The table of the PML4 `T` at the beginning of a path. -/
def tableOf (m : PhysMem) (T : Nat) (q : List Nat) : Option Nat := tableAt pageTree m.tables 3 T q

/-- The paths of pages: an index for each of the four levels. -/
structure PagePath (p : List Nat) : Prop where
  indexed : Indexed IsIndex p
  length : p.length = 4

lemma pagePath_pathOf (va : Nat) : PagePath (pathOf va) := by
  refine ⟨fun i hi => ?_, rfl⟩
  have hlt : ∀ n, n % 512 < 512 := fun n => Nat.mod_lt n (by decide)
  simp only [pathOf, pml4Index, pdptIndex, pdIndex, ptIndex, mem_cons, not_mem_nil, or_false] at hi
  rcases hi with rfl | rfl | rfl | rfl <;> exact hlt _

variable {p : List Nat} {m : PhysMem}

lemma PagePath.exists_concat (hp : PagePath p) :
    ∃ q i, p = q ++ [i] ∧ Indexed IsIndex q ∧ IsIndex i ∧ q.length = 3 := by
  have hne : p ≠ [] := by
    rintro rfl
    exact absurd hp.length (by decide)
  refine ⟨p.dropLast, p.getLast hne, (dropLast_append_getLast hne).symm, ?_, ?_, ?_⟩
  · have hinit := dropLast_prefix p
    exact hp.indexed.of_initial hinit
  · exact hp.indexed _ (getLast_mem hne)
  · rw [length_dropLast, hp.length]

lemma pteAt_concat (hlen : q.length = 3) (ht : tableOf m T q = some t) :
    pteAt m 3 T (q ++ [i]) = if isPresent (m.entry t i) then some (m.entry t i) else none := by
  rw [pteAt, leafAt_concat hlen, show tableAt pageTree m.tables 3 T q = some t from ht,
    ← isSome_target_zero]
  rfl

lemma pteAt_of_missing (hp : PagePath p) (hr : r <+: p) (hlen : r.length ≤ 3)
    (hnone : tableOf m T r = none) : pteAt m 3 T p = none := by
  obtain ⟨q, i, rfl, -, -, hq⟩ := hp.exists_concat
  obtain ⟨l, rfl⟩ : r <+: q := prefix_of_prefix_length_le hr (prefix_append q [i]) (by omega)
  rw [pteAt, leafAt_concat hq, tableAt_append,
    show tableAt pageTree m.tables 3 T r = none from hnone]
  rfl

/-- The tables below the PML4 `T`. -/
structure KernelTables (s : Machine) (T : Nat) : Prop where
  separate : Separate pageTree s.ram.tables IsIndex 3 T
  allocated : ∀ q t, Indexed IsIndex q → tableOf s.ram T q = some t → s.pmm.bitmapTest t = true
  links : ∀ q t i, Indexed IsIndex q → IsIndex i → q.length < 3 → tableOf s.ram T q = some t →
    s.ram.entry t i ≠ 0 → (Pte.target (3 - q.length) (s.ram.entry t i)).isSome = true ∧
      (s.ram.entry t i).getLsbD 63 = false
  leaves : ∀ q t i, Indexed IsIndex q → IsIndex i → q.length = 3 → tableOf s.ram T q = some t →
    s.ram.entry t i ≠ 0 → Pte.isPresent (s.ram.entry t i) = true
  size : s.pmm.totalFrames ≤ MAX_FRAMES

/-- Where the tables are that a page needs below the PML4. -/
def parents (path : List Nat) : Finset (List Nat) := {path.take 1, path.take 2, path.take 3}

def missingTables (m : PhysMem) (T : Nat) (path : List Nat) : Finset (List Nat) :=
  (parents path).filter fun r => tableOf m T r = none

/-- The leaf entry `e` has been put at the end of a path, which was empty. -/
structure MappedAt (s s' : Machine) (T : Nat) (path : List Nat) (e : Word) : Prop where
  tables : KernelTables s' T
  empty : pteAt s.ram 3 T path = none
  leaf : ∀ p, PagePath p → pteAt s'.ram 3 T p = if p = path then some e else pteAt s.ram 3 T p
  alloc : ∃ l, Allocates s.pmm l s'.pmm ∧ l.length = (missingTables s.ram T path).card
  nodes : ∀ r, Indexed IsIndex r → (tableOf s'.ram T r = none ↔ tableOf s.ram T r = none ∧
    r ∉ parents path)

/-- The documented behaviour of `map_to` for all addresses. -/
structure Mapper.Everywhere (M : Mapper) : Prop where
  mapTo : ∀ {s s' : Machine} {T va frame : Nat} {flags : Word}, KernelTables s T → frame < 2 ^ 40 →
    Pte.IsFlags flags → Pte.isPresent flags = true → M.mapTo s T va frame flags = .ok s' →
      MappedAt s s' T (pathOf va) (Pte.setAddr frame flags)
  maps : ∀ {s : Machine} {T va frame : Nat} {flags : Word}, KernelTables s T →
    Pte.isPresent flags = true →
    pteAt s.ram 3 T (pathOf va) = none →
      (missingTables s.ram T (pathOf va)).card ≤ s.pmm.framesLeft →
      ∃ s', M.mapTo s T va frame flags = .ok s'

/-! ## Steps of the walk -/

/-- The entry `i` of the table at `q` leads to the table `c`. -/
structure LinkedAt (s s' : Machine) (T : Nat) (q : List Nat) (i c : Nat) : Prop where
  tables : KernelTables s' T
  leaf : ∀ p, PagePath p → pteAt s'.ram 3 T p = pteAt s.ram 3 T p
  nodes : ∀ r, Indexed IsIndex r → tableOf s'.ram T r = if r = q ++ [i] then some c
    else tableOf s.ram T r
  alloc : (s'.pmm = s.pmm ∧ tableOf s.ram T (q ++ [i]) = some c) ∨
    (s.pmm.allocFrame = some (c, s'.pmm) ∧ tableOf s.ram T (q ++ [i]) = none)

namespace KernelTables

lemma getLsbD_parentFlags (flags : Word) : (parentFlags flags).getLsbD 63 = false := by
  have hbit : (Pte.PRESENT ||| Pte.WRITABLE ||| Pte.USER_ACCESSIBLE).getLsbD 63 = false := by decide
  rw [parentFlags, BitVec.getLsbD_and, hbit, Bool.and_false]

lemma getLsbD_newLink (hc : c < 2 ^ 40) : (setAddr c (parentFlags flags)).getLsbD 63 = false := by
  have haddr : (BitVec.ofNat 64 c <<< 12).getLsbD 63 = false := by
    have hbit : c.testBit 51 = false := Nat.testBit_lt_two_pow (hc.trans (by decide))
    rw [BitVec.getLsbD_shiftLeft, BitVec.getLsbD_ofNat, hbit]
    rfl
  rw [setAddr, BitVec.getLsbD_or, haddr, getLsbD_parentFlags]
  rfl

lemma target_of_tableOf (hlen : q.length < 3) (ht : tableOf s.ram T q = some t) :
    tableOf s.ram T (q ++ [i]) = target (3 - q.length) (s.ram.entry t i) :=
  tableAt_concat hlen ht

lemma of_cell (h : KernelTables s T) (hsep : Separate pageTree s'.ram.tables IsIndex 3 T)
    (hbits : ∀ f, s.pmm.bitmapTest f = true → s'.pmm.bitmapTest f = true)
    (hsize : s'.pmm.totalFrames = s.pmm.totalFrames) (ht : tableOf s'.ram T q = some t)
    (he : s'.ram.entry t i = e)
    (hlink : q.length < 3 → (target (3 - q.length) e).isSome = true ∧ e.getLsbD 63 = false)
    (hleaf : q.length = 3 → isPresent e = true)
    (hns : ∀ r t', Indexed IsIndex r → tableOf s'.ram T r = some t' →
      (tableOf s.ram T r = some t' ∧ ∀ j, r ++ [j] ≠ q ++ [i] →
      s'.ram.entry t' j = s.ram.entry t' j) ∨
        (s'.pmm.bitmapTest t' = true ∧ ∀ j, s'.ram.entry t' j = 0)) : KernelTables s' T := by
  have hself : ∀ r t' j, tableOf s'.ram T r = some t' → r ++ [j] = q ++ [i] → r = q ∧
    s'.ram.entry t' j = e := by
    intro r t' j ht' heq
    obtain ⟨rfl, hj⟩ := append_inj' heq rfl
    obtain rfl : j = i := by simpa using hj
    cases ht'.symm.trans ht
    exact ⟨rfl, he⟩
  refine ⟨hsep, fun r t' hr ht' => ?_, fun r t' j hr hj hlen ht' hne => ?_,
    fun r t' j hr hj hlen ht' hne => ?_, ?_⟩
  · rcases hns r t' hr ht' with ⟨hold, -⟩ | ⟨hbit, -⟩
    · exact hbits _ (h.allocated r t' hr hold)
    · exact hbit
  · rcases hns r t' hr ht' with ⟨hold, hcells⟩ | ⟨-, hzero⟩
    · by_cases heq : r ++ [j] = q ++ [i]
      · obtain ⟨rfl, hcell⟩ := hself r t' j ht' heq
        rw [hcell]
        exact hlink hlen
      · rw [hcells j heq] at hne ⊢
        exact h.links r t' j hr hj hlen hold hne
    · exact absurd (hzero j) hne
  · rcases hns r t' hr ht' with ⟨hold, hcells⟩ | ⟨-, hzero⟩
    · by_cases heq : r ++ [j] = q ++ [i]
      · obtain ⟨rfl, hcell⟩ := hself r t' j ht' heq
        rw [hcell]
        exact hleaf hlen
      · rw [hcells j heq] at hne ⊢
        exact h.leaves r t' j hr hj hlen hold hne
    · exact absurd (hzero j) hne
  · rw [hsize]
    exact h.size

lemma write (h : KernelTables s T) (hq : Indexed IsIndex q) (ht : tableOf s.ram T q = some t)
    (htgt : q.length < 3 → target (3 - q.length) e = target (3 - q.length) (s.ram.entry t i))
    (hlink : q.length < 3 → (target (3 - q.length) e).isSome = true ∧ e.getLsbD 63 = false)
    (hleaf : q.length = 3 → isPresent e = true) :
    KernelTables { s with ram := s.ram.setEntry t i e } T ∧
      ∀ r, Indexed IsIndex r → tableOf (s.ram.setEntry t i e) T r = tableOf s.ram T r := by
  have hw := writes_setEntry (m := s.ram) t i e
  have hns : ∀ r, Indexed IsIndex r →
    tableOf (s.ram.setEntry t i e) T r = tableOf s.ram T r := fun r hr =>
    h.separate.tableAt_relink hw hq ht htgt hr
  refine ⟨h.of_cell (h.separate.of_relink hw hq ht htgt) (fun _ hf => hf) rfl ((hns q hq).trans ht)
    hw.at_cell hlink hleaf fun r t' hr ht' => .inl ?_, hns⟩
  have hold : tableOf s.ram T r = some t' := (hns r hr).symm.trans ht'
  exact ⟨hold, fun j hne => h.separate.cell_eq hw hq ht hr hold hne⟩

lemma of_allocFrame {p : Pmm} (h : KernelTables s T) (hall : s.pmm.allocFrame = some (c, p)) :
    KernelTables ⟨p, s.ram⟩ T := by
  obtain ⟨-, -, -, -, rfl⟩ := Pmm.allocFrame_eq_some hall
  exact ⟨h.separate, fun q t hq ht => by simp [h.allocated q t hq ht], h.links, h.leaves, h.size⟩

lemma of_createEmptyPml4 (hok : createEmptyPml4 s = .ok (T, s'))
    (hsize : s.pmm.totalFrames ≤ MAX_FRAMES) :
    KernelTables s' T ∧ Allocates s.pmm [T] s'.pmm ∧ (∀ q, q ≠ [] → tableOf s'.ram T q = none) ∧
      ∀ p, PagePath p → pteAt s'.ram 3 T p = none := by
  obtain ⟨p, hall, rfl⟩ : ∃ p, s.pmm.allocFrame = some (T, p) ∧ s' = ⟨p, s.ram.zeroPage T⟩ := by
    rw [createEmptyPml4, Machine.allocateFrame, Machine.allocFrame] at hok
    cases hall : s.pmm.allocFrame with
    | none =>
      rw [hall] at hok
      cases hok
    | some o =>
      rw [hall] at hok
      obtain ⟨rfl, rfl⟩ : o.1 = T ∧ _ = s' := Prod.mk.inj (Except.ok.inj hok)
      exact ⟨o.2, rfl, rfl⟩
  have hzero : ∀ i, (s.ram.zeroPage T).entry T i = 0 := fun i => entry_zeroPage_self _ _ i
  have hnone : ∀ q, q ≠ [] → tableOf (s.ram.zeroPage T) T q = none := by
    intro q hq
    obtain ⟨i, q, rfl⟩ := exists_cons_of_ne_nil hq
    have htgt : target 3 ((s.ram.zeroPage T).entry T i) = none := by rw [hzero, target_zero]
    exact tableAt_cons_none htgt
  have hroot : ∀ q t, tableOf (s.ram.zeroPage T) T q = some t → q = [] ∧ t = T := by
    intro q t ht
    by_cases hq : q = []
    · subst hq
      exact ⟨rfl, (Option.some.inj ht).symm⟩
    · rw [hnone q hq] at ht
      cases ht
  refine ⟨⟨?_, ?_, ?_, ?_, ?_⟩, .cons hall (.nil _), hnone, ?_⟩
  · intro q r t _ _ hq hr
    rw [(hroot q t hq).1, (hroot r t hr).1]
  · intro q t _ ht
    obtain ⟨-, rfl⟩ := hroot q t ht
    obtain ⟨-, -, -, -, rfl⟩ := Pmm.allocFrame_eq_some hall
    simp
  · intro q t i _ _ _ ht hne
    obtain ⟨-, rfl⟩ := hroot q t ht
    exact absurd (hzero i) hne
  · intro q t i _ _ _ ht hne
    obtain ⟨-, rfl⟩ := hroot q t ht
    exact absurd (hzero i) hne
  · obtain ⟨-, -, -, -, rfl⟩ := Pmm.allocFrame_eq_some hall
    exact hsize
  intro p hp
  have hlen : (p.take 1).length = 1 := by rw [length_take, hp.length]; rfl
  have hinit := take_prefix 1 p
  refine pteAt_of_missing hp hinit (by omega) (hnone _ fun hnil => ?_)
  rw [hnil] at hlen
  cases hlen

section

variable (h : KernelTables s T) (hq : Indexed IsIndex q)

include h hq

lemma relink (hi : IsIndex i) (hlen : q.length < 3) (ht : tableOf s.ram T q = some t)
    (hc : target (3 - q.length) (s.ram.entry t i) = some c) :
    LinkedAt s { s with ram := s.ram.setEntry t i (s.ram.entry t i ||| parentFlags flags) }
      T q i c := by
  obtain ⟨e, he⟩ : ∃ e, e = s.ram.entry t i ||| parentFlags flags := ⟨_, rfl⟩
  rw [← he]
  have hsome : target (3 - q.length) e = some c := by
    rw [he]
    exact target_or_parentFlags hc
  have hused : s.ram.entry t i ≠ 0 := by
    intro hzero
    rw [hzero] at hc
    cases hc
  have hexec : e.getLsbD 63 = false := by
    rw [he, BitVec.getLsbD_or, (h.links q t i hq hi hlen ht hused).2, getLsbD_parentFlags]
    rfl
  have hold : tableOf s.ram T (q ++ [i]) = some c := (target_of_tableOf hlen ht).trans hc
  obtain ⟨htbs, hns⟩ := h.write (e := e) (i := i) hq ht (fun _ => hsome.trans hc.symm)
    (fun _ => ⟨by rw [hsome]; rfl, hexec⟩) fun heq => absurd heq hlen.ne
  refine ⟨htbs, fun p hp => ?_, fun r hr => ?_, .inl ⟨rfl, hold⟩⟩
  · obtain ⟨r, j, rfl, hr, -, hrlen⟩ := hp.exists_concat
    exact h.separate.relink (writes_setEntry t i e) hq ht hlen (hsome.trans hc.symm) hr hrlen
  rw [hns r hr]
  split_ifs with heq
  · rw [heq, hold]
  · rfl

lemma link (hlen : q.length < 3) (ht : tableOf s.ram T q = some t) (hzero : s.ram.entry t i = 0)
    (hflags : isPresent flags = true) {p : Pmm} (hall : s.pmm.allocFrame = some (c, p)) :
    LinkedAt s ⟨p, (s.ram.zeroPage c).setEntry t i (setAddr c (parentFlags flags))⟩ T q i c := by
  obtain ⟨hpos, hlt, hfree, -, rfl⟩ := Pmm.allocFrame_eq_some hall
  obtain ⟨e, he⟩ : ∃ e, e = setAddr c (parentFlags flags) := ⟨_, rfl⟩
  rw [← he]
  have hsize : c < 2 ^ 40 := by
    have hmax := h.size
    unfold MAX_FRAMES at hmax
    omega
  have hsome : target (3 - q.length) e = some c := by
    rw [he]
    exact target_newLink hsize hflags
  have hexec : e.getLsbD 63 = false := by
    rw [he]
    exact getLsbD_newLink hsize
  -- the frame was free, so it is not a table, and clearing it changes none
  have hfr : ∀ r, Indexed IsIndex r → tableOf s.ram T r ≠ some c := by
    intro r hr hc
    rw [h.allocated r c hr hc] at hfree
    cases hfree
  have hagr : ∀ r t', Indexed IsIndex r → tableOf s.ram T r = some t' →
      (s.ram.zeroPage c).tables t' = s.ram.tables t' := by
    intro r t' hr ht'
    refine tables_of_page (page_zeroPage_of_ne ?_)
    rintro rfl
    exact hfr r hr ht'
  have hclrd : ∀ r, Indexed IsIndex r →
    tableOf (s.ram.zeroPage c) T r = tableOf s.ram T r := fun r hr =>
    tableAt_frame hagr hr
  have hsep : Separate pageTree (s.ram.zeroPage c).tables IsIndex 3 T := by
    intro r r' d hr hr' hd hd'
    exact h.separate r r' d hr hr' ((hclrd r hr).symm.trans hd) ((hclrd r' hr').symm.trans hd')
  have htc : t ≠ c := by
    rintro rfl
    exact hfr q hq ht
  have hw := writes_setEntry (m := s.ram.zeroPage c) t i e
  have ht' : tableOf (s.ram.zeroPage c) T q = some t := (hclrd q hq).trans ht
  have hnone : target (3 - q.length) ((s.ram.zeroPage c).entry t i) = none := by
    rw [show (s.ram.zeroPage c).entry t i = s.ram.entry t i from congrFun (hagr q t hq ht) i, hzero,
      target_zero]
  have hemp : ∀ j, ((s.ram.zeroPage c).setEntry t i e).entry c j = 0 := by
    intro j
    rw [entry_setEntry, if_neg fun heq => htc heq.1.symm, entry_zeroPage_self]
  have hclr : ∀ j l, IsIndex j →
    target l (((s.ram.zeroPage c).setEntry t i e).tables c j) = none := by
    intro j l _
    exact (congrArg (target l) (hemp j)).trans (target_zero l)
  have hns : ∀ r, Indexed IsIndex r → tableOf ((s.ram.zeroPage c).setEntry t i e) T r =
      if r = q ++ [i] then some c else tableOf s.ram T r := by
    intro r hr
    rw [← hclrd r hr]
    exact hsep.tableAt_link hw hq ht' hlen hnone hsome hclr hr
  have hlng : q ≠ q ++ [i] := fun heq => by simpa using congrArg length heq
  constructor
  case tables =>
    refine h.of_cell (e := e) (q := q) (t := t) (i := i)
      (hsep.of_link hw hq ht' hlen hnone hsome hclr ?_) ?_ rfl ?_ hw.at_cell
      (fun _ => ⟨by rw [hsome]; rfl, hexec⟩) (fun heq => absurd heq hlen.ne) fun r t' hr hrt => ?_
    · intro r hr
      exact fun hrc => hfr r hr ((hclrd r hr).symm.trans hrc)
    · intro f hf
      simp [hf]
    · exact (hns q hq).trans ((if_neg hlng).trans ht)
    have hr' := hns r hr
    rw [hrt] at hr'
    split_ifs at hr' with heq
    · cases hr'
      exact .inr ⟨by simp, hemp⟩
    refine .inl ⟨hr'.symm, fun j hne => ?_⟩
    have hcell := hsep.cell_eq hw hq ht' hr ((hclrd r hr).trans hr'.symm) hne
    exact hcell.trans (congrFun (hagr r t' hr hr'.symm) j)
  case leaf =>
    intro p hp
    obtain ⟨r, j, rfl, hr, hj, hrlen⟩ := hp.exists_concat
    have hstep := hsep.link hw hq ht' hlen hnone hsome hclr hr hj hrlen
    exact hstep.trans (leafAt_frame hagr hp.indexed hrlen)
  case nodes => exact hns
  case alloc =>
    refine .inr ⟨hall, ?_⟩
    rw [target_of_tableOf hlen ht, hzero, target_zero]

lemma put (hlen : q.length = 3) (ht : tableOf s.ram T q = some t) (hpres : isPresent e = true) :
    KernelTables { s with ram := s.ram.setEntry t i e } T ∧
      (∀ r, Indexed IsIndex r → tableOf (s.ram.setEntry t i e) T r = tableOf s.ram T r) ∧
      ∀ p, PagePath p → pteAt (s.ram.setEntry t i e) 3 T p = if p = q ++ [i] then some e
      else pteAt s.ram 3 T p := by
  obtain ⟨htbs, hns⟩ := h.write (e := e) (i := i) hq ht (fun hlt => absurd hlen hlt.ne)
    (fun hlt => absurd hlen hlt.ne) fun _ => hpres
  refine ⟨htbs, hns, fun p hp => ?_⟩
  obtain ⟨r, j, rfl, hr, -, hrlen⟩ := hp.exists_concat
  have hsome : (target 0 e).isSome = true := (isSome_target_zero e).trans hpres
  have hput := h.separate.put (writes_setEntry t i e) hq ht hlen hr hrlen (j := j)
  rw [show pteAt (s.ram.setEntry t i e) 3 T (r ++ [j]) = _ from hput]
  rw [if_pos (show (pageTree.target 0 e).isSome = true from hsome)]

lemma linked (hi : IsIndex i) (hlen : q.length < 3) (ht : tableOf s.ram T q = some t)
    (hflags : isPresent flags = true)
    (hok : createNextTable s (3 - q.length) t i (parentFlags flags) = .ok (c, s1)) :
    LinkedAt s s1 T q i c := by
  rcases createNextTable_eq_ok hok with ⟨p, hzero, hall, rfl⟩ | ⟨-, hc, rfl⟩
  · exact h.link hq hlen ht hzero hflags hall
  · exact h.relink hq hi hlen ht hc

end

end KernelTables

/-! ## The whole walk -/

lemma tableOf_of_initial (hr : r <+: q) (hq : tableOf m T q = some t) : tableOf m T r ≠ none := by
  obtain ⟨p, rfl⟩ := hr
  intro hnone
  rw [tableOf, tableAt_append, show tableAt pageTree m.tables 3 T r = none from hnone] at hq
  cases hq

lemma exists_last (hp : PagePath (q ++ path)) (hlen : q.length + 0 = 3) : ∃ i, path = [i] := by
  have htot := hp.length
  rw [length_append] at htot
  exact length_eq_one_iff.mp (by omega)

lemma exists_next (hp : PagePath (q ++ path)) (hlen : q.length + (k + 1) = 3) :
    ∃ i path', path = i :: path' ∧ q ++ [i] ∈ parents (q ++ i :: path') := by
  have htot := hp.length
  rw [length_append] at htot
  obtain ⟨i, path', rfl⟩ := exists_cons_of_length_pos (show 0 < path.length by omega)
  have htake : (q ++ i :: path').take (q.length + 1) = q ++ [i] := by
    rw [take_length_add_append]
    rfl
  refine ⟨i, path', rfl, ?_⟩
  rw [← htake]
  simp only [parents, Finset.mem_insert, Finset.mem_singleton]
  obtain hl | hl | hl : q.length = 0 ∨ q.length = 1 ∨ q.length = 2 := by omega
  · exact .inl (by rw [hl])
  · exact .inr (.inl (by rw [hl]))
  · exact .inr (.inr (by rw [hl]))

lemma LinkedAt.missing (hl : LinkedAt s s1 T q i c) (hp : PagePath path)
    (hmem : q ++ [i] ∈ parents path) :
    (s1.pmm = s.pmm ∧ missingTables s.ram T path = missingTables s1.ram T path) ∨
      (s.pmm.allocFrame = some (c, s1.pmm) ∧
        (missingTables s.ram T path).card = (missingTables s1.ram T path).card + 1) := by
  have hnode : ∀ r ∈ parents path, tableOf s1.ram T r = if r = q ++ [i] then some c
    else tableOf s.ram T r := by
    intro r hr
    refine hl.nodes r (hp.indexed.of_initial ?_)
    simp only [parents, Finset.mem_insert, Finset.mem_singleton] at hr
    rcases hr with rfl | rfl | rfl <;> exact take_prefix _ _
  rcases hl.alloc with ⟨hpmm, hc⟩ | ⟨hall, hnone⟩
  · refine .inl ⟨hpmm, Finset.filter_congr fun r hr => ?_⟩
    suffices heq : tableOf s1.ram T r = tableOf s.ram T r by rw [heq]
    rw [hnode r hr]
    split_ifs with heq
    · rw [heq, hc]
    · rfl
  have hins : missingTables s.ram T path = insert (q ++ [i]) (missingTables s1.ram T path) := by
    ext r
    simp only [missingTables, Finset.mem_insert, Finset.mem_filter]
    by_cases heq : r = q ++ [i]
    · subst heq
      exact iff_of_true ⟨hmem, hnone⟩ (.inl rfl)
    refine ⟨fun hr => .inr ⟨hr.1, ?_⟩, fun hr => ?_⟩
    · rw [hnode r hr.1, if_neg heq]
      exact hr.2
    have hr := hr.resolve_left heq
    rw [hnode r hr.1, if_neg heq] at hr
    exact hr
  have hnot : q ++ [i] ∉ missingTables s1.ram T path := by
    intro hin
    have hnone' := (Finset.mem_filter.mp hin).2
    rw [hnode _ hmem, if_pos rfl] at hnone'
    cases hnone'
  refine .inr ⟨hall, ?_⟩
  rw [hins, Finset.card_insert_of_notMem hnot]

lemma LinkedAt.mappedAt (hl : LinkedAt s s1 T q i c) (hp : PagePath path)
    (hmem : q ++ [i] ∈ parents path) (hm : MappedAt s1 s' T path e) : MappedAt s s' T path e := by
  constructor
  case tables => exact hm.tables
  case empty =>
    rw [← hl.leaf _ hp]
    exact hm.empty
  case leaf =>
    intro p hp'
    rw [hm.leaf p hp', hl.leaf p hp']
  case alloc =>
    obtain ⟨l, hal, hlen⟩ := hm.alloc
    rcases hl.missing hp hmem with ⟨hpmm, heq⟩ | ⟨hall, hcard⟩
    · exact ⟨l, hpmm ▸ hal, by rw [hlen, heq]⟩
    · exact ⟨c :: l, .cons hall hal, by rw [length_cons, hlen, hcard]⟩
  case nodes =>
    intro r hr
    rw [hm.nodes r hr, hl.nodes r hr]
    split_ifs with heq
    · rw [heq]
      exact iff_of_false And.left fun hnot => hnot.2 hmem
    · rfl

section Walk

variable {frame : Nat} (hflags : Pte.isPresent flags = true)

include hflags

/-- The walk down, one induction step for each level. -/
lemma mapLevel_tables (h : KernelTables s T) (hp : PagePath (q ++ path)) (hlen : q.length + k = 3)
    (ht : tableOf s.ram T q = some t) :
    (∃ s', mapLevel frame flags k t path s = .ok s' ∧
      MappedAt s s' T (q ++ path) (setAddr frame flags)) ∨
      (∃ err, mapLevel frame flags k t path s = .error err) ∧
        ¬ (pteAt s.ram 3 T (q ++ path) = none ∧
        (missingTables s.ram T (q ++ path)).card ≤ s.pmm.framesLeft) := by
  induction k generalizing s t q path with
  | zero =>
    obtain ⟨i, rfl⟩ := exists_last hp hlen
    obtain ⟨hq, hi⟩ := indexed_concat.mp hp.indexed
    rw [mapLevel]
    split_ifs with hzero
    · obtain ⟨htbs, hns, hleaf⟩ :=
        h.put (e := setAddr frame flags) hq hlen ht (by rw [isPresent_setAddr, hflags])
      have hthere : ∀ r ∈ parents (q ++ [i]), tableOf s.ram T r ≠ none := by
        intro r hr
        refine tableOf_of_initial ?_ ht
        have htake : ∀ n ≤ 3, (q ++ [i]).take n <+: q := by
          intro n hn
          rw [take_append_of_le_length (by omega)]
          exact take_prefix _ _
        simp only [parents, Finset.mem_insert, Finset.mem_singleton] at hr
        rcases hr with rfl | rfl | rfl <;> exact htake _ (by decide)
      refine .inl ⟨_, rfl, htbs, ?_, hleaf, ⟨[], .nil _, ?_⟩, fun r hr => ?_⟩
      · rw [pteAt_concat hlen ht, hzero]
        rfl
      · rw [missingTables, Finset.filter_false_of_mem hthere]
        rfl
      · rw [hns r hr]
        exact ⟨fun hnone => ⟨hnone, fun hmem => hthere r hmem hnone⟩, And.left⟩
    · refine .inr ⟨⟨_, rfl⟩, fun hfree => ?_⟩
      rw [pteAt_concat hlen ht, if_pos (h.leaves q t i hq hi hlen ht hzero)] at hfree
      cases hfree.1
  | succ k ih =>
    obtain ⟨i, path, rfl, hmem⟩ := exists_next hp hlen
    have hq : Indexed IsIndex q := hp.indexed.of_initial (prefix_append _ _)
    have hi : IsIndex i := hp.indexed i (by simp)
    have hlevel : 3 - q.length = k + 1 := by omega
    rw [mapLevel]
    cases hnext : createNextTable s (k + 1) t i (parentFlags flags) with
    | error err =>
      refine .inr ⟨⟨err, rfl⟩, fun hfree => ?_⟩
      rw [createNextTable] at hnext
      split_ifs at hnext with hzero
      · -- the table is missing, and there is no frame for it
        have hnone : tableOf s.ram T (q ++ [i]) = none := by
          rw [KernelTables.target_of_tableOf (by omega) ht, hzero, target_zero]
        have hpos : 0 < (missingTables s.ram T (q ++ i :: path)).card :=
          Finset.card_pos.mpr ⟨_, Finset.mem_filter.mpr ⟨hmem, hnone⟩⟩
        rw [Machine.allocateFrame, Machine.allocFrame] at hnext
        cases hall : s.pmm.allocFrame with
        | none =>
          rw [Pmm.allocFrame_eq_none_iff] at hall
          omega
        | some o =>
          rw [hall] at hnext
          cases hnext
      obtain ⟨c, hc⟩ := Option.isSome_iff_exists.mp (h.links q t i hq hi (by omega) ht hzero).1
      rw [hlevel] at hc
      rw [hc] at hnext
      cases hnext
    | ok o =>
      obtain ⟨c, s1⟩ := o
      have hl : LinkedAt s s1 T q i c :=
        h.linked hq hi (by omega) ht hflags (by rw [hlevel]; exact hnext)
      have hassoc : q ++ i :: path = (q ++ [i]) ++ path := by simp
      have hc : tableOf s1.ram T (q ++ [i]) = some c := by
        rw [hl.nodes _ (indexed_concat.mpr ⟨hq, hi⟩), if_pos rfl]
      have hrest := ih hl.tables (hassoc ▸ hp) (by simp; omega) hc
      rw [← hassoc] at hrest
      obtain ⟨s', hok, hm⟩ | ⟨herr, hfull⟩ := hrest
      · exact .inl ⟨s', hok, hl.mappedAt hp hmem hm⟩
      · refine .inr ⟨herr, fun hfree => hfull ⟨(hl.leaf _ hp).trans hfree.1, ?_⟩⟩
        obtain ⟨hpmm, heq⟩ | ⟨hall, hcard⟩ := hl.missing hp hmem
        · rw [hpmm, ← heq]
          exact hfree.2
        · have := Pmm.framesLeft_of_allocFrame hall
          omega

end Walk

lemma referenceMapper_everywhere : referenceMapper.Everywhere where
  mapTo h _ _ hflags hok := by
    obtain ⟨s', hok', hm⟩ | ⟨⟨err, herr⟩, -⟩ :=
      mapLevel_tables (k := 3) (q := []) hflags h (pagePath_pathOf _) rfl rfl
    · cases hok'.symm.trans hok
      exact hm
    · cases herr.symm.trans hok
  maps h hflags hfree hroom := by
    obtain ⟨s', hok, -⟩ | ⟨-, hfull⟩ :=
      mapLevel_tables (k := 3) (q := []) hflags h (pagePath_pathOf _) rfl rfl
    · exact ⟨s', hok⟩
    · exact absurd ⟨hfree, hroom⟩ hfull

end Indominus.Memory
