import Indominus.Boot.Addressable

/-!
# Taking the right to execute from the identity map (`harden_identity_map`)

The pages of the kernel, which is taken to be 1 MiB long, keep it.
-/

namespace Indominus.Boot

open Lib Lib.Radix Memory List Pte

/-! ## The source -/

/-- The body of the loop over a PT: an entry that does not map the kernel gets `NO_EXECUTE`. -/
def hardenEntry (first last : Nat) (e : Word) : Word :=
  if first ≤ Pte.addr e * PAGE_SIZE ∧ Pte.addr e * PAGE_SIZE < last then e
  else Pte.setFlags e (Pte.flags e ||| Pte.NO_EXECUTE)

def hardenPt (first last : Nat) (m : PhysMem) (pt : Nat) : PhysMem :=
  (List.range 512).foldl (fun m i =>
    if Pte.isPresent (m.entry pt i)
    then m.setEntry pt i (hardenEntry first last (m.entry pt i)) else m) m

/-- The loop over a PD or a PDPT: entries that are not present and huge pages are skipped. -/
def hardenTable (level : Nat) (next : PhysMem → Nat → PhysMem) (m : PhysMem) (t : Nat) : PhysMem :=
  (List.range 512).foldl (fun m i => (Pte.target level (m.entry t i)).elim m (next m)) m

def kernPageStart (kernelPhysStart : Nat) : Nat := kernelPhysStart / PAGE_SIZE * PAGE_SIZE

/-- `kern_page_end`: the kernel is taken to be 1 MiB long. -/
def kernPageEnd (kernelPhysStart : Nat) : Nat :=
  ((kernelPhysStart + 0x100000) % 2 ^ 64 + 0xFFF) % 2 ^ 64 / PAGE_SIZE * PAGE_SIZE

def hardenIdentityMap (kernelPhysStart : Nat) (m : PhysMem) (pml4 : Nat) : PhysMem :=
  let hardenPd :=
    hardenTable 1 (hardenPt (kernPageStart kernelPhysStart) (kernPageEnd kernelPhysStart))
  let hardenPdpt := hardenTable 2 hardenPd
  (Pte.target 3 (m.entry pml4 0)).elim m (hardenPdpt m)

/-! ## Entries -/

variable {s s' s1 : Machine} {T t i : Nat} {q path : List Nat} {e : Word} {g : Word → Word}
  {R R' : List Nat → Prop}

lemma setFlags_noExecute (e : Word) :
    setFlags e (flags e ||| Pte.NO_EXECUTE) = e ||| Pte.NO_EXECUTE := by
  refine BitVec.eq_of_getLsbD_eq fun n _ => ?_
  simp only [setFlags, flags, BitVec.getLsbD_or, BitVec.getLsbD_and, BitVec.getLsbD_not]
  cases e.getLsbD n <;> cases Pte.ADDR_MASK.getLsbD n <;> simp_all

lemma addr_or_noExecute (e : Word) : addr (e ||| Pte.NO_EXECUTE) = addr e := by
  have hmask : (e ||| Pte.NO_EXECUTE) &&& Pte.ADDR_MASK = e &&& Pte.ADDR_MASK := by
    have hzero : Pte.NO_EXECUTE &&& Pte.ADDR_MASK = 0#64 := by decide
    rw [BitVec.and_comm, BitVec.and_or_distrib_left, BitVec.and_comm Pte.ADDR_MASK Pte.NO_EXECUTE,
      hzero, BitVec.or_zero, BitVec.and_comm]
  rw [addr, hmask, addr]

section Entry

variable (a b : Nat)

lemma addr_hardenEntry (e : Word) : addr (hardenEntry a b e) = addr e := by
  rw [hardenEntry]
  split_ifs
  · rfl
  · rw [setFlags_noExecute, addr_or_noExecute]

lemma hardenEntry_hardenEntry (e : Word) :
    hardenEntry a b (hardenEntry a b e) = hardenEntry a b e := by
  by_cases hker : a ≤ addr e * PAGE_SIZE ∧ addr e * PAGE_SIZE < b
  · rw [hardenEntry, addr_hardenEntry, if_pos hker]
  · rw [hardenEntry, addr_hardenEntry, if_neg hker, hardenEntry, if_neg hker, setFlags_noExecute,
      setFlags_noExecute, BitVec.or_assoc, BitVec.or_self]

lemma isPresent_hardenEntry (h : isPresent e = true) : isPresent (hardenEntry a b e) = true := by
  rw [hardenEntry]
  split_ifs
  · exact h
  · rw [setFlags_noExecute, isPresent, BitVec.getLsbD_or, show e.getLsbD 0 = true from h,
      Bool.true_or]

lemma noExecute_hardenEntry (h : e.getLsbD 63 = false) :
    (hardenEntry a b e).getLsbD 63 = false ↔ a ≤ addr e * PAGE_SIZE ∧ addr e * PAGE_SIZE < b := by
  rw [hardenEntry]
  split_ifs with hker
  · exact iff_of_true h hker
  have hbit : Pte.NO_EXECUTE.getLsbD 63 = true := by decide
  refine iff_of_false ?_ hker
  rw [setFlags_noExecute, BitVec.getLsbD_or, hbit, Bool.or_true]
  exact Bool.noConfusion

end Entry

/-! ## The loops -/

/-- The entries of the pages in `R` have been changed by `g`, and nothing else. -/
structure Edited (s s' : Machine) (T : Nat) (R : List Nat → Prop) (g : Word → Word) : Prop where
  tables : KernelTables s' T
  pmm : s'.pmm = s.pmm
  nodes : ∀ r, Indexed IsIndex r → tableOf s'.ram T r = tableOf s.ram T r
  inside : ∀ p, PagePath p → R p → pteAt s'.ram 3 T p = (pteAt s.ram 3 T p).map g
  outside : ∀ p, PagePath p → ¬ R p → pteAt s'.ram 3 T p = pteAt s.ram 3 T p

namespace Edited

lemma of_unmapped (h : KernelTables s T)
    (hnone : ∀ p, PagePath p → R p → pteAt s.ram 3 T p = none) : Edited s s T R g := by
  refine ⟨h, rfl, fun _ _ => rfl, fun p hp hR => ?_, fun _ _ _ => rfl⟩
  rw [hnone p hp hR]
  rfl

lemma trans (hg : ∀ e, g (g e) = g e) (h : Edited s s1 T R g) (h' : Edited s1 s' T R' g) :
    Edited s s' T (fun p => R p ∨ R' p) g := by
  refine ⟨h'.tables, h'.pmm.trans h.pmm, fun r hr => (h'.nodes r hr).trans (h.nodes r hr),
    fun p hp hin => ?_, fun p hp hout => ?_⟩
  · by_cases hR' : R' p
    · rw [h'.inside p hp hR']
      by_cases hR : R p
      · rw [h.inside p hp hR, Option.map_map]
        exact congrArg (fun k => Option.map k _) (funext hg)
      · rw [h.outside p hp hR]
    · rw [h'.outside p hp hR', h.inside p hp (hin.resolve_right hR')]
  · rw [not_or] at hout
    rw [h'.outside p hp hout.2, h.outside p hp hout.1]

lemma congr (h : Edited s s' T R g) (hR : ∀ p, PagePath p → (R p ↔ R' p)) : Edited s s' T R' g :=
  ⟨h.tables, h.pmm, h.nodes, fun p hp hp' => h.inside p hp ((hR p hp).mpr hp'),
    fun p hp hp' => h.outside p hp fun hin => hp' ((hR p hp).mp hin)⟩

end Edited

lemma exists_index {p : List Nat} (hp : PagePath p) (hq : q.length < 4) :
    (∃ i < 512, q ++ [i] <+: p) ↔ q <+: p := by
  constructor
  · rintro ⟨i, -, hi⟩
    exact (prefix_append q [i]).trans hi
  rintro ⟨l, rfl⟩
  have hlen := hp.length
  rw [length_append] at hlen
  obtain ⟨i, l, rfl⟩ := exists_cons_of_length_pos (show 0 < l.length by omega)
  refine ⟨i, hp.indexed i (by simp), l, by simp⟩

/-- A loop over a table edits what lies below it, if every round edits below its entry. -/
lemma foldl_edited (hg : ∀ e, g (g e) = g e) {pmm : Pmm} {step : PhysMem → Nat → PhysMem}
    {m : PhysMem} (hstep : ∀ m i, KernelTables ⟨pmm, m⟩ T → tableOf m T q = some t → i < 512 →
      Edited ⟨pmm, m⟩ ⟨pmm, step m i⟩ T (fun p => q ++ [i] <+: p) g)
    (hq : Indexed IsIndex q) (hlen : q.length < 4) (h : KernelTables ⟨pmm, m⟩ T)
    (ht : tableOf m T q = some t) :
    Edited ⟨pmm, m⟩ ⟨pmm, (range 512).foldl step m⟩ T (fun p => q <+: p) g := by
  have hloop : ∀ n ≤ 512, Edited ⟨pmm, m⟩ ⟨pmm, (range n).foldl step m⟩ T
      (fun p => ∃ i < n, q ++ [i] <+: p) g := by
    intro n
    induction n with
    | zero =>
      intro _
      refine .of_unmapped h fun p _ hi => ?_
      obtain ⟨i, hlt, -⟩ := hi
      exact absurd hlt (Nat.not_lt_zero i)
    | succ n ih =>
      intro hn
      have hprev := ih (by omega)
      rw [range_succ, foldl_append, foldl_cons]
      have hnext := hstep _ n hprev.tables ((hprev.nodes q hq).trans ht) (by omega)
      refine (hprev.trans hg hnext).congr fun p _ => ?_
      constructor
      · rintro (⟨i, hi, hin⟩ | hin)
        · exact ⟨i, by omega, hin⟩
        · exact ⟨n, by omega, hin⟩
      rintro ⟨i, hi, hin⟩
      rcases Nat.lt_succ_iff_lt_or_eq.mp hi with hi | rfl
      · exact .inl ⟨i, hi, hin⟩
      · exact .inr hin
  exact (hloop 512 (le_refl _)).congr fun p hp => exists_index hp hlen

section Loops

variable {a b : Nat} {pmm : Pmm} {m : PhysMem}

lemma hardenPt_edited (h : KernelTables ⟨pmm, m⟩ T) (hq : Indexed IsIndex q) (hlen : q.length = 3)
    (ht : tableOf m T q = some t) :
    Edited ⟨pmm, m⟩ ⟨pmm, hardenPt a b m t⟩ T (fun p => q <+: p) (hardenEntry a b) := by
  refine foldl_edited (hardenEntry_hardenEntry a b) (fun m i h ht hi => ?_) hq (by omega) h ht
  have hpath : ∀ p, PagePath p → (q ++ [i] <+: p ↔ p = q ++ [i]) := by
    intro p hp
    refine ⟨fun hin => (hin.eq_of_length ?_).symm, fun heq => heq ▸ prefix_rfl⟩
    rw [hp.length, length_append, hlen]
    rfl
  have hpte := pteAt_concat (i := i) hlen ht
  split_ifs with hpres
  · obtain ⟨htbs, hns, hleaf⟩ := h.put (i := i) (e := hardenEntry a b (m.entry t i)) hq hlen ht
      (isPresent_hardenEntry a b hpres)
    refine .congr (R := fun p => p = q ++ [i]) ⟨htbs, rfl, hns, fun p hp heq => ?_,
      fun p hp hne => ?_⟩
      fun p hp => (hpath p hp).symm
    · rw [hleaf p hp, if_pos heq, heq, hpte, if_pos hpres]
      rfl
    · rw [hleaf p hp, if_neg hne]
  refine .of_unmapped h fun p hp hin => ?_
  rw [(hpath p hp).mp hin]
  exact hpte.trans (if_neg hpres)

lemma hardenTable_edited {level : Nat} {next : PhysMem → Nat → PhysMem} (hg : ∀ e, g (g e) = g e)
    (hnext : ∀ m c r, KernelTables ⟨pmm, m⟩ T → Indexed IsIndex r → r.length + level = 4 →
      tableOf m T r = some c →
      Edited ⟨pmm, m⟩ ⟨pmm, next m c⟩ T (fun p => r <+: p) g)
    (h : KernelTables ⟨pmm, m⟩ T) (hq : Indexed IsIndex q) (hlen : q.length + level = 3)
    (hlevel : 0 < level) (ht : tableOf m T q = some t) :
    Edited ⟨pmm, m⟩ ⟨pmm, hardenTable level next m t⟩ T (fun p => q <+: p) g := by
  refine foldl_edited hg (fun m i h ht hi => ?_) hq (by omega) h ht
  have htab : tableOf m T (q ++ [i]) = target level (m.entry t i) := by
    rw [KernelTables.target_of_tableOf (s := ⟨pmm, m⟩) (by omega) ht,
      show 3 - q.length = level by omega]
  cases hc : target level (m.entry t i) with
  | none =>
    rw [hc] at htab
    exact .of_unmapped h fun p hp hin => pteAt_of_missing hp hin (by simp; omega) htab
  | some c =>
    rw [hc] at htab
    exact hnext m c (q ++ [i]) h (indexed_concat.mpr ⟨hq, hi⟩) (by simp; omega) htab

lemma hardenIdentityMap_edited (kernelPhysStart : Nat) (h : KernelTables ⟨pmm, m⟩ T) :
    Edited ⟨pmm, m⟩ ⟨pmm, hardenIdentityMap kernelPhysStart m T⟩ T (fun p => [0] <+: p)
      (hardenEntry (kernPageStart kernelPhysStart) (kernPageEnd kernelPhysStart)) := by
  have hzero : Indexed IsIndex [0] := by
    intro i hi
    rw [mem_singleton.mp hi]
    exact Nat.succ_pos 511
  have htab : tableOf m T [0] = target 3 (m.entry T 0) :=
    KernelTables.target_of_tableOf (s := ⟨pmm, m⟩) (q := []) (by decide) rfl
  rw [hardenIdentityMap]
  cases hc : target 3 (m.entry T 0) with
  | none =>
    rw [hc] at htab
    exact .of_unmapped h fun p hp hin => pteAt_of_missing hp hin (by decide) htab
  | some pdpt =>
    rw [hc] at htab
    have hg := hardenEntry_hardenEntry (kernPageStart kernelPhysStart) (kernPageEnd kernelPhysStart)
    rw [Option.elim_some]
    refine hardenTable_edited hg (fun m pd r h hr hlen hpd => ?_) h hzero (by decide)
      (by decide) htab
    refine hardenTable_edited hg (fun m pt r h hr hlen hpt => ?_) h hr (by omega) (by decide) hpd
    exact hardenPt_edited h hr (by omega) hpt

end Loops

/-! ## Pages that can be executed -/

/-- Every entry on the way to a page is there, and none forbids execution. -/
def Executable (m : PhysMem) (T : Nat) (path : List Nat) : Prop :=
  ∀ q i, q ++ [i] <+: path → ∃ t, tableOf m T q = some t ∧ Pte.isPresent (m.entry t i) = true ∧
    (m.entry t i).getLsbD 63 = false

/-- The tables above a page set no NX bit, so its own entry decides. -/
lemma executable_iff (h : KernelTables s T) (hp : PagePath path)
    (he : pteAt s.ram 3 T path = some e) : Executable s.ram T path ↔ e.getLsbD 63 = false := by
  obtain ⟨r, j, rfl, hr, hj, hlen⟩ := hp.exists_concat
  -- the last table, and with it the tables before it, are there
  obtain ⟨pt, hpt⟩ : ∃ pt, tableOf s.ram T r = some pt := by
    refine Option.ne_none_iff_exists'.mp fun hnone => ?_
    rw [pteAt_of_missing hp (prefix_append r [j]) hlen.le hnone] at he
    cases he
  rw [pteAt_concat hlen hpt] at he
  split_ifs at he with hpres
  cases he
  constructor
  · intro hexec
    obtain ⟨t, ht, -, hbit⟩ := hexec r j prefix_rfl
    cases hpt.symm.trans ht
    exact hbit
  intro hbit q i hin
  by_cases hq : q.length = 3
  · obtain ⟨rfl, hij⟩ := append_inj (hin.eq_of_length (by simp [hq, hlen])) (hq.trans hlen.symm)
    obtain rfl : i = j := by simpa using hij
    exact ⟨pt, hpt, hpres, hbit⟩
  have hsh : q.length < 3 := by
    have hle := hin.length_le
    rw [length_append, length_append, length_singleton, length_singleton] at hle
    omega
  have hidx := indexed_concat.mp (hp.indexed.of_initial hin)
  have hnext : q ++ [i] <+: r :=
    prefix_of_prefix_length_le hin (prefix_append r [j]) (by simp; omega)
  obtain ⟨t, ht⟩ :=
    Option.ne_none_iff_exists'.mp (tableOf_of_initial ((prefix_append q [i]).trans hnext) hpt)
  have hsome : target (3 - q.length) (s.ram.entry t i) ≠ none := by
    rw [← KernelTables.target_of_tableOf hsh ht]
    exact tableOf_of_initial hnext hpt
  have hused : s.ram.entry t i ≠ 0 := by
    intro hzero
    rw [hzero] at hsome
    exact hsome rfl
  refine ⟨t, ht, ?_, (h.links q t i hidx.1 hidx.2 hsh ht hused).2⟩
  by_contra hnot
  refine hsome ?_
  rw [target, Bool.eq_false_of_not_eq_true hnot]
  rfl

/-! ## The identity map after the boot -/

/-- Only the pages of the image are executable in the identity map, and everything else is mapped as
before. -/
structure Hardened (physStart physEnd : Nat) (m m' : PhysMem) (T : Nat) : Prop where
  identity : ∀ n < 2 ^ 20, ∃ e, pteAt m' 3 T (pathOf (n * PAGE_SIZE)) = some e ∧ Pte.addr e = n
  executable : ∀ n < 2 ^ 20, Executable m' T (pathOf (n * PAGE_SIZE)) ↔ physStart ≤ n * PAGE_SIZE ∧
    n * PAGE_SIZE < physEnd
  image : ∀ va, KERNEL_VIRT_BASE ≤ va → va < KERNEL_VIRT_BASE + (physEnd - physStart) →
    pteAt m' 3 T (pathOf va) = pteAt m 3 T (pathOf va)
  heap : ∀ va, KERNEL_HEAP_BASE ≤ va → va < KERNEL_HEAP_BASE + KERNEL_HEAP_INITIAL_SIZE →
    pteAt m' 3 T (pathOf va) = pteAt m 3 T (pathOf va)

section Boot

variable {M : Mapper} {map : MemoryMap} {ram : PhysMem} {physStart physEnd n va : Nat}

lemma Booted.identity_hardened (h : Booted physStart physEnd s s' T) (hst : physStart < 2 ^ 64)
    (hn : n < 2 ^ 20) :
    pteAt (hardenIdentityMap physStart s'.ram T) 3 T (pathOf (n * PAGE_SIZE)) =
      some (hardenEntry (kernPageStart physStart) (kernPageEnd physStart)
        (setAddr n kernelFlags)) := by
  have hedit := hardenIdentityMap_edited physStart h.tables
  have hzero : pml4Index (n * PAGE_SIZE) = 0 := by
    unfold pml4Index PAGE_SIZE
    omega
  have hin : [0] <+: pathOf (n * PAGE_SIZE) := by
    rw [pathOf, hzero]
    exact prefix_append [0] _
  have hpage := hedit.inside _ (pagePath_pathOf _) hin
  rw [h.identity hst hn] at hpage
  exact hpage

lemma Booted.executable_hardened (h : Booted physStart physEnd s s' T)
    (hal : physStart % PAGE_SIZE = 0) (hst : physStart ≤ IDENTITY_END) (hn : n < 2 ^ 20) :
    Executable (hardenIdentityMap physStart s'.ram T) T (pathOf (n * PAGE_SIZE)) ↔
      physStart ≤ n * PAGE_SIZE ∧ n * PAGE_SIZE < physStart + 2 ^ 20 := by
  have hlow : physStart < 2 ^ 64 := lt_of_le_of_lt hst (by decide)
  have hfst : kernPageStart physStart = physStart := by
    unfold kernPageStart PAGE_SIZE at *
    omega
  have hlast : kernPageEnd physStart = physStart + 2 ^ 20 := by
    unfold kernPageEnd PAGE_SIZE IDENTITY_END at *
    omega
  have hbit : (setAddr n kernelFlags).getLsbD 63 = false := by
    have hfl : parentFlags kernelFlags = kernelFlags := by decide
    rw [← hfl]
    exact KernelTables.getLsbD_newLink (lt_trans hn (by decide))
  have hpage := h.identity_hardened hlow hn
  have hedit := hardenIdentityMap_edited physStart h.tables
  rw [executable_iff (s := ⟨s'.pmm, hardenIdentityMap physStart s'.ram T⟩) hedit.tables
    (pagePath_pathOf _) hpage,
    noExecute_hardenEntry _ _ hbit, addr_setAddr (lt_trans hn (by decide)) isFlags_kernelFlags,
    hfst, hlast]

lemma Booted.high_hardened (h : Booted physStart physEnd s s' T) (hva : pml4Index va ≠ 0) :
    pteAt (hardenIdentityMap physStart s'.ram T) 3 T (pathOf va) =
      pteAt s'.ram 3 T (pathOf va) := by
  refine (hardenIdentityMap_edited physStart h.tables).outside _ (pagePath_pathOf va)
    fun hin => hva ?_
  obtain ⟨l, hl⟩ := hin
  exact (cons.inj hl).1.symm

/-- **The hardening is exact** if and only if the image is 1 MiB long, or ends at 4 GiB before
that. -/
theorem hardened_iff (hM : M.Everywhere) (hstart : physStart % PAGE_SIZE = 0)
    (hend : physEnd % PAGE_SIZE = 0) (hle : physStart ≤ physEnd) (hlow : physEnd ≤ IDENTITY_END)
    (hok : initKernelPageTables M physStart physEnd
      ⟨bootPmm map physStart physEnd, ram⟩ = .ok (T, s)) :
    Hardened physStart physEnd s.ram (hardenIdentityMap physStart s.ram T) T ↔
      physEnd = min (physStart + 2 ^ 20) IDENTITY_END := by
  have hboot := init_installed hM totalFrames_bootPmm hok
  have hexec :
      ∀ n < 2 ^ 20, Executable (hardenIdentityMap physStart s.ram T) T (pathOf (n * PAGE_SIZE)) ↔
      physStart ≤ n * PAGE_SIZE ∧ n * PAGE_SIZE < physStart + 2 ^ 20 :=
    fun n hn => hboot.executable_hardened hstart (hle.trans hlow) hn
  unfold PAGE_SIZE IDENTITY_END at *
  constructor
  · intro h
    by_contra hne
    -- the first page behind the shorter of the two ranges
    obtain ⟨n, hn, hdiffer⟩ : ∃ n < 2 ^ 20, ¬ (physStart ≤ n * 4096 ∧
      n * 4096 < physStart + 2 ^ 20 ↔
        physStart ≤ n * 4096 ∧ n * 4096 < physEnd) := by
      refine ⟨min physEnd (physStart + 2 ^ 20) / 4096, by omega, by omega⟩
    exact hdiffer ((hexec n hn).symm.trans (h.executable n hn))
  intro heq
  refine ⟨fun n hn => ⟨_, hboot.identity_hardened ?_ hn, ?_⟩, fun n hn => (hexec n hn).trans ?_,
    fun va hlo hhi => hboot.high_hardened ?_, fun va hlo hhi => hboot.high_hardened ?_⟩
  · omega
  · rw [addr_hardenEntry, addr_setAddr (lt_trans hn (by decide)) isFlags_kernelFlags]
  · unfold PAGE_SIZE
    omega
  · unfold KERNEL_VIRT_BASE pml4Index at *
    omega
  · unfold KERNEL_HEAP_BASE KERNEL_HEAP_INITIAL_SIZE pml4Index at *
    omega

/-- An image of 1 MiB at 256 MiB. -/
theorem hardened_iff_mebibyte : ∃ T s, initKernelPageTables referenceMapper 0x10000000 0x10100000
      ⟨bootPmm (lowMap (2 ^ 32)) 0x10000000 0x10100000, Store.const (Store.const 0)⟩ = .ok (T, s) ∧
    Hardened 0x10000000 0x10100000 s.ram (hardenIdentityMap 0x10000000 s.ram T) T := by
  obtain ⟨T, s, hok⟩ :=
    exists_booted (le_refl (2 ^ 32)) (by decide) (show 20000 * PAGE_SIZE ≤ 0x10000000 by decide)
    (show 0x10100000 ≤ 2 ^ 32 by decide) (by decide) (by decide) (Store.const (Store.const 0))
  refine ⟨T, s, hok, (hardened_iff referenceMapper_everywhere ?_ ?_ ?_ ?_ hok).mpr ?_⟩ <;> decide

/-- The second MiB of an image of 2 MiB cannot be executed. -/
theorem hardening_too_short : ∃ T s, initKernelPageTables referenceMapper 0x10000000 0x10200000
      ⟨bootPmm (lowMap (2 ^ 32)) 0x10000000 0x10200000, Store.const (Store.const 0)⟩ = .ok (T, s) ∧
    ¬ Hardened 0x10000000 0x10200000 s.ram (hardenIdentityMap 0x10000000 s.ram T) T := by
  obtain ⟨T, s, hok⟩ :=
    exists_booted (le_refl (2 ^ 32)) (by decide) (show 20000 * PAGE_SIZE ≤ 0x10000000 by decide)
    (show 0x10200000 ≤ 2 ^ 32 by decide) (by decide) (by decide) (Store.const (Store.const 0))
  have hboot := init_installed referenceMapper_everywhere totalFrames_bootPmm hok
  have hexec := hboot.executable_hardened (by decide) (by decide) (show 0x10100 < 2 ^ 20 by decide)
  exact ⟨T, s, hok, fun h => absurd (hexec.mp ((h.executable 0x10100 (by decide)).mpr (by decide)))
    (by decide)⟩

end Boot

end Indominus.Boot
