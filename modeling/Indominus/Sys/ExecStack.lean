import Indominus.Memory.PageFill
import Indominus.Sys.FailedExec

/-!
# The stack of a new program

`translate_addr` answers with the start of the frame: every store of `sys_execve` goes there.
-/

namespace Indominus.Sys

open Lib Lib.Radix Memory List

variable {K : Nat → Prop} {exact : Prop} {R : Multiset Nat} {Z : Claims Nat}

variable {M : Mapper} {s s' s'' : Machine} {T top va : Nat} {flags : Word} {clear : Bool}

/-! ## Cleared pages -/

section

variable (hM : M.Documented) (hfam : Family K exact s (T ::ₘ R) Z) (hva : va < USER_SPACE_END)
  (hfl : StackFlags flags) (hok : mapZeroedPage M clear s T va flags = .ok (some s'))

include hM hfam hva hfl hok

lemma mapZeroedPage_filled : ∃ f, PageFilled K exact T R Z va f flags (fun _ => 0) s s' := by
  rw [mapZeroedPage] at hok
  cases hall : s.allocateFrame with
  | none => simp [hall] at hok
  | some a =>
    obtain ⟨f, s1⟩ := a
    simp only [hall] at hok
    cases hmap : mapPage M s1 T va f flags with
    | error e => simp [hmap] at hok
    | ok s2 =>
      simp only [hmap, Except.ok.injEq, Option.some.injEq] at hok
      obtain ⟨s0, hs0, rfl⟩ := Machine.allocateFrame_eq_some hall
      -- clearing the frame once more changes nothing
      obtain ⟨m, hm, hs', hzero⟩ : ∃ m : PhysMem, (∀ g, g ≠ f → m.page g = s2.ram.page g) ∧
          s' = { s2 with ram := m } ∧ (clear = true → m = s2.ram.zeroPage f) ∧
            (clear = false → m = s2.ram) := by
        cases clear with
        | true =>
          exact ⟨_, fun g hg => PhysMem.page_zeroPage_of_ne hg, hok.symm, fun _ => rfl, nofun⟩
        | false => exact ⟨_, fun g hg => rfl, hok.symm, nofun, fun _ => rfl⟩
      obtain ⟨hfill, hpage⟩ :=
        PageFilled.of_map hfam hM hs0 (fun g hg => PhysMem.page_zeroPage_of_ne hg) hva
        hfl.1 hfl.2 (mapPage_eq_ok.mp hmap) hm
      subst hs'
      refine ⟨f, hfill.with_content fun j hj => ?_⟩
      cases clear with
      | true => rw [hzero.1 rfl, PhysMem.byte_zeroPage hj]
      | false =>
        rw [hzero.2 rfl]
        exact PhysMem.byte_of_cleared hpage hj

lemma mapZeroedPage_view : Family K exact s' (T ::ₘ R) Z ∧ KeepsView T s s' ∧
    ∀ a < USER_SPACE_END, pathOf a = pathOf va → view s'.ram T a = some 0 := by
  obtain ⟨f, hfill⟩ := mapZeroedPage_filled hM hfam hva hfl hok
  refine ⟨hfill.family, hfill.keeps hfam, fun a ha heq => ?_⟩
  rw [hfill.view hfam ha, if_pos heq]

end

lemma mapZeroedPages_view {vas : List Nat} (hM : M.Documented) (hfam : Family K exact s (T ::ₘ R) Z)
    (hvas : ∀ va ∈ vas, va < USER_SPACE_END) (hfl : StackFlags flags)
    (hok : mapZeroedPages M clear T flags vas s = .ok (true, s')) :
    Family K exact s' (T ::ₘ R) Z ∧ KeepsView T s s' ∧
      ∀ va ∈ vas, ∀ a < USER_SPACE_END, pathOf a = pathOf va → view s'.ram T a = some 0 := by
  induction vas generalizing s with
  | nil =>
    cases hok
    exact ⟨hfam, fun _ _ _ hb => hb, nofun⟩
  | cons va vas ih =>
    rw [mapZeroedPages] at hok
    cases hpage : mapZeroedPage M clear s T va flags with
    | error e => simp [hpage] at hok
    | ok r =>
      cases r with
      | none => simp [hpage] at hok
      | some s1 =>
        simp only [hpage] at hok
        obtain ⟨hfam1, hkps1, hzero1⟩ :=
          mapZeroedPage_view hM hfam (hvas va mem_cons_self) hfl hpage
        obtain ⟨hfam', hkps', hzero'⟩ := ih hfam1 (fun va' h => hvas va' (mem_cons_of_mem _ h)) hok
        refine ⟨hfam', hkps1.trans hkps', fun va' hmem a ha heq => ?_⟩
        rcases mem_cons.mp hmem with rfl | hmem
        · exact hkps' a ha 0 (hzero1 a ha heq)
        · exact hzero' va' hmem a ha heq

def InExecStack (top a : Nat) : Prop := top - 4 * PAGE_SIZE ≤ a ∧ a < top

variable {a : Nat}

lemma Kernel.IsStackTop.below_of_lt (htop : Kernel.IsStackTop top) (ha : a < top) :
    a < USER_SPACE_END :=
  htop.below ha.le

lemma Kernel.IsStackTop.large (htop : Kernel.IsStackTop top) : 2 ^ 20 ≤ top :=
  le_trans (by decide) htop.2

lemma inExecStack_of_last (hal : top % PAGE_SIZE = 0)
    (hlo : top - 4088 ≤ a) (hhi : a < top) : InExecStack top a ∧ 8 ≤ a % PAGE_SIZE := by
  unfold InExecStack PAGE_SIZE at *
  omega

lemma mapExecStack_view (hM : M.Documented) (hfam : Family K exact s (T ::ₘ R) Z)
    (htop : Kernel.IsStackTop top) (hal : top % PAGE_SIZE = 0)
    (hok : mapExecStack M T top s = .ok (true, s')) :
    Family K exact s' (T ::ₘ R) Z ∧ ∀ a, InExecStack top a → view s'.ram T a = some 0 := by
  have hlow := htop.2
  have hpgs : ∀ va ∈ execStackPages top, va < USER_SPACE_END := by
    intro va hva
    obtain ⟨i, hi, rfl⟩ := mem_map.mp hva
    rw [mem_range] at hi
    apply htop.below
    unfold USER_STACK_TOP at hlow
    unfold PAGE_SIZE
    omega
  rw [mapExecStack] at hok
  cases hstk : mapZeroedPages M true T userPageFlags (execStackPages top) s with
  | error e => simp [hstk] at hok
  | ok r =>
    obtain ⟨b, s1⟩ := r
    cases b with
    | false => simp [hstk] at hok
    | true =>
      simp only [hstk] at hok
      obtain ⟨hfam1, -, hzero1⟩ := mapZeroedPages_view hM hfam hpgs (by decide) hstk
      cases hgd : mapZeroedPage M false s1 T (top - 4 * PAGE_SIZE - PAGE_SIZE) Pte.PRESENT with
      | error e => simp [hgd] at hok
      | ok r =>
        cases r with
        | none => simp [hgd] at hok
        | some s2 =>
          obtain rfl : s2 = s' := by simpa [hgd] using hok
          obtain ⟨hfam2, hkps2, -⟩ :=
            mapZeroedPage_view hM hfam1 (htop.below (by omega)) (by decide) hgd
          refine ⟨hfam2, fun a ha => ?_⟩
          have halt := htop.below_of_lt ha.2
          refine hkps2 a halt 0 ?_
          have hpage : top - 4 * PAGE_SIZE + (a - (top - 4 * PAGE_SIZE)) / PAGE_SIZE * PAGE_SIZE ∈
              execStackPages top := by
            refine mem_map.mpr ⟨_, mem_range.mpr ?_, rfl⟩
            have hhi := ha.2
            unfold PAGE_SIZE
            omega
          refine hzero1 _ hpage a halt ((pathOf_eq_iff halt (hpgs _ hpage)).mpr ?_)
          have hlo := ha.1
          unfold PAGE_SIZE at *
          omega

/-! ## Stores to the stack -/

/-- Only the first eight bytes of pages have been written. -/
structure PokedLow (K : Nat → Prop) (exact : Prop) (T : Nat) (R : Multiset Nat) (Z : Claims Nat)
    (s s' : Machine) : Prop where
  family : Family K exact s' (T ::ₘ R) Z
  view : ∀ va < USER_SPACE_END, 8 ≤ va % PAGE_SIZE → view s'.ram T va = view s.ram T va

lemma PokedLow.refl (hfam : Family K exact s (T ::ₘ R) Z) : PokedLow K exact T R Z s s :=
  ⟨hfam, fun _ _ _ => rfl⟩

lemma PokedLow.trans (h : PokedLow K exact T R Z s s') (h' : PokedLow K exact T R Z s' s'') :
    PokedLow K exact T R Z s s'' :=
  ⟨h'.family, fun va hva hlow => (h'.view va hva hlow).trans (h.view va hva hlow)⟩

namespace Kernel

section Pokes

variable (hM : M.Documented)

include hM

variable {bytes : List Byte} {pos : Nat}

section

variable (hfam : Family K exact s (T ::ₘ R) Z)

include hfam

lemma pokeStack_low (hva : va < USER_SPACE_END) (hlen : bytes.length ≤ 8) :
    PokedLow K exact T R Z s (pokeStack M s T va bytes) := by
  rw [pokeStack, translateAddr, hM.translatePage hva]
  cases he : pteAt s.ram 3 T (pathOf va) with
  | none => exact .refl hfam
  | some e =>
    have hleaf := leaf_mem_uses (inUser_pathOf hva) he
    have hpage : ∀ g, g ≠ Pte.addr e →
        (s.ram.writeBytes (Pte.addr e * PAGE_SIZE) bytes).page g = s.ram.page g := by
      intro g hg
      have hoff : 0 + bytes.length ≤ PAGE_SIZE := by
        unfold PAGE_SIZE
        omega
      have hkept := PhysMem.page_writeBytes_within (m := s.ram) hoff hg
      rwa [Nat.add_zero] at hkept
    obtain ⟨hfam', hpte⟩ := hfam.writeLeaf hleaf hpage
    refine ⟨hfam', fun va' hva' hlow => ?_⟩
    show view (s.ram.writeBytes (Pte.addr e * PAGE_SIZE) bytes) T va' = _
    rw [view, view, hpte T (Multiset.mem_cons_self _ _) _ (inUser_pathOf hva')]
    congr 1
    funext e'
    rw [PhysMem.byte_writeBytes, if_neg]
    have hmod : va' % PAGE_SIZE < PAGE_SIZE := Nat.mod_lt _ (by decide)
    unfold PAGE_SIZE at *
    omega

lemma pokeString_low (hpos : pos + bytes.length < USER_SPACE_END) :
    PokedLow K exact T R Z s (pokeString M T pos bytes s) := by
  induction bytes generalizing pos s with
  | nil => exact pokeStack_low hM hfam hpos (by simp)
  | cons b bytes ih =>
    rw [length_cons] at hpos
    have hfst : PokedLow K exact T R Z s (pokeStack M s T pos [b]) :=
      pokeStack_low hM hfam (by omega) (by simp)
    exact hfst.trans (ih hfst.family (by omega))

lemma pokeStrings_low {argv : List (List Byte)} (hpos : pos + argvBytes argv ≤ USER_SPACE_END) :
    PokedLow K exact T R Z s (pokeStrings M T pos argv s).2 := by
  induction argv generalizing pos s with
  | nil => exact .refl hfam
  | cons a argv ih =>
    have hbs : argvBytes (a :: argv) = a.length + 1 + argvBytes argv := by
      simp [argvBytes]
    have hfst := pokeString_low hM hfam (show pos + a.length < USER_SPACE_END by omega)
    exact hfst.trans (ih hfst.family (by omega))

lemma pokeWords_low {ws : List Nat} {sp : Nat} (hsp : sp ≤ USER_SPACE_END) :
    PokedLow K exact T R Z s (pokeWords M T sp ws s).2 := by
  induction ws generalizing sp s with
  | nil => exact .refl hfam
  | cons w ws ih =>
    have hva : sp - 8 < USER_SPACE_END := by
      unfold USER_SPACE_END at *
      omega
    have hfst : PokedLow K exact T R Z s (pokeStack M s T (sp - 8) (wordBytes w)) :=
      pokeStack_low hM hfam hva (by simp [wordBytes])
    exact hfst.trans (ih hfst.family hva.le)

end

end Pokes

lemma pokeWords_fst (sp : Nat) (ws : List Nat) (s : Machine) :
    (pokeWords M T sp ws s).1 = sp - 8 * ws.length := by
  induction ws generalizing sp s with
  | nil => rfl
  | cons w ws ih =>
    rw [pokeWords, ih, length_cons]
    omega

lemma length_pokeStrings (pos : Nat) (argv : List (List Byte)) (s : Machine) :
    (pokeStrings M T pos argv s).1.length = argv.length := by
  induction argv generalizing pos s with
  | nil => rfl
  | cons a argv ih => rw [pokeStrings, length_cons, ih, length_cons]

/-! ## The property -/

def ReadsWord (m : PhysMem) (T a w : Nat) : Prop :=
  ∀ i < 8, view m T (a + i) = some ((wordBytes w).getD i 0)

/-- The user string at an address: its bytes and a terminating zero. -/
def ReadsString (m : PhysMem) (T a : Nat) (bytes : List Byte) : Prop :=
  ∀ i ≤ bytes.length, view m T (a + i) = some ((bytes ++ [0]).getD i 0)

/-- `argc` at the stack pointer, the pointers to the strings, a null pointer, and elsewhere the
strings. -/
structure ArgvLaidOut (m : PhysMem) (T rsp top : Nat) (argv : List (List Byte)) : Prop where
  argc : ReadsWord m T rsp argv.length
  pointers : ∃ ptrs : List Nat, ptrs.length = argv.length ∧
    ReadsWord m T (rsp + 8 * (argv.length + 1)) 0 ∧ ∀ i < argv.length,
      ReadsWord m T (rsp + 8 * (i + 1)) (ptrs.getD i 0) ∧
      ReadsString m T (ptrs.getD i 0) (argv.getD i []) ∧
      top - 4 * PAGE_SIZE ≤ ptrs.getD i 0 ∧ ptrs.getD i 0 + (argv.getD i []).length < top ∧
      (ptrs.getD i 0 + (argv.getD i []).length < rsp ∨ rsp + 8 * (argv.length + 2) ≤ ptrs.getD i 0)
  inside : top - 4 * PAGE_SIZE ≤ rsp ∧ rsp + 8 * (argv.length + 2) ≤ top

variable {m : PhysMem}

lemma readsWord_zero (h : ∀ i < 8, view m T (a + i) = some 0) : ReadsWord m T a 0 := by
  have hzero : ∀ i < 8, (wordBytes 0).getD i 0 = 0 := by decide
  intro i hi
  rw [h i hi, hzero i hi]

lemma eq_zero_of_readsWord {w : Nat} (h : ReadsWord m T a w) (hzero : view m T a = some 0)
    (hw : w < 256) : w = 0 := by
  have hfst := h 0 (by decide)
  rw [Nat.add_zero, hzero] at hfst
  have hbyte : (wordBytes w).getD 0 0 = BitVec.ofNat 8 w := by simp [wordBytes]
  rw [hbyte] at hfst
  have hmod := congrArg BitVec.toNat (Option.some.inj hfst)
  rw [BitVec.toNat_ofNat, Nat.mod_eq_of_lt hw] at hmod
  exact hmod.symm

/-! ## A call that returns -/

variable {k k' : Kernel} {pid : Pid} {p : Process} {pml4 entry : Nat}

variable {file : BytesResult} {elf : List Byte} {argv : List (List Byte)}

lemma mmapRegions_afterCloexec (p : Process) : (afterCloexec p).mmapRegions = p.mmapRegions := by
  obtain ⟨fds, handles, heq⟩ := afterCloexec_eq p
  rw [heq]

lemma pokeArgv_fst : (pokeArgv M pml4 top argv s).1 = top - 8 - 8 * (argv.length + 1) - 8 := by
  simp [pokeArgv, pokeWords_fst, length_pokeStrings]

lemma sysExecve_ok (hcur : k.current = some (pid, p))
    (hok : k.sysExecve M file argv = .ok (.ok 0, k')) :
    ∃ elf pml4 entry top prng s p', file = .ok elf ∧
      Rebuilt M k.closeOnExec elf p.pml4Phys pml4 entry top prng s ∧ argvBytes argv ≤ 3072 ∧
      k'.machine = (pokeArgv M pml4 top argv s).2 ∧ k'.procs pid = some p' ∧ p'.pml4Phys = pml4 ∧
      p'.userRsp = some (pokeArgv M pml4 top argv s).1 ∧
      p'.heapStart = USER_HEAP_BASE ∧ p'.heapEnd = USER_HEAP_BASE ∧
        p'.mmapRegions = p.mmapRegions := by
  obtain ⟨k0, p0, s, prng, hk0, hp0, -,
    ⟨-, ⟨e, he⟩, -⟩ | ⟨elf, pml4, entry, top, rfl, hblt, hend⟩⟩ :=
    sysExecve_result hcur hok
  · cases he
  rcases hend with ⟨-, he, -⟩ | ⟨hbs, -, rfl⟩
  · cases he
  rw [hk0, hp0, pml4Phys_afterCloexec] at hblt
  refine ⟨elf, pml4, entry, top, prng, s, _, rfl, hblt, hbs, rfl, Function.update_self .., rfl, rfl,
    rfl, rfl, ?_⟩
  simp only [hp0, mmapRegions_afterCloexec]

/-- The new stack is zero before the arguments are written. -/
lemma execStack_clear (hM : M.Documented) (hfam : Family K exact k.machine (p.pml4Phys ::ₘ R) 0)
    (hcur : k.current = some (pid, p)) (hfile : k.FileContained M k.kernelPml4 (.ok elf))
    {prng : Word}
    (hblt : Rebuilt M k.closeOnExec elf p.pml4Phys pml4 entry top prng s) :
    top = k.randomizeStackBase.1 ∧ IsStackTop top ∧ top % PAGE_SIZE = 0 ∧
      Family K exact s (pml4 ::ₘ R) 0 ∧
      ∀ a, InExecStack top a → view s.ram pml4 a = some 0 := by
  obtain ⟨-, s3, hbd, hfree⟩ := hblt
  obtain ⟨s1, s2, s3', prng', hcr, hload, hrand, hstk, heq⟩ := buildImage_ok hbd
  obtain rfl : s3 = s3' := congrArg machine heq
  have hprng : k.closeOnExec.prng = k.prng := by
    rw [closeOnExec_eq hcur]
    rfl
  have htop : top = USER_STACK_TOP - (nextU64 k.prng).toNat % 16 * 4096 := by
    rw [← hprng]
    exact (congrArg Prod.fst hrand).symm
  obtain ⟨top', prng', hrand', hstackTop⟩ := randomizeStackBase_cases k.closeOnExec
  obtain rfl : top = top' := congrArg Prod.fst (hrand.symm.trans hrand')
  have hal : top % PAGE_SIZE = 0 := by
    rw [htop]
    unfold USER_STACK_TOP PAGE_SIZE
    omega
  -- the image is built in a family of its own, next to the old address space
  have hfam0 : Family K exact k.closeOnExec.machine (p.pml4Phys ::ₘ R) 0 := by
    rw [machine_closeOnExec hcur]
    exact hfam
  have hloads :=
    (loadElf_cases ((fileContained_closeOnExec hcur).mpr hfile _ _ _ rfl hcr)).ok _ hload
  have hbld := (Building.start hfam0 hcr).pages hM hloads
  obtain ⟨hfam3, hzero⟩ := mapExecStack_view hM hbld.family hstackTop hal hstk
  rw [Multiset.cons_swap] at hfam3
  obtain ⟨p', hfree', hfam'⟩ := hfam3.free
  cases hfree.symm.trans hfree'
  exact ⟨htop, hstackTop, hal, hfam', hzero⟩

lemma pokeArgv_low (hM : M.Documented) (hfam : Family K exact s (T ::ₘ R) 0) (htop : IsStackTop top)
    (hbs : argvBytes argv ≤ 3072) : PokedLow K exact T R 0 s (pokeArgv M T top argv s).2 := by
  have hlarge := htop.large
  have htopUser := htop.below (le_refl top)
  have hspc : top - 8 - 4096 + argvBytes argv ≤ USER_SPACE_END := by omega
  have hbel : top - 8 ≤ USER_SPACE_END := (htop.below (Nat.sub_le _ _)).le
  have hstrings := pokeStrings_low hM hfam hspc
  have hwds : PokedLow K exact T R 0 _ (pokeWords M T (top - 8)
      (0 :: (pokeStrings M T (top - 8 - 4096) argv s).1.reverse) _).2 :=
    pokeWords_low hM hstrings.family hbel
  refine (hstrings.trans hwds).trans (pokeWords_low hM hwds.family ?_)
  rw [pokeWords_fst]
  exact (Nat.sub_le _ _).trans hbel

/-- **The arguments of a new program.**  They reach it exactly if there are none. -/
theorem sysExecve_argv_iff (hM : M.Documented)
    (hfam : Family K exact k.machine (p.pml4Phys ::ₘ R) 0) (hcur : k.current = some (pid, p))
    (hfile : k.FileContained M k.kernelPml4 file) (hargc : argv.length ≤ 64)
    (hok : k.sysExecve M file argv = .ok (.ok 0, k')) :
    (∃ p' rsp, k'.procs pid = some p' ∧ p'.userRsp = some rsp ∧
      ArgvLaidOut k'.machine.ram p'.pml4Phys rsp k.randomizeStackBase.1 argv) ↔ argv = [] := by
  obtain ⟨elf, pml4, entry, top, prng, s, p', rfl, hblt, hbs, hmac, hproc, hpml4, hrsp, -⟩ :=
    sysExecve_ok hcur hok
  obtain ⟨htop, hstackTop, hal, hfam', hzero⟩ := execStack_clear hM hfam hcur hfile hblt
  rw [pokeArgv_fst] at hrsp
  rw [← htop]
  have hlarge := hstackTop.large
  -- what has been stored is at the beginning of pages
  have hpoked : PokedLow K exact pml4 R 0 s k'.machine := by
    rw [hmac]
    exact pokeArgv_low hM hfam' hstackTop hbs
  have hclr : ∀ a, top - 4088 ≤ a → a < top → view k'.machine.ram pml4 a = some 0 := by
    intro a hlo hhi
    obtain ⟨ha, hmod⟩ := inExecStack_of_last hal hlo hhi
    rw [hpoked.view a (hstackTop.below_of_lt hhi) hmod]
    exact hzero a ha
  constructor
  · rintro ⟨q, rsp, hq, hqrsp, hlaid⟩
    cases hproc.symm.trans hq
    cases hrsp.symm.trans hqrsp
    rw [hpml4] at hlaid
    -- the stack pointer is not at the beginning of a page, so a zero is there
    have hfst : view k'.machine.ram pml4 (top - 8 - 8 * (argv.length + 1) - 8) = some 0 :=
      hclr _ (by omega) (by omega)
    exact length_eq_zero_iff.mp (eq_zero_of_readsWord hlaid.argc hfst (by omega))
  rintro rfl
  have hword : ∀ a, top - 24 ≤ a → a + 8 ≤ top - 8 → ReadsWord k'.machine.ram pml4 a 0 := by
    intro a hlo hhi
    exact readsWord_zero fun i hi => hclr _ (by omega) (by omega)
  rw [length_nil] at hrsp
  refine ⟨p', _, hproc, hrsp, ?_, ⟨[], rfl, ?_, ?_⟩, ?_⟩
  · rw [hpml4]
    exact hword _ (by omega) (by omega)
  · rw [hpml4, length_nil]
    exact hword _ (by omega) (by omega)
  · intro i hi
    exact absurd hi (Nat.not_lt_zero i)
  rw [length_nil]
  unfold PAGE_SIZE
  omega

/-! ## A small system -/

/-- The first address space of the small system: its page table, and the machine that has it. -/
def firstSpace : Nat × Machine := ((createUserPml4 bootMachine 1).toOption).getD (0, bootMachine)

lemma createUserPml4_firstSpace :
    createUserPml4 bootMachine 1 = .ok (firstSpace.1, firstSpace.2) := by
  cases hcr : createUserPml4 bootMachine 1 with
  | ok r => rw [firstSpace, hcr]; rfl
  | error e =>
    have hok : (createUserPml4 bootMachine 1).isOk = true := by decide +kernel
    rw [hcr] at hok
    cases hok

lemma firstSpace_family :
    Family (fun f => f = 1 ∨ f = 2) False firstSpace.2 (firstSpace.1 ::ₘ 0) 0 :=
  (Building.start (bootMachine_family False) createUserPml4_firstSpace).family

def loneUser : Process := .newUser 2 0 0 firstSpace.1 none 0 1

def loneProcess : Kernel := running loneUser firstSpace.2

/-- No arguments. -/
theorem sysExecve_argv_iff_nil : ∃ k' p' rsp,
    loneProcess.sysExecve referenceMapper (.ok tinyElf) [] = .ok (.ok 0, k') ∧
      k'.procs initSlot = some p' ∧ p'.userRsp = some rsp ∧
      ArgvLaidOut k'.machine.ram p'.pml4Phys rsp loneProcess.randomizeStackBase.1 [] := by
  have hmt : meets (loneProcess.sysExecve referenceMapper (.ok tinyElf) [])
      (fun x => x.1 == .ok 0) = true := by
    decide +kernel
  obtain ⟨⟨r, k'⟩, hok, hr⟩ := exists_of_meets hmt
  obtain rfl : r = .ok 0 := by simpa using hr
  have hcur : loneProcess.current = some (initSlot, loneUser) := rfl
  have hfile : loneProcess.FileContained referenceMapper loneProcess.kernelPml4 (.ok tinyElf) :=
    fileContained_of_plan (by decide +kernel)
  obtain ⟨p', rsp, hp', hrsp, hlaid⟩ :=
    (sysExecve_argv_iff referenceMapper_documented firstSpace_family hcur hfile
      (by decide) hok).mpr rfl
  exact ⟨k', p', rsp, hok, hp', hrsp, hlaid⟩

/-- Init replaces itself with one argument: at the stack pointer of the new program is a zero. -/
theorem sysExecve_loses_argv :
    ∃ k k' pid p p' rsp, Runs referenceMapper (fun _ _ => True) emptyKernel k ∧
    k.current = some (pid, p) ∧ k.sysExecve referenceMapper (.ok tinyElf) [[0x78]] =
      .ok (.ok 0, k') ∧
    k'.procs pid = some p' ∧ p'.userRsp = some rsp ∧
    ¬ ArgvLaidOut k'.machine.ram p'.pml4Phys rsp k.randomizeStackBase.1 [[0x78]] := by
  have hpl : plays referenceMapper (fun _ _ => True) bootEvents emptyKernel (fun k =>
      k.current.any fun c => meets (k.sysExecve referenceMapper (.ok tinyElf) [[0x78]]) fun x =>
        x.1 == .ok 0 && (x.2.procs c.1).any fun p' => p'.userRsp.any fun rsp =>
          view x.2.machine.ram p'.pml4Phys rsp == some 0) = true := by
    decide +kernel
  obtain ⟨k, hrun, htest⟩ := runs_of_plays hpl
  rw [Option.any_eq_true] at htest
  obtain ⟨⟨pid, p⟩, hcur, htest⟩ := htest
  obtain ⟨⟨r, k'⟩, hok, htest⟩ := exists_of_meets htest
  simp only [Bool.and_eq_true, beq_iff_eq, Option.any_eq_true] at htest
  obtain ⟨rfl, p', hp', rsp, hrsp, hzero⟩ := htest
  refine ⟨k, k', pid, p, p', rsp, hrun, hcur, hok, hp', hrsp, fun hlaid => ?_⟩
  exact absurd (eq_zero_of_readsWord hlaid.argc hzero (by decide)) (by decide)

end Kernel

end Indominus.Sys
