import Indominus.Memory.LoadFill
import Indominus.Sys.Steps

/-! # Building the image of a process -/

namespace Indominus.Sys

open Lib Memory

variable {M : Mapper} {s s' : Machine} {T top : Nat} {flags : Word} {clear : Bool}

/-! ## Stacks -/

def StackFlags (flags : Word) : Prop := Pte.IsFlags flags ∧ Pte.isPresent flags = true

instance (flags : Word) : Decidable (StackFlags flags) := inferInstanceAs (Decidable ((_ = _) ∧ _))

lemma mapZeroedPage_cases {va : Nat} (hva : va < USER_SPACE_END) (hfl : StackFlags flags)
    (h : mapZeroedPage M clear s T va flags = .ok (some s')) : MapsPage M T s s' := by
  unfold mapZeroedPage at h
  split at h
  · cases h
  rename_i f s1 hall
  split at h
  · cases h
  rename_i s2 hmap
  cases Except.ok.inj h
  split
  · exact .of_allocateFrame hall hmap hva hfl.1 hfl.2 fun g hg =>
      PhysMem.page_zeroPage_of_ne hg
  · exact .of_allocateFrame hall hmap hva hfl.1 hfl.2 fun _ _ => rfl

lemma mapZeroedPages_cases {vas : List Nat} (hvas : ∀ va ∈ vas, va < USER_SPACE_END)
    (hfl : StackFlags flags) {b : Bool}
    (h : mapZeroedPages M clear T flags vas s = .ok (b, s')) : MapsPages M T s s' := by
  induction vas generalizing s with
  | nil =>
    cases h
    exact .refl
  | cons va vas ih =>
    rw [mapZeroedPages] at h
    split at h
    · cases h
    · cases h
      exact .refl
    rename_i s1 hpage
    have hfst := mapZeroedPage_cases (hvas va (by simp)) hfl hpage
    exact .head hfst (ih (fun va' hva' => hvas va' (by simp [hva'])) h)

lemma Kernel.IsStackTop.below (h : IsStackTop top) {va : Nat} (hva : va ≤ top) :
    va < USER_SPACE_END := by
  have htop := h.1
  simp only [USER_STACK_TOP] at htop
  simp only [USER_SPACE_END]
  omega

lemma mapSpawnStack_cases (htop : Kernel.IsStackTop top) {b : Bool}
    (h : mapSpawnStack M T top s = .ok (b, s')) : MapsPages M T s s' := by
  rw [mapSpawnStack] at h
  split at h
  · cases h
  · cases h
    exact .refl
  rename_i s1 hgd
  have hfst := mapZeroedPage_cases (htop.below (Nat.sub_le _ _)) (by decide) hgd
  refine .head hfst (mapZeroedPages_cases ?_ (by decide) h)
  intro va hva
  obtain ⟨i, -, rfl⟩ := List.mem_map.mp hva
  exact htop.below (Nat.sub_le _ _)

lemma mapExecStack_cases (htop : Kernel.IsStackTop top) {b : Bool}
    (h : mapExecStack M T top s = .ok (b, s')) : MapsPages M T s s' := by
  have hpgs : ∀ va ∈ execStackPages top, va < USER_SPACE_END := by
    intro va hva
    obtain ⟨i, hi, rfl⟩ := List.mem_map.mp hva
    have hlow := htop.2
    rw [List.mem_range] at hi
    apply htop.below
    simp only [USER_STACK_TOP] at hlow
    simp only [PAGE_SIZE]
    omega
  rw [mapExecStack] at h
  split at h
  · cases h
  · rename_i s1 hstk
    cases h
    exact mapZeroedPages_cases hpgs (by decide) hstk
  rename_i s1 hstk
  have hfst := mapZeroedPages_cases hpgs (by decide) hstk
  split at h
  · cases h
  · cases h
    exact hfst
  rename_i s2 hgd
  cases h
  have hva : top - 4 * PAGE_SIZE - PAGE_SIZE < USER_SPACE_END := htop.below (by omega)
  exact hfst.tail (mapZeroedPage_cases hva (by decide) hgd)

/-! ## Images -/

namespace Kernel

/-- The stacks of `spawn_user` and of the exec calls are sequences of rounds. -/
def MapsStack (M : Mapper) (T : Nat) (mapStack : Nat → Machine → Except Panic (Bool × Machine)) :
    Prop :=
  ∀ top s b s', IsStackTop top → mapStack top s = .ok (b, s') → MapsPages M T s s'

lemma mapsStack_spawn (M : Mapper) (T : Nat) : MapsStack M T (mapSpawnStack M T) :=
  fun _ _ _ _ htop h => mapSpawnStack_cases htop h

lemma mapsStack_exec (M : Mapper) (T : Nat) : MapsStack M T (mapExecStack M T) :=
  fun _ _ _ _ htop h => mapExecStack_cases htop h

variable {mapStack : Nat → Machine → Except Panic (Bool × Machine)} {elf : List Byte} {b : Bool}

section

variable (h : ImageBuild M mapStack elf T s b s') (helf : LoadContained M elf T s)
  (hstk : MapsStack M T mapStack)

include h helf hstk

lemma ImageBuild.pages : MapsPages M T s s' := by
  have hload := loadElf_cases helf
  cases h with
  | badElf hbad => exact hload.error _ hbad _ _ rfl
  | stack hok htop hs => exact (hload.ok _ hok).trans (hstk _ _ _ _ htop hs)

lemma ImageBuild.building {K : Nat → Prop} {exact : Prop} {R : Multiset Nat} {Z : Claims Nat}
    {s0 : Machine} {src : Nat} (hM : M.Documented) (hfam : Family K exact s0 R Z)
    (hcr : createUserPml4 s0 src = .ok (T, s)) : Building K exact R Z src s0 T s' :=
  (Building.start hfam hcr).pages hM (h.pages helf hstk)

end

/-! ## What becomes of memory -/

section Memory

variable {k : Kernel} {file : BytesResult} {old pml4 : Nat}
variable {K : Nat → Prop} {exact : Prop} {R : Multiset Nat}

/-- What the loader gets to, in a new address space made from `src`, stays inside its frames. -/
def FileContained (M : Mapper) (k : Kernel) (src : Nat) (file : BytesResult) : Prop :=
  ∀ elf pml4 s, file = .ok elf → createUserPml4 k.machine src = .ok (pml4, s) →
    LoadContained M elf pml4 s

lemma fileContained_of_plan {src : Nat} (h : ∀ r ∈ (plan elf).1, r.Within) :
    k.FileContained M src (.ok elf) := by
  rintro _ pml4 s ⟨⟩ - f hf
  exact h _ (toPageRound_mem hf)

lemma ExecFailed.memory (h : ExecFailed M k file s) (hM : M.Documented)
    (hfam : Family K exact k.machine R 0) (hfile : k.FileContained M k.kernelPml4 file) :
    Family K exact s R 0 ∧ (k.machine.pmm.Sound → k.machine.pmm.Same s.pmm) ∧
      ∀ f, k.machine.pmm.bitmapTest f = true → s.ram.page f = k.machine.ram.page f := by
  obtain ⟨-, rfl | ⟨elf, pml4, s1, s2, helf, hcr, himg, hfree⟩⟩ := h
  · exact ⟨hfam, fun _ => .refl _, fun _ _ => rfl⟩
  have hbld := himg.building (hfile _ _ _ helf hcr) (mapsStack_exec M pml4) hM hfam hcr
  obtain ⟨p', hfree', hfam', hsame⟩ := hbld.discard
  cases hfree.symm.trans hfree'
  exact ⟨hfam', hsame, fun f hf => (hbld.grows f hf).2 not_false⟩

lemma ExecReplaced.memory (h : ExecReplaced M k file old pml4 s) (hM : M.Documented)
    (hfam : Family K exact k.machine (old ::ₘ R) 0)
    (hfile : k.FileContained M k.kernelPml4 file) :
    Family K exact s (pml4 ::ₘ R) 0 ∧ k.machine.pmm.bitmapTest pml4 = false ∧
      s.pmm.bitmapTest old = false ∧
      (∀ f, k.machine.pmm.bitmapTest f = true → s.ram.page f = k.machine.ram.page f) ∧
      (k.machine.pmm.bitmapTest k.kernelPml4 = true → ∀ i, 256 ≤ i → i < 512 →
        s.ram.entry pml4 i = k.machine.ram.entry k.kernelPml4 i) := by
  obtain ⟨-, elf, s1, s2, helf, hcr, himg, hfree⟩ := h
  have hbld := himg.building (hfile _ _ _ helf hcr) (mapsStack_exec M pml4) hM hfam hcr
  have hswap : Family K exact s2 (old ::ₘ pml4 ::ₘ R) 0 := by
    rw [Multiset.cons_swap]
    exact hbld.family
  obtain ⟨p', hfree', hfam'⟩ := hswap.free
  cases hfree.symm.trans hfree'
  refine ⟨hfam', ?_, ?_, fun f hf => (hbld.grows f hf).2 not_false, hbld.upper⟩
  · exact hbld.fresh _ (Radix.table_mem_visit pageTree s2.ram.tables 3 pml4)
  · exact freeUserAddressSpace_free hfree'

end Memory

/-! ## The machine at boot -/

lemma bootMachine_refcount {f : Nat} (hf : 0 < bootMachine.pmm.refcount f) : f = 1 ∨ f = 2 := by
  by_contra hnot
  obtain ⟨h1, h2⟩ := not_or.mp hnot
  simp [bootMachine, Pmm.refcount, Store.get_set, Store.get_const, h1, h2] at hf

lemma bootMachine_family (exact : Prop) :
    Family (fun f => f = 1 ∨ f = 2) exact bootMachine 0 0 := by
  constructor
  · refine ⟨⟨fun f => Nat.zero_le _, fun c hc => ?_, fun _ c hc => ?_⟩, fun f hf => ?_,
      ?_, by decide⟩
    · simp at hc
    · simp at hc
    · rcases bootMachine_refcount hf with rfl | rfl <;> decide
    · rintro f (rfl | rfl) <;> decide
  · intro T hT
    simp at hT

end Kernel

end Indominus.Sys
