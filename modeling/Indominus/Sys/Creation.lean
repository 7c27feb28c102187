import Indominus.Sys.FailedExec

/-! # What a failed creation of a process leaves behind -/

namespace Indominus.Sys

open Lib Memory

namespace Kernel

variable {M : Mapper} {k k' : Kernel} {pid : Pid} {p : Process} {K : Nat → Prop} {exact : Prop}
  {R : Multiset Nat}

/-! ## Kernel stacks -/

/-- The kernel stacks after `sys_fork`; the one that `new_kernel` gets is replaced and freed. -/
def sysForkStacks (k : Kernel) (stack extraStack : Option Nat) (live : Multiset Nat) :
    Multiset Nat :=
  match k.current with
  | none => live
  | some (_, parent) =>
    match createUserPml4 k.machine k.kernelPml4 with
    | .error _ => live
    | .ok (childPml4, s) =>
      match copyUserPages s parent.pml4Phys childPml4 with
      | .error _ | .ok (false, _) => live
      | .ok (true, _) =>
        match stack with
        | none => live
        | some stackBase =>
          match k.freeSlot, extraStack with
          | some _, some leakedKstack => (stackBase ::ₘ leakedKstack ::ₘ live).erase leakedKstack
          | _, _ => stackBase ::ₘ live

/-- Can `spawn_user` build the image of a process from the file? -/
def imageFits (M : Mapper) (k : Kernel) (elf : List Byte) : Bool :=
  k.builds M (mapSpawnStack M) k.cr3 elf

/-- The kernel stacks that are allocated after `spawn_user`: it asks for one when the image is there
and a slot is free. -/
def spawnUserStacks (M : Mapper) (k : Kernel) (elf : List Byte) (stack : Option Nat)
    (live : Multiset Nat) : Multiset Nat :=
  if k.imageFits M elf then
    match k.freeSlot, stack with
    | some _, some stackBase => stackBase ::ₘ live
    | _, _ => live
  else live

/-- The allocator of frames and the set of kernel stacks are what they were. -/
structure Restored (k : Kernel) (live : Multiset Nat) (k' : Kernel)
    (live' : Multiset Nat) : Prop where
  frames : k.machine.pmm.Same k'.machine.pmm
  kernelStacks : live' = live

lemma not_restored_of_bit {live live' : Multiset Nat} {f : Nat}
    (hfree : k.machine.pmm.bitmapTest f = false) (hset : k'.machine.pmm.bitmapTest f = true) :
    ¬ Restored k live k' live' := by
  intro h
  rw [Pmm.bitmapTest, h.frames.bitmap] at hset
  rw [Pmm.bitmapTest, hset] at hfree
  cases hfree

/-! ## `sys_fork` -/

variable {stack parent : Option Nat} {elf : List Byte}

lemma sysFork_keeps_pml4 (hfam : Family K exact k.machine R 0) (hcard : R.card ≤ 254)
    (hcur : k.current = some (pid, p)) (hp : p.pml4Phys ∈ R) {extraStack : Option Nat}
    {r : SysResult} (h : k.sysFork stack extraStack = .ok (r, k')) :
    ∃ c, k.machine.pmm.bitmapTest c = false ∧ k'.machine.pmm.bitmapTest c = true := by
  obtain ⟨c, s1, b, s2, hcr, hcopy, hk'⟩ := sysFork_cases hcur h
  have hmac : k'.machine = s2 := by
    rcases hk' with rfl | ⟨-, slot, stackBase, -, -, rfl⟩
    · rfl
    · rfl
  have hcreated := (createUserPml4_outcome hfam.own k.kernelPml4).ok _ hcr
  obtain ⟨R', rfl⟩ := Multiset.exists_cons_of_mem hp
  have hcard' : R'.card ≤ 253 := by
    rw [Multiset.card_cons] at hcard
    omega
  obtain ⟨b', s', hcopy', hcopied, -⟩ :=
    (hfam.create hcreated).1.copy (fun i hi => hcreated.lower i hi) hcard'
  cases hcopy.symm.trans hcopy'
  refine ⟨c, hcreated.fresh, ?_⟩
  -- the copy owns the PML4, whole or empty
  have hmem : (c, true) ∈ (if b then holds s2.ram 3 c else {(c, true)}) := by
    split
    · exact table_mem_holds _ 3 c
    · exact Multiset.mem_singleton_self _
  rw [hmac]
  exact (hcopied.own.claimed (Multiset.mem_add.mpr (.inl (Multiset.mem_add.mpr (.inr hmem))))).1

/-! ## `spawn_user` -/

lemma spawnUser_none (h : k.spawnUser M elf parent stack = .ok (none, k')) :
    ∃ pml4 s1 s2, createUserPml4 k.machine k.cr3 = .ok (pml4, s1) ∧
      ImageBuild M (mapSpawnStack M pml4) elf pml4 s1 (k.imageFits M elf) s2 ∧
      ((k.imageFits M elf = false ∧ freeUserAddressSpace s2 pml4 = .ok k'.machine) ∨
        (k.imageFits M elf = true ∧ k'.machine = s2 ∧ (k.freeSlot = none ∨ stack = none))) := by
  obtain ⟨pml4, s1, b, s2, prng, hcr, himg, rfl, hend⟩ := spawnUser_cases h
  refine ⟨pml4, s1, s2, hcr, himg, hend.imp ?_ ?_⟩
  · rintro ⟨hfits, -, s3, hfree, rfl⟩
    exact ⟨hfits, hfree⟩
  rintro ⟨hfits, rip, rsp, hslot⟩
  refine ⟨hfits, ?_⟩
  unfold spawnUserSlot at hslot
  split at hslot
  · rename_i hfull
    cases hslot
    exact ⟨rfl, .inl hfull⟩
  dsimp only at hslot
  split at hslot
  · cases hslot
    exact ⟨rfl, .inr rfl⟩
  · cases hslot

/-- A failed spawn leaks exactly if the image was built before it failed. -/
lemma spawnUser_restores (hM : M.Documented) (hfam : Family K exact k.machine R 0)
    (hsnd : k.machine.pmm.Sound) (helf : k.FileContained M k.cr3 (.ok elf))
    (h : k.spawnUser M elf parent stack = .ok (none, k')) (live : Multiset Nat) :
    Restored k live k' (k.spawnUserStacks M elf stack live) ↔
      ¬(k.imageFits M elf = true ∧ (k.freeSlot = none ∨ stack = none)) := by
  obtain ⟨pml4, s1, s2, hcr, himg, hend⟩ := spawnUser_none h
  have hbld := himg.building (helf _ _ _ rfl hcr) (mapsStack_spawn M pml4) hM hfam hcr
  rcases hend with ⟨hfits, hfree⟩ | ⟨hfits, hmac, hfull⟩
  · have hrestored : Restored k live k' (k.spawnUserStacks M elf stack live) := by
      obtain ⟨p', hfree', -, hsame⟩ := hbld.discard
      have heq : k'.machine = { s2 with pmm := p' } := Except.ok.inj (hfree.symm.trans hfree')
      refine ⟨?_, ?_⟩
      · rw [heq]
        exact hsame hsnd
      · simp [spawnUserStacks, hfits]
    simp [hrestored, hfits]
  have hnot : ¬ Restored k live k' (k.spawnUserStacks M elf stack live) := by
    -- the PML4 of the new image was free, and nobody frees it
    refine not_restored_of_bit (f := pml4) ?_ ?_
    · exact hbld.fresh _ (Radix.table_mem_visit pageTree s2.ram.tables 3 pml4)
    rw [hmac]
    exact hbld.family.bit_of_mem (by simp)
      (Radix.table_mem_visit pageTree s2.ram.tables 3 pml4)
  simp [hnot, hfits, hfull]

/-! ## Both -/

/-- **When a failed creation leaks nothing.**  A failed `sys_fork` always leaks, a failed
`spawn_user` if the image could be built. -/
theorem creation_restores_iff (hM : M.Documented) (hfam : Family K exact k.machine R 0)
    (hsound : k.machine.pmm.Sound) (hcard : R.card ≤ 254)
    (hcurrent : ∀ x ∈ k.current, x.2.pml4Phys ∈ R) (live : Multiset Nat) :
    (∀ stack extraStack k', k.sysFork stack extraStack = .ok (.error .ENOMEM, k') →
      ¬ Restored k live k' (k.sysForkStacks stack extraStack live)) ∧
    ∀ elf parent stack k', k.FileContained M k.cr3 (.ok elf) →
      k.spawnUser M elf parent stack = .ok (none, k') →
      (Restored k live k' (k.spawnUserStacks M elf stack live) ↔
        ¬(k.imageFits M elf = true ∧ (k.freeSlot = none ∨ stack = none))) := by
  constructor
  · intro stack extraStack k' h
    cases hcur : k.current with
    | none => simp [sysFork, hcur] at h
    | some x =>
      obtain ⟨c, hfree, hset⟩ := sysFork_keeps_pml4 hfam hcard hcur (hcurrent _ hcur) h
      exact not_restored_of_bit hfree hset
  · intro elf parent stack k' helf h
    exact spawnUser_restores hM hfam hsound helf h live

/-- Five pages, which take 12 frames with their tables. -/
def largeElf : List Byte :=
  zeroElf [(0x400000, 1), (0x40400000, 1), (0x80400000, 1), (0x401000, 1), (0x402000, 1)]

/-- The frames run out in the middle of the file: `spawn_user` gives back what it has taken. -/
theorem creation_restores_iff_largeElf : ∃ k',
    emptyProcess.spawnUser referenceMapper largeElf none (some 0x10000) = .ok (none, k') ∧
      Restored emptyProcess 0 k'
        (emptyProcess.spawnUserStacks referenceMapper largeElf (some 0x10000) 0) := by
  have hmt : meets (emptyProcess.spawnUser referenceMapper largeElf none (some 0x10000))
      (fun x => x.1.isNone) = true := by
    decide +kernel
  obtain ⟨⟨r, k'⟩, hsp, hr⟩ := exists_of_meets hmt
  obtain rfl : r = none := by simpa using hr
  have hcurrent : ∀ x ∈ emptyProcess.current, x.2.pml4Phys ∈ (2 ::ₘ 0 : Multiset Nat) := by
    rintro x ⟨⟩
    decide
  have hiff := (creation_restores_iff referenceMapper_documented emptyProcess_family
    emptyProcess_sound (by decide) hcurrent 0).2 largeElf none _ k'
    (fileContained_of_plan (by decide +kernel)) hsp
  refine ⟨k', hsp, hiff.mpr ?_⟩
  rintro ⟨-, hslot | hstack⟩
  · exact absurd hslot (by decide)
  · cases hstack

/-- With an empty kernel heap, `spawn_user` keeps the image and `sys_fork` the copy of init's
address space. -/
theorem creation_leaks :
    (∃ k', emptyKernel.spawnUser referenceMapper tinyElf none none = .ok (none, k') ∧
      k'.machine.pmm.freeFrames < emptyKernel.machine.pmm.freeFrames) ∧
    ∃ k k', Runs referenceMapper (fun _ _ => True) emptyKernel k ∧
      k.sysFork none none = .ok (.error .ENOMEM, k') ∧
      k'.machine.pmm.freeFrames < k.machine.pmm.freeFrames := by
  constructor
  · have hmt : meets (emptyKernel.spawnUser referenceMapper tinyElf none none) (fun x =>
        x.1.isNone && decide (x.2.machine.pmm.freeFrames < emptyKernel.machine.pmm.freeFrames)) =
        true := by
      decide +kernel
    obtain ⟨⟨r, k'⟩, hsp, htest⟩ := exists_of_meets hmt
    simp only [Bool.and_eq_true, Option.isNone_iff_eq_none, decide_eq_true_iff] at htest
    obtain ⟨rfl, hlt⟩ := htest
    exact ⟨k', hsp, hlt⟩
  have hpl : plays referenceMapper (fun _ _ => True) bootEvents emptyKernel (fun k =>
      meets (k.sysFork none none) fun x => x.1 == .error .ENOMEM &&
        decide (x.2.machine.pmm.freeFrames < k.machine.pmm.freeFrames)) = true := by
    decide +kernel
  obtain ⟨k, hrun, htest⟩ := runs_of_plays hpl
  obtain ⟨⟨r, k'⟩, hfork, htest⟩ := exists_of_meets htest
  simp only [Bool.and_eq_true, beq_iff_eq, decide_eq_true_iff] at htest
  obtain ⟨rfl, hlt⟩ := htest
  exact ⟨k, k', hrun, hfork, hlt⟩

end Kernel

end Indominus.Sys
