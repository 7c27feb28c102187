import Indominus.Memory.EagerCopy
import Indominus.Sys.Image
import Indominus.Sys.PipeRefs
import Indominus.Sys.System

/-! # What a failed exec changes -/

namespace Indominus.Sys.Kernel

open Lib Memory

variable {M : Mapper} {k k' : Kernel} {pid : Pid} {p : Process} {K : Nat → Prop} {exact : Prop}
  {R : Multiset Nat} {file : BytesResult} {s : Machine}

/-! ## The whole calls -/

/-- The start of both calls: the path has been read from user memory, and must not be empty. -/
def withPath (k : Kernel) (path : BytesResult)
    (body : List Byte → CallOutcome) : CallOutcome :=
  match path with
  | .error e => .ok (.error e, k)
  | .ok name => if name = [] then .ok (.error .EINVAL, k) else body name

/-- `sys_exec` with the path that it has read; `readFile` is the virtual file system. -/
def execCall (M : Mapper) (k : Kernel) (readFile : List Byte → BytesResult)
    (path : BytesResult) : CallOutcome :=
  k.withPath path fun name => k.sysExec M (readFile name)

/-- `sys_execve` with the path and the arguments that it has read. -/
def execveCall (M : Mapper) (k : Kernel) (readFile : List Byte → BytesResult)
    (path : BytesResult) (argv : List (List Byte)) : CallOutcome :=
  k.withPath path fun name => k.sysExecve M (readFile name) argv

/-! ## The property and the condition -/

/-- The process has what it had, what its page table leads to is as it was, and nothing new is
allocated. -/
structure ExecUnchanged (k : Kernel) (pid : Pid) (p : Process) (k' : Kernel) : Prop where
  process : ∃ p', k'.procs pid = some p' ∧ p'.pml4Phys = p.pml4Phys ∧ p'.fdTypes = p.fdTypes ∧
    p'.fdFlags = p.fdFlags ∧ p'.fileHandles = p.fileHandles ∧ p'.heapStart = p.heapStart ∧
    p'.heapEnd = p.heapEnd ∧ p'.mmapRegions = p.mmapRegions
  pipes : k'.pipes = k.pipes
  frames : ∀ u ∈ uses k.machine.ram 3 p.pml4Phys, k'.machine.pmm.bitmapTest u.frame = true ∧
    k'.machine.ram.page u.frame = k.machine.ram.page u.frame ∧
    k'.machine.pmm.refcount u.frame = k.machine.pmm.refcount u.frame
  freed : ∀ f, k'.machine.pmm.bitmapTest f = true → k.machine.pmm.bitmapTest f = true

/-- No descriptor is closed for nothing, and `completes`, the checks that come last, pass. -/
def ExecHarmless (M : Mapper) (k : Kernel) (p : Process)
    (readFile : List Byte → BytesResult) (path : BytesResult)
    (completes : Prop) : Prop :=
  ∀ name, path = .ok name → name ≠ [] →
    if k.execFits M (readFile name) = true then completes else ∀ fd, closesOnExec p fd = false

/-! ## The two ways to fail -/

lemma execFits_closeOnExec (hcur : k.current = some (pid, p)) :
    k.closeOnExec.execFits M file = k.execFits M file := by
  rw [closeOnExec_eq hcur]
  rfl

lemma machine_closeOnExec (hcur : k.current = some (pid, p)) :
    k.closeOnExec.machine = k.machine := by
  rw [closeOnExec_eq hcur]
  rfl

lemma afterCloexec_fdTypes (p : Process) (fd : Fd) :
    (afterCloexec p).fdTypes fd = if closesOnExec p fd = true then .none else p.fdTypes fd := by
  rw [afterCloexec, foldl_cloexecStep_fdTypes (List.nodup_finRange _)]
  simp

lemma fdTypes_ne_none {fd : Fd} (h : closesOnExec p fd = true) : p.fdTypes fd ≠ .none := by
  intro hnone
  simp [closesOnExec, hnone] at h

lemma pml4Phys_afterCloexec (p : Process) : (afterCloexec p).pml4Phys = p.pml4Phys := by
  obtain ⟨fds, handles, heq⟩ := afterCloexec_eq p
  rw [heq]

lemma fileContained_closeOnExec (hcur : k.current = some (pid, p)) :
    k.closeOnExec.FileContained M k.closeOnExec.kernelPml4 file ↔
      k.FileContained M k.kernelPml4 file := by
  rw [closeOnExec_eq hcur]
  rfl

section Failing

variable (hM : M.Documented) (hfam : Family K exact k.machine (p.pml4Phys ::ₘ R) 0)
  (hcur : k.current = some (pid, p)) (hfile : k.FileContained M k.kernelPml4 file)

include hM hfam hcur hfile

lemma ExecFailed.unchanged_iff {k0 : Kernel} {r : SysResult} {completes : Prop}
    (h : ExecFailed M k0 file s) (hsound : k.machine.pmm.Sound) (hk0 : k0 = k.closeOnExec)
    (hr : ∃ e, r = .error e) (hprs : k'.procs = k0.procs) (hpip : k'.pipes = k0.pipes)
    (hmac : k'.machine = s) :
    (∀ e, r = .error e → ExecUnchanged k pid p k') ↔
      if k.execFits M file = true then completes else ∀ fd, closesOnExec p fd = false := by
  subst hk0
  obtain ⟨e, rfl⟩ := hr
  have hproc : k'.procs pid = some (afterCloexec p) := by
    rw [hprs]
    exact (current_eq_some.mp (closeOnExec_current hcur)).2
  have hfits := h.1
  rw [execFits_closeOnExec hcur] at hfits
  rw [hfits, if_neg (by simp)]
  constructor
  · intro hsame fd
    obtain ⟨p', hp', -, htypes, -⟩ := (hsame e rfl).process
    obtain rfl := Option.some.inj (hproc.symm.trans hp')
    by_contra hcloses
    rw [Bool.not_eq_false] at hcloses
    have htype := congrFun htypes fd
    rw [afterCloexec_fdTypes, if_pos hcloses] at htype
    exact fdTypes_ne_none hcloses htype.symm
  intro hnone _ _
  obtain ⟨hk, hp⟩ := closeOnExec_of_none hcur hnone
  rw [hk] at h hpip
  rw [hp] at hproc
  obtain ⟨-, hsame, hpgs⟩ := h.memory hM hfam hfile
  have hsame := hsame hsound
  have hbit : ∀ f, s.pmm.bitmapTest f = k.machine.pmm.bitmapTest f := by
    intro f
    rw [Pmm.bitmapTest, Pmm.bitmapTest, hsame.bitmap]
  refine ⟨⟨p, hproc, rfl, rfl, rfl, rfl, rfl, rfl, rfl⟩, hpip, fun u hu => ?_, fun f hf => ?_⟩
  · have hused := hfam.bit_of_mem (Multiset.mem_cons_self _ _) hu
    rw [hmac, hbit]
    exact ⟨hused, hpgs _ hused, hsame.refcounts _⟩
  · rwa [hmac, hbit] at hf

lemma ExecReplaced.pml4_ne {k0 : Kernel} {pml4 : Nat} (h : ExecReplaced M k0 file p.pml4Phys pml4 s)
    (hk0 : k0 = k.closeOnExec) : pml4 ≠ p.pml4Phys := by
  subst hk0
  have hmac := machine_closeOnExec hcur
  obtain ⟨-, hfr, -⟩ := h.memory hM (hmac ▸ hfam) ((fileContained_closeOnExec hcur).mpr hfile)
  have hused := hfam.bit_of_mem (Multiset.mem_cons_self _ _)
    (Radix.table_mem_visit pageTree k.machine.ram.tables 3 p.pml4Phys)
  rintro rfl
  rw [hmac] at hfr
  cases hfr.symm.trans hused

end Failing

lemma not_unchanged_of_pml4 {p' : Process} (hp' : k'.procs pid = some p')
    (hne : p'.pml4Phys ≠ p.pml4Phys) : ¬ ExecUnchanged k pid p k' := by
  intro h
  obtain ⟨q, hq, hpml4, -⟩ := h.process
  obtain rfl := Option.some.inj (hp'.symm.trans hq)
  exact hne hpml4

lemma not_unchanged_of_free (hfree : k'.machine.pmm.bitmapTest p.pml4Phys = false) :
    ¬ ExecUnchanged k pid p k' := by
  intro h
  have hbit := (h.frames _ (Radix.table_mem_visit pageTree k.machine.ram.tables 3 p.pml4Phys)).1
  rw [Radix.Use.frame_table, hfree] at hbit
  cases hbit

lemma execResult_eq (p : Process) : (afterCloexec p).execResult = p.execResult := by
  obtain ⟨fds, handles, heq⟩ := afterCloexec_eq p
  rw [heq]
  rfl

lemma execResult_error_iff : (∃ e, p.execResult = .error e) ↔ p.stackPointer = 0 := by
  unfold Process.execResult
  split <;> simp_all

/-! ## The calls -/

lemma error_imp_iff {r : SysResult} {U : Prop} (hU : ¬U) :
    (∀ e, r = .error e → U) ↔ ¬∃ e, r = .error e := by
  constructor
  · rintro h ⟨e, he⟩
    exact hU (h e he)
  · intro h e he
    exact (h ⟨e, he⟩).elim

lemma ExecReplaced.old_free {old pml4 : Nat} (h : ExecReplaced M k file old pml4 s) :
    s.pmm.bitmapTest old = false := by
  obtain ⟨-, elf, s1, s2, -, -, -, hfree⟩ := h
  exact freeUserAddressSpace_free hfree

section Calls

variable (hM : M.Documented) (hfam : Family K exact k.machine (p.pml4Phys ::ₘ R) 0)
  (hsound : k.machine.pmm.Sound) (hcur : k.current = some (pid, p))
  (hfile : k.FileContained M k.kernelPml4 file) {r : SysResult}

include hM hfam hsound hcur hfile

lemma sysExec_unchanged_iff (h : k.sysExec M file = .ok (r, k')) :
    (∀ e, r = .error e → ExecUnchanged k pid p k') ↔
      if k.execFits M file = true then p.stackPointer ≠ 0 else ∀ fd, closesOnExec p fd = false := by
  obtain ⟨k0, p0, s, prng, hk0, hp0, -, ⟨hfailed, hr, hk'⟩ | ⟨elf, pml4, entry, top, rfl, hblt,
    hr, hk'⟩⟩ :=
    sysExec_result hcur h
  · exact hfailed.unchanged_iff hM hfam hcur hfile hsound hk0 hr (by rw [hk']) (by rw [hk'])
      (by rw [hk'])
  have hrep := hblt.replaced
  rw [hp0, pml4Phys_afterCloexec] at hrep
  have hfits : k.execFits M (.ok elf) = true := execFits_closeOnExec hcur ▸ hk0 ▸ hrep.1
  have hproc := (congrFun (congrArg procs hk') pid).trans (Function.update_self ..)
  rw [if_pos hfits, hr, hp0, execResult_eq,
    error_imp_iff (not_unchanged_of_pml4 hproc (hrep.pml4_ne hM hfam hcur hfile hk0)),
    execResult_error_iff]

lemma sysExecve_unchanged_iff {argv : List (List Byte)}
    (h : k.sysExecve M file argv = .ok (r, k')) :
    (∀ e, r = .error e → ExecUnchanged k pid p k') ↔
      if k.execFits M file = true then p.stackPointer ≠ 0 ∧ argvBytes argv ≤ 3072
      else ∀ fd, closesOnExec p fd = false := by
  obtain ⟨k0, p0, s, prng, hk0, hp0, -,
    ⟨hfailed, hr, hk'⟩ | ⟨elf, pml4, entry, top, rfl, hblt, hend⟩⟩ :=
    sysExecve_result hcur h
  · exact hfailed.unchanged_iff hM hfam hcur hfile hsound hk0 hr (by rw [hk']) (by rw [hk'])
      (by rw [hk'])
  have hrep := hblt.replaced
  rw [hp0, pml4Phys_afterCloexec] at hrep
  have hfits : k.execFits M (.ok elf) = true := execFits_closeOnExec hcur ▸ hk0 ▸ hrep.1
  rw [if_pos hfits]
  rcases hend with ⟨hbig, hr, hk'⟩ | ⟨hsm, hr, hk'⟩
  · -- the old address space is gone, and the process still has it on record
    have hgone : k'.machine.pmm.bitmapTest p.pml4Phys = false := by
      rw [hk']
      exact hrep.old_free
    rw [error_imp_iff (not_unchanged_of_free hgone), hr]
    refine iff_of_false (fun hno => hno ⟨_, rfl⟩) fun hok => ?_
    exact absurd hok.2 (Nat.not_le_of_lt hbig)
  have hproc := (congrFun (congrArg procs hk') pid).trans (Function.update_self ..)
  rw [hr, hp0, execResult_eq,
    error_imp_iff (not_unchanged_of_pml4 hproc (hrep.pml4_ne hM hfam hcur hfile hk0)),
    execResult_error_iff]
  exact ⟨fun hsp => ⟨hsp, hsm⟩, fun hok => hok.1⟩

end Calls

lemma ExecUnchanged.refl (hfam : Family K exact k.machine (p.pml4Phys ::ₘ R) 0)
    (hcur : k.current = some (pid, p)) : ExecUnchanged k pid p k :=
  ⟨⟨p, (procs_of_current hcur), rfl, rfl, rfl, rfl, rfl, rfl, rfl⟩, rfl,
    fun _ hu => ⟨hfam.bit_of_mem (Multiset.mem_cons_self _ _) hu, rfl, rfl⟩, fun _ hf => hf⟩

lemma withPath_unchanged_iff (hfam : Family K exact k.machine (p.pml4Phys ::ₘ R) 0)
    (hcur : k.current = some (pid, p)) {readFile : List Byte → BytesResult}
    {path : BytesResult} {body : List Byte → CallOutcome}
    {completes : Prop} {r : SysResult}
    (hbody : ∀ name, path = .ok name → body name = .ok (r, k') →
      ((∀ e, r = .error e → ExecUnchanged k pid p k') ↔
      if k.execFits M (readFile name) = true then completes else ∀ fd, closesOnExec p fd = false))
    (h : k.withPath path body = .ok (r, k')) :
    (∀ e, r = .error e → ExecUnchanged k pid p k') ↔
      k.ExecHarmless M p readFile path completes := by
  unfold withPath at h
  split at h
  · obtain ⟨rfl, rfl⟩ := Prod.mk.inj (Except.ok.inj h)
    refine iff_of_true (fun _ _ => .refl hfam hcur) ?_
    rintro name ⟨⟩
  rename_i name
  split at h
  · rename_i hemp
    obtain ⟨rfl, rfl⟩ := Prod.mk.inj (Except.ok.inj h)
    refine iff_of_true (fun _ _ => .refl hfam hcur) ?_
    rintro name ⟨⟩ hne
    exact absurd hemp hne
  rename_i hne
  rw [hbody name rfl h]
  constructor
  · rintro hcond name' ⟨⟩ -
    exact hcond
  · exact fun hcond => hcond name rfl hne

/-- **When a failed exec changes nothing.**  Descriptors are closed before the file is looked for,
and two checks come after the teardown. -/
theorem failed_exec_unchanged_iff (hM : M.Documented)
    (hfam : Family K exact k.machine (p.pml4Phys ::ₘ R) 0) (hsound : k.machine.pmm.Sound)
    (hcur : k.current = some (pid, p)) (readFile : List Byte → BytesResult)
    (path : BytesResult)
    (hfile : ∀ name, path = .ok name → k.FileContained M k.kernelPml4 (readFile name)) :
    (∀ r k', k.execCall M readFile path = .ok (r, k') →
      ((∀ e, r = .error e → ExecUnchanged k pid p k') ↔
        k.ExecHarmless M p readFile path (p.stackPointer ≠ 0))) ∧
    ∀ argv r k', k.execveCall M readFile path argv = .ok (r, k') →
      ((∀ e, r = .error e → ExecUnchanged k pid p k') ↔
        k.ExecHarmless M p readFile path (p.stackPointer ≠ 0 ∧ argvBytes argv ≤ 3072)) := by
  constructor
  · intro r k' h
    exact withPath_unchanged_iff hfam hcur
      (fun name hname => sysExec_unchanged_iff hM hfam hsound hcur (hfile name hname)) h
  intro argv r k' h
  exact withPath_unchanged_iff hfam hcur
    (fun name hname => sysExecve_unchanged_iff hM hfam hsound hcur (hfile name hname)) h

/-! ## A small system -/

/-- A kernel in which a process runs alone. -/
def running (p : Process) (s : Machine) : Kernel :=
  { emptyKernel with
    machine := s
    procs := fun pid => if pid = initSlot then some p else none
    currentPid := some initSlot }

def emptyUser : Process := .newUser 2 0 0 2 none 0 1

/-- The address space of the process is empty. -/
def emptyProcess : Kernel := running emptyUser Spaces.emptySpace

lemma emptyProcess_family : Family (fun _ => False) False emptyProcess.machine (2 ::ₘ 0) 0 := by
  refine ⟨?_, Spaces.emptySpace_family.linear⟩
  have hown := Spaces.emptySpace_family.own
  rw [add_left_comm] at hown
  exact hown.forget

lemma emptyProcess_sound : emptyProcess.machine.pmm.Sound where
  unreferenced f hf := by
    by_contra hne
    have hused := (Spaces.emptySpace_family.own.used f (Nat.pos_of_ne_zero hne)).1
    exact absurd (hused.symm.trans hf) (by decide)
  counter := by decide

/-- The file does not exist, and no descriptor is closed on exec. -/
theorem failed_exec_unchanged_iff_noFile : ∃ k',
    emptyProcess.execCall referenceMapper (fun _ => .error .ENOENT) (.ok [0x78]) =
      .ok (.error .ENOENT, k') ∧
    ExecUnchanged emptyProcess initSlot emptyUser k' := by
  have hmt : meets (emptyProcess.execCall referenceMapper (fun _ => .error .ENOENT) (.ok [0x78]))
      (fun x => x.1 == .error .ENOENT) = true := by
    decide +kernel
  obtain ⟨⟨r, k'⟩, hexec, hr⟩ := exists_of_meets hmt
  obtain rfl : r = .error .ENOENT := by simpa using hr
  have hcrt : emptyProcess.current = some (initSlot, emptyUser) := rfl
  have hiff := (failed_exec_unchanged_iff referenceMapper_documented emptyProcess_family
    emptyProcess_sound hcrt (fun _ => .error .ENOENT) (.ok [0x78])
    (by rintro name - elf pml4 s ⟨⟩)).1 _ k' hexec
  refine ⟨k', hexec, hiff.mpr ?_ .ENOENT rfl⟩
  intro name _ _
  rw [if_neg (by simp [execFits])]
  decide

/-- Init calls `sys_execve` with a good file and too long arguments: it gets E2BIG, and its page
table is free. -/
theorem failed_exec_destroys : ∃ k k' pid p, Runs referenceMapper (fun _ _ => True) emptyKernel k ∧
    k.current = some (pid, p) ∧
    k.execveCall referenceMapper (fun _ => .ok tinyElf) (.ok [0x78]) [List.replicate 3072 0x41] =
      .ok (.error .E2BIG, k') ∧ k'.machine.pmm.bitmapTest p.pml4Phys = false ∧
    ¬ ExecUnchanged k pid p k' := by
  have hpl : plays referenceMapper (fun _ _ => True) bootEvents emptyKernel (fun k =>
      k.current.any fun c => meets (k.execveCall referenceMapper (fun _ => .ok tinyElf) (.ok [0x78])
        [List.replicate 3072 0x41]) fun x => x.1 == .error .E2BIG &&
          !x.2.machine.pmm.bitmapTest c.2.pml4Phys) = true := by
    decide +kernel
  obtain ⟨k, hrun, htest⟩ := runs_of_plays hpl
  rw [Option.any_eq_true] at htest
  obtain ⟨⟨pid, p⟩, hcur, htest⟩ := htest
  obtain ⟨⟨r, k'⟩, hexec, htest⟩ := exists_of_meets htest
  simp only [Bool.and_eq_true, beq_iff_eq, Bool.not_eq_true'] at htest
  obtain ⟨rfl, hfree⟩ := htest
  exact ⟨k, k', pid, p, hrun, hcur, hexec, hfree, not_unchanged_of_free hfree⟩

end Indominus.Sys.Kernel
