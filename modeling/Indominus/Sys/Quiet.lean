import Indominus.Sys.Steps
import Indominus.Sys.System

/-! # What a system call leaves alone -/

namespace Indominus.Sys

open Memory

/-- The fields of a process that say which memory it has. -/
structure Space where
  pml4 : Nat
  savedCr3 : Nat
  /-- `kernel_stack_base`. -/
  kstack : Nat
  isUser : Bool
  /-- `heap_start` and `heap_end`. -/
  heap : Nat × Nat
  regions : List (Nat × Nat)

def Process.space (p : Process) : Space :=
  ⟨p.pml4Phys, p.savedCr3, p.kernelStackBase, p.isUser, (p.heapStart, p.heapEnd), p.mmapRegions⟩

namespace Kernel

def spaces (k : Kernel) (i : Pid) : Option Space := (k.procs i).map Process.space

structure Quiet (k k' : Kernel) : Prop where
  machine : k'.machine = k.machine
  cr3 : k'.cr3 = k.cr3
  kernelPml4 : k'.kernelPml4 = k.kernelPml4
  deferred : k'.deferred = k.deferred
  currentPid : k'.currentPid = k.currentPid
  spaces : k'.spaces = k.spaces

variable {M : Mapper} {k k' k1 k2 : Kernel} {pid : Pid} {p q : Process}

/-! ## Rules -/

lemma Quiet.refl (k : Kernel) : Quiet k k := ⟨rfl, rfl, rfl, rfl, rfl, rfl⟩

lemma Quiet.trans (h1 : Quiet k k1) (h2 : Quiet k1 k2) : Quiet k k2 where
  machine := h2.machine.trans h1.machine
  cr3 := h2.cr3.trans h1.cr3
  kernelPml4 := h2.kernelPml4.trans h1.kernelPml4
  deferred := h2.deferred.trans h1.deferred
  currentPid := h2.currentPid.trans h1.currentPid
  spaces := h2.spaces.trans h1.spaces

lemma spaces_setProc (hp : k.procs pid = some p) (hq : q.space = p.space) :
    (k.setProc pid (some q)).spaces = k.spaces := by
  funext i
  unfold spaces setProc
  dsimp only
  rw [Function.update_apply]
  split
  · rename_i hi
    rw [hi, hp, Option.map_some, Option.map_some, hq]
  · rfl

lemma Quiet.setProc (h : Quiet k k1) (hp : k1.procs pid = some p) (hq : q.space = p.space) :
    Quiet k (k1.setProc pid (some q)) :=
  h.trans ⟨rfl, rfl, rfl, rfl, rfl, spaces_setProc hp hq⟩

lemma Quiet.pipes (h : Quiet k k1) (pipes : PipeSlots) :
    Quiet k { k1 with pipes := pipes } :=
  h.trans ⟨rfl, rfl, rfl, rfl, rfl, rfl⟩

lemma Quiet.force (h : Quiet k k1) (b : Bool) : Quiet k { k1 with forceSwitch := b } :=
  h.trans ⟨rfl, rfl, rfl, rfl, rfl, rfl⟩

lemma Quiet.wakeWhere (h : Quiet k k1) (wake : Pid → Process → Bool) :
    Quiet k (k1.wakeWhere wake) := by
  refine h.trans ⟨rfl, rfl, rfl, rfl, rfl, ?_⟩
  funext i
  unfold Kernel.spaces Kernel.wakeWhere
  rw [Option.map_map]
  congr 1
  funext p
  dsimp only [Function.comp]
  split <;> rfl

lemma Quiet.keyboardWake (h : Quiet k k1) : Quiet k k1.keyboardWake := h.wakeWhere _

lemma quiet_block (k : Kernel) (reason : WakeReason) : Quiet k (k.block reason) := by
  unfold block
  split
  · exact (Quiet.refl k).force _
  rename_i pid p hcur
  refine .force (Quiet.setProc (Quiet.refl k) (procs_of_current hcur) ?_) _
  rfl

lemma Quiet.block (h : Quiet k k1) (reason : WakeReason) : Quiet k (k1.block reason) :=
  h.trans (quiet_block k1 reason)

/-! ## Reading and writing -/

lemma quiet_readPipe (k : Kernel) (pipeIdx : Nat) (writable : Bool) (count : Nat) :
    Quiet k (k.readPipe pipeIdx writable count).kernel := by
  unfold readPipe
  split
  · exact .refl k
  split
  · exact .refl k
  split
  · exact (Quiet.refl k).keyboardWake
  split
  · exact ((Quiet.refl k).pipes _).keyboardWake
  · exact .refl k
  · exact quiet_block k _

lemma quiet_sysRead (dev : Devices) (k : Kernel) (fd bufPtr count : Nat) :
    Quiet k (sysRead dev k fd bufPtr count).kernel := by
  unfold sysRead
  repeat' split
  all_goals first | exact .refl k | exact quiet_block k _ | exact quiet_readPipe k _ _ _

lemma quiet_writePipe (k : Kernel) (pipeIdx : Nat) (writable : Bool) (buf : List Byte) :
    Quiet k (k.writePipe pipeIdx writable buf).2 := by
  unfold writePipe
  split
  · exact .refl k
  split
  · exact .refl k
  rename_i i _
  split
  · exact .refl k
  have hset : ∀ q, Quiet k (k.setPipe i (some q)) := fun q => (Quiet.refl k).pipes _
  split
  · exact (hset _).keyboardWake
  repeat' split
  · exact (hset _).keyboardWake
  · exact hset _
  · exact (hset _).keyboardWake
  · exact (hset _).block _

lemma quiet_sysWrite (dev : Devices) (k : Kernel) (fd bufPtr count : Nat) :
    Quiet k (sysWrite dev k fd bufPtr count).2 := by
  unfold sysWrite
  repeat' split
  all_goals first | exact .refl k | exact quiet_writePipe k _ _ _

/-! ## Descriptors -/

lemma quiet_sysOpen (k : Kernel) (file : Except Errno Nat) (flags : Nat) :
    Quiet k (k.sysOpen file flags).2 := by
  unfold sysOpen
  split
  · exact .refl k
  split
  · exact .refl k
  split
  · exact .refl k
  split
  · exact .refl k
  rename_i pid p hcur
  split
  · exact (Quiet.refl k).setProc (procs_of_current hcur) rfl
  · exact .refl k

lemma quiet_sysClose (k : Kernel) (fd : Nat) : Quiet k (k.sysClose fd).2 := by
  unfold sysClose
  split
  swap
  · exact .refl k
  split
  · exact .refl k
  rename_i pid p hcur
  dsimp only
  split
  · exact .refl k
  split
  · exact (Quiet.refl k).setProc (procs_of_current hcur) rfl
  · refine .keyboardWake (Quiet.pipes (Quiet.setProc (Quiet.refl k) (procs_of_current hcur) ?_) _)
    rfl

lemma quiet_allocPipe {i : PipeIdx} (h : k.allocPipe = some (i, k1)) : Quiet k k1 := by
  unfold allocPipe at h
  split at h
  · cases h
  · cases h
    exact (Quiet.refl k).pipes _

lemma quiet_sysPipe (k : Kernel) : Quiet k k.sysPipe.2 := by
  unfold sysPipe
  dsimp only
  repeat' split
  all_goals first
    | exact .refl k
    | exact (quiet_allocPipe ‹_›).pipes _
    | (rename_i hcur _ _ _ _
       exact (quiet_allocPipe ‹_›).setProc (procs_of_current hcur) rfl)

lemma Quiet.dupInto (h : Quiet k k1) (hp : k1.procs pid = some p) (t : FdType) :
    Quiet k (k1.dupInto pid p t).2 := by
  unfold Kernel.dupInto
  split
  · exact h
  · exact h.setProc hp rfl

lemma quiet_sysDup (k : Kernel) (fd : Nat) : Quiet k (k.sysDup fd).2 := by
  unfold sysDup
  split
  swap
  · exact .refl k
  split
  · exact .refl k
  rename_i pid p hcur
  have hp := procs_of_current hcur
  split
  · exact .refl k
  · split
    · exact .refl k
    split
    · exact .refl k
    · exact (Quiet.refl k).dupInto hp _
  · split
    · exact (Quiet.refl k).dupInto hp _
    · refine .dupInto (Quiet.pipes (Quiet.refl k) _) ?_ _
      exact hp
  · exact (Quiet.refl k).dupInto hp _

lemma quiet_sysDup2 (k : Kernel) (oldfd newfd : Nat) : Quiet k (k.sysDup2 oldfd newfd).2 := by
  unfold sysDup2
  split
  swap
  · exact .refl k
  split
  swap
  · exact .refl k
  split
  · exact .refl k
  rename_i pid p hcur
  dsimp only
  split
  · exact .refl k
  split
  · exact .refl k
  split
  · refine .keyboardWake (Quiet.pipes (Quiet.setProc (Quiet.refl k) (procs_of_current hcur) ?_) _)
    rfl
  · refine .pipes (Quiet.setProc (Quiet.refl k) (procs_of_current hcur) ?_) _
    rfl

lemma space_afterCloexec (p : Process) : (afterCloexec p).space = p.space := by
  obtain ⟨fds, handles, h⟩ := afterCloexec_eq p
  rw [h]
  rfl

lemma quiet_closeOnExec (k : Kernel) : Quiet k k.closeOnExec := by
  cases hcur : k.current with
  | none =>
    simp only [closeOnExec, hcur]
    exact .refl k
  | some x =>
    obtain ⟨pid, p⟩ := x
    rw [closeOnExec_eq hcur]
    exact ((Quiet.refl k).setProc (procs_of_current hcur) (space_afterCloexec p)).pipes _

/-! ## Lifetime and signals -/

lemma Quiet.reparentOrphansToInit (h : Quiet k k1) (old : Pid) :
    Quiet k (k1.reparentOrphansToInit old) := by
  refine h.trans ⟨rfl, rfl, rfl, rfl, rfl, ?_⟩
  funext i
  unfold Kernel.spaces Kernel.reparentOrphansToInit
  rw [Option.map_map]
  congr 1
  funext p
  dsimp only [Function.comp]
  split <;> rfl

lemma quiet_exitCurrent (k : Kernel) (code : Nat) : Quiet k (k.exitCurrent code) := by
  unfold exitCurrent
  split
  · exact .refl k
  rename_i pid _
  have horp := (Quiet.refl k).reparentOrphansToInit pid
  dsimp only
  split
  · exact horp
  · rename_i p hp
    exact horp.setProc hp rfl

lemma quiet_sysExitCall (k : Kernel) (code : Nat) : Quiet k (k.sysExitCall code) :=
  ((quiet_exitCurrent k code).wakeWhere _).force _

lemma space_sendSignal (p : Process) (signum : Nat) : (p.sendSignal signum).space = p.space := by
  unfold Process.sendSignal
  split <;> rfl

lemma quiet_sysKill (k : Kernel) (pid signum : Nat) : Quiet k (k.sysKill pid signum).2 := by
  unfold sysKill
  split
  · exact .refl k
  split
  · exact .refl k
  split
  · exact .refl k
  rename_i p hp
  split
  · exact .refl k
  · exact (Quiet.refl k).setProc hp (space_sendSignal p signum)

lemma quiet_sysSetpgid (k : Kernel) (pid pgid : Nat) : Quiet k (k.sysSetpgid pid pgid).2 := by
  unfold sysSetpgid
  dsimp only
  split
  · exact .refl k
  split
  · exact .refl k
  · rename_i p hp
    exact (Quiet.refl k).setProc hp rfl

variable {r : SysResult} {signum handler ptr flags : Nat}

lemma sysSigaction_cases (h : k.sysSigaction signum handler ptr = .ok (r, k')) :
    k' = k ∨ ∃ s pid p handlers,
      (s = k.machine ∨ ∃ bytes, kernelStores k.cr3 ptr bytes k.machine = .ok s) ∧
      k.procs pid = some p ∧
      k' = { k with machine := s }.setProc pid (some { p with signalHandlers := handlers }) := by
  unfold sysSigaction at h
  split at h
  · exact .inl (ok_snd_inj h).symm
  split at h
  · exact .inl (ok_snd_inj h).symm
  dsimp only at h
  split at h
  · exact .inl (ok_snd_inj h).symm
  rename_i p hp
  split at h
  · exact .inr ⟨k.machine, _, p, _, .inl rfl, hp, (ok_snd_inj h).symm⟩
  split at h
  · exact .inl (ok_snd_inj h).symm
  split at h
  · exact .inl (ok_snd_inj h).symm
  split at h
  · cases h
  · rename_i s hstores
    exact .inr ⟨s, _, p, _, .inr ⟨_, hstores⟩, hp, (ok_snd_inj h).symm⟩

lemma sysSigaction_deferred (h : k.sysSigaction signum handler ptr = .ok (r, k')) :
    k'.deferred = k.deferred := by
  obtain rfl | ⟨s, pid, p, handlers, -, -, rfl⟩ := sysSigaction_cases h <;> rfl

/-! ## Waiting -/

/-- What `sys_waitpid` can do: nothing, block the caller, or reap one zombie. -/
inductive Waits (k : Kernel) : Kernel → Prop
  | same : Waits k k
  | block (reason : WakeReason) : Waits k (k.block reason)
  | reap {slot : Pid} {p : Process} {k' : Kernel} (hp : k.procs slot = some p)
      (hzombie : p.state = .zombie) (hreap : k.reapZombie slot = .ok k') : Waits k k'

lemma waits_waitFor {found : Nat} (h : k.waitFor found flags = .ok (r, k')) : Waits k k' := by
  unfold waitFor at h
  split at h
  · cases h
  rename_i slot _
  -- the child that was found may be gone already
  cases hp : k.procs slot with
  | none =>
    simp only [hp, Bool.false_eq_true, if_false] at h
    split at h
    · cases h
      exact .same
    · cases h
      exact .block _
  | some p =>
    simp only [hp, beq_iff_eq] at h
    split at h
    · rename_i hzom
      split at h
      · cases h
      rename_i k1 hreap
      cases h
      exact .reap hp hzom hreap
    split at h
    · cases h
      exact .same
    · cases h
      exact .block _

lemma waits_waitAny (k : Kernel) (parent : Pid) (flags : Nat) :
    Waits k (k.waitAny parent flags).2 := by
  unfold waitAny
  split
  · exact .same
  split
  · exact .same
  split
  · exact .same
  · exact .block _

lemma waits_sysWaitpid {childPid : Nat} (h : k.sysWaitpid childPid flags = .ok (r, k')) :
    Waits k k' := by
  unfold sysWaitpid at h
  split at h
  · cases h
    exact .same
  split at h
  · split at h
    · exact waits_waitFor h
    rename_i parent _ _ _ _
    have hwts := waits_waitAny k parent flags
    rw [Except.ok.inj h] at hwts
    exact hwts
  split at h
  · cases h
    exact .same
  · exact waits_waitFor h

end Kernel

end Indominus.Sys
