import Indominus.Sched.Delivery

/-!
# Which processes are resumed

A decision marks its choice as running, and then delivers a signal that may take that state away.
-/

namespace Indominus.Sys

open Process

open Memory (Panic)

inductive Decision
  | tick
  | force
  | kill
  | first (pid : Pid)

namespace Decision

/-- Make the decision: the stack pointer to resume on, and the kernel afterwards. -/
def make (k : Kernel) : Decision → Except Panic (Nat × Kernel)
  | .tick => k.onTick
  | .force => k.switchNextForce
  | .kill => .ok k.switchKilled
  | .first pid => .ok (k.dispatchFirst pid)

/-- Is there a decision to make?  A tick makes one when the quantum has expired. -/
def isDue (k : Kernel) : Decision → Bool
  | .tick => decide (DEFAULT_QUANTUM ≤ k.tickCounter + 1)
  | _ => true

/-- The kernel after the choice, before a signal is delivered. -/
def choose (k : Kernel) : Decision → Kernel
  | .tick => ({ k.countTick with tickCounter := 0 } : Kernel).switchNext.2
  | .force => k.switchNext.2
  | .kill => k.switchKilled.2
  | .first pid => (k.dispatchFirst pid).2

def delivers : Decision → Bool
  | .tick | .force => true
  | .kill | .first _ => false

end Decision

namespace Process

def waitsForItself (p : Process) (pid : Pid) : Bool :=
  p.parentPid == some pid.val && p.generation == p.parentGeneration &&
    p.wakeReason == .waitForChild pid.val

/-- Is the process still running after its pending signal has been delivered? -/
def survivesSignal (p : Process) (pid : Pid) : Bool :=
  !p.isUser ||
    match p.hasPendingSignal with
    | none => true
    | some signum =>
      match p.signalHandler signum with
      | 0 => (signum == 18 || signum == 19) && !p.waitsForItself pid
      | 1 => true
      | _ => p.stackPointer == 0 || p.pml4Phys == 0 || Kernel.pushable p.frame.rsp

end Process

namespace Kernel

variable {k k' : Kernel} {v : Pid} {p : Process}

/-! ## One delivery -/

lemma wakeSignalledParent_self (hp : k.procs v = some p) (h : k.wakeSignalledParent v p = .ok k') :
    k'.procs v = some (if p.waitsForItself v then woken p else p) := by
  by_cases hself : p.waitsForItself v = true
  · -- the process is its own parent, and wakes itself
    simp only [waitsForItself, Bool.and_eq_true, beq_iff_eq] at hself
    obtain ⟨⟨hpar, hgen⟩, hwait⟩ := hself
    simp only [wakeSignalledParent, hpar, pidSlot_val, hp, hgen, hwait, and_self, if_true] at h
    rw [← Except.ok.inj h]
    simp [waitsForItself, hpar, hgen, hwait]
  rw [if_neg hself]
  obtain rfl | ⟨slot, q, hpar, hq, hgen, hwait, rfl⟩ := wakeSignalledParent_cases h
  · exact hp
  by_cases hslot : v = slot
  · subst hslot
    rw [hp, Option.some.injEq] at hq
    subst hq
    exact absurd (by simp [waitsForItself, hpar, hgen, hwait]) hself
  · rw [setProc_procs_of_ne hslot, hp]

@[simp] lemma waitsForItself_clearPending (p : Process) (signum : Nat) (pid : Pid) :
    (p.clearPending signum).waitsForItself pid = p.waitsForItself pid :=
  rfl

@[simp] lemma defaultAction_stackPointer (p : Process) (signum : Nat) :
    (p.defaultAction signum).stackPointer = p.stackPointer := by
  rw [defaultAction]
  split_ifs <;> rfl

lemma running_default_iff {signum : Nat} (hrun : p.state = .running)
    (h : (k.setProc v (some (p.defaultAction signum))).wakeSignalledParent v
      (p.defaultAction signum) = .ok k') : ∃ q, k'.procs v = some q ∧
      q.stackPointer = p.stackPointer ∧
      (q.state = .running ↔ (signum = 18 ∨ signum = 19) ∧ p.waitsForItself v = false) := by
  refine ⟨_, wakeSignalledParent_self (setProc_procs_self _) h, ?_, ?_⟩
  · split
    · exact defaultAction_stackPointer p signum
    · exact defaultAction_stackPointer p signum
  rw [defaultAction]
  by_cases hstop : signum = 20
  · -- stopped, and no longer waiting for anyone
    have hnot : ((p.stopped signum).clearPending signum).waitsForItself v = false := by
      simp [waitsForItself, stopped, clearPending]
    rw [if_pos hstop, hnot]
    simp [stopped, clearPending, hstop]
  rw [if_neg hstop]
  by_cases hcont : signum = 18 ∨ signum = 19
  · rw [if_pos hcont, waitsForItself_clearPending]
    cases p.waitsForItself v <;> simp [woken, clearPending, hrun, hcont]
  rw [if_neg hcont]
  -- a zombie, or made ready by itself
  split <;> simp [woken, clearPending, terminated, hcont]

lemma running_callHandler_iff {signum handler : Nat} (hrun : p.state = .running)
    (hp : k.procs v = some p) (h : k.callHandler v p signum handler = .ok k') :
    ∃ q, k'.procs v = some q ∧ q.stackPointer = p.stackPointer ∧ (q.state = .running ↔
        p.stackPointer = 0 ∨ p.pml4Phys = 0 ∨ pushable p.frame.rsp = true) := by
  obtain ⟨hnone, rfl⟩ | ⟨hsome, hbad, rfl⟩ | ⟨hgood, s, frame, rfl⟩ := callHandler_cases h
  · refine ⟨p, hp, rfl, ?_⟩
    tauto
  · refine ⟨_, setProc_procs_self _, rfl, ?_⟩
    simp only [clearPending, terminated, reduceCtorEq, false_iff, hbad,
      Bool.false_eq_true, or_false]
    exact hsome
  · refine ⟨_, setProc_procs_self _, rfl, ?_⟩
    simp [clearPending, hrun, hgood]

lemma running_deliverSignal_iff (hrun : p.state = .running) (hp : k.procs v = some p)
    (h : k.deliverSignal v = .ok k') : ∃ q, k'.procs v = some q ∧ q.stackPointer = p.stackPointer ∧
      (q.state = .running ↔ p.survivesSignal v = true) := by
  obtain ⟨rfl, hnone⟩ | ⟨p', signum, hp', huser, hpen, hdel⟩ := deliverSignal_cases h
  · refine ⟨p, hp, rfl, ?_⟩
    rcases hnone p hp with hker | hpen
    · simp [survivesSignal, hker, hrun]
    · simp [survivesSignal, hpen, hrun]
  rw [hp, Option.some.injEq] at hp'
  subst hp'
  cases hdel with
  | default hdfl hwake =>
    obtain ⟨q, hq, hsp, hiff⟩ := running_default_iff hrun hwake
    refine ⟨q, hq, hsp, hiff.trans ?_⟩
    simp [survivesSignal, huser, hpen, hdfl]
  | ignored hignored =>
    refine ⟨_, setProc_procs_self _, rfl, ?_⟩
    simp [survivesSignal, clearPending, huser, hpen, hignored, hrun]
  | handler hhan hcall =>
    obtain ⟨q, hq, hsp, hiff⟩ := running_callHandler_iff hrun hp hcall
    refine ⟨q, hq, hsp, hiff.trans ?_⟩
    -- the address of the handler is neither of the two special values
    obtain ⟨n, hn⟩ : ∃ n, p.signalHandler signum = n + 2 := ⟨p.signalHandler signum - 2, by omega⟩
    simp [survivesSignal, huser, hpen, hn, or_assoc]

/-! ## Decisions -/

lemma setRunning_procs_self {next : Pid} (hp : (k.setRunning next).procs next = some p) :
    p.state = .running ∧ p.stackPointer = (k.setRunning next).stackPointerOf next := by
  refine ⟨?_, by simp [stackPointerOf, hp]⟩
  rw [setRunning] at hp
  split at hp
  · rename_i hnone
    rw [hnone] at hp
    cases hp
  rw [setProc_procs_self, Option.some.injEq] at hp
  rw [← hp]

/-- The chosen process runs on unless its pending signal stops it. -/
lemma running_switchNextForce_iff {sp : Nat} {r : Process} (h : k.switchNextForce = .ok (sp, k'))
    (hcur : k'.current = some (v, r)) :
    ∃ p, k.switchNext.2.current = some (v, p) ∧ sp = r.stackPointer ∧
      (r.state = .running ↔ v = IDLE_PID ∨ p.survivesSignal v = true) := by
  obtain ⟨hsp, hdel⟩ := switchNextForce_cases h
  obtain ⟨hpid', hr⟩ := current_eq_some.mp hcur
  have hpid : k.switchNext.2.currentPid = some v := by
    rw [← deliverToCurrent_currentPid hdel, hpid']
  have hv : k.suspendCurrent.nextPid = v := by
    rw [switchNext_eq, setRunning_currentPid, Option.some.injEq] at hpid
    exact hpid
  -- the delivery does not fill an empty slot
  obtain ⟨p, hp⟩ : ∃ p, k.switchNext.2.procs v = some p := by
    rw [← Option.isSome_iff_exists, Option.isSome_iff_ne_none]
    intro hnone
    rw [deliverToCurrent, hpid] at hdel
    dsimp only at hdel
    split at hdel
    · rw [← Except.ok.inj hdel, hnone] at hr
      cases hr
    simp only [deliverSignal, hnone] at hdel
    rw [← Except.ok.inj hdel, hnone] at hr
    cases hr
  obtain ⟨hrun, hstk⟩ : p.state = .running ∧ p.stackPointer = k.switchNext.1 := by
    rw [switchNext_eq, hv] at hp
    obtain ⟨hrun, hstk⟩ := setRunning_procs_self hp
    exact ⟨hrun, by rw [hstk, ← hv]; rfl⟩
  refine ⟨p, current_eq_some.mpr ⟨hpid, hp⟩, ?_⟩
  rw [deliverToCurrent, hpid] at hdel
  dsimp only at hdel
  split at hdel
  · rename_i hidle
    rw [← Except.ok.inj hdel, hp, Option.some.injEq] at hr
    subst hr
    exact ⟨by rw [hsp, hstk], by simp [hrun, hidle]⟩
  rename_i hidle
  obtain ⟨q, hq, hqsp, hiff⟩ := running_deliverSignal_iff hrun hp hdel
  rw [hr, Option.some.injEq] at hq
  subst hq
  exact ⟨by rw [hsp, hqsp, hstk], by simp [hiff, hidle]⟩

end Kernel

namespace Decision

/-- The process whose stack pointer a decision returns is running exactly if no signal is delivered,
it is idle, or it survives its signal. -/
theorem running_iff (d : Decision) (k k' : Kernel) (sp : Nat) (v : Pid) (r : Process)
    (hdue : d.isDue k = true) (h : d.make k = .ok (sp, k')) (hcur : k'.current = some (v, r)) :
    ∃ p, (d.choose k).current = some (v, p) ∧ sp = r.stackPointer ∧ (r.state = .running ↔
        d.delivers = false ∨ v = IDLE_PID ∨ p.survivesSignal v = true) := by
  cases d with
  | tick =>
    have hexpired : DEFAULT_QUANTUM ≤ k.countTick.tickCounter := of_decide_eq_true hdue
    simp only [make, Kernel.onTick, if_pos hexpired] at h
    simpa [choose, delivers] using Kernel.running_switchNextForce_iff h hcur
  | force => simpa [choose, delivers] using Kernel.running_switchNextForce_iff h hcur
  | kill =>
    obtain ⟨hsp, hk⟩ := Prod.mk.inj (Except.ok.inj h)
    obtain ⟨hpid, hr⟩ := Kernel.current_eq_some.mp hcur
    rw [← hk, Kernel.setRunning_currentPid, Option.some.injEq] at hpid
    rw [← hk, hpid] at hr
    obtain ⟨hrun, hstk⟩ := Kernel.setRunning_procs_self hr
    refine ⟨r, ?_, ?_, by simp [delivers, hrun]⟩
    · rw [← hcur, ← hk]
      rfl
    · rw [hstk, ← hsp, ← hpid]
  | first pid =>
    obtain ⟨hsp, hk⟩ := Prod.mk.inj (Except.ok.inj h)
    obtain ⟨hpid, hr⟩ := Kernel.current_eq_some.mp hcur
    have hv : (k.setRunning pid).currentPid = some v := by
      rw [← hpid, ← hk]
    rw [Kernel.setRunning_currentPid, Option.some.injEq] at hv
    subst hv
    have hr' : (k.setRunning pid).procs pid = some r := by
      rw [← hr, ← hk]
    obtain ⟨hrun, hstk⟩ := Kernel.setRunning_procs_self hr'
    refine ⟨r, ?_, ?_, by simp [delivers, hrun]⟩
    · rw [← hcur, ← hk]
      rfl
    · rw [hstk, ← hsp]
      rfl

/-- A user process is ready, and somebody has sent it SIGINT. -/
def interrupted : Kernel :=
  { Kernel.bootKernel with
    procs := fun pid =>
      if pid.val = 0 then some { Process.newKernel 0 1 1 with state := .running }
      else if pid.val = 2 then
        some ((Process.newUser 2 0x400000 0x7ffff000 5 none 0 4096).sendSignal 2)
      else none }

/-- The decision terminates the process and returns its stack pointer. -/
theorem resumes_zombie :
    ∃ sp k' r, make interrupted .force = .ok (sp, k') ∧ k'.current = some (⟨2, by decide⟩, r) ∧
      sp = r.stackPointer ∧ sp ≠ 0 ∧ r.state = .zombie ∧ r.terminatedBySignal = true := by
  refine ⟨_, _, _, rfl, rfl, ?_⟩
  decide +kernel

/-- The same process has asked to ignore SIGINT. -/
def ignoring : Kernel :=
  { interrupted with
    procs := fun pid => (interrupted.procs pid).map fun p =>
      { p with signalHandlers := fun _ => 1 } }

/-- It survives the signal, and the decision leaves it running. -/
theorem running_ignoring :
    ∃ sp k' r, make ignoring .force = .ok (sp, k') ∧ k'.current = some (⟨2, by decide⟩, r) ∧
      (ignoring.procs ⟨2, by decide⟩).any (·.hasPendingSignal == some 2) ∧ r.state = .running := by
  refine ⟨_, _, _, rfl, rfl, by decide +kernel, ?_⟩
  obtain ⟨p, hp, -, hiff⟩ := running_iff .force ignoring _ _ ⟨2, by decide⟩ _ rfl rfl rfl
  apply hiff.mpr
  right
  right
  cases hp
  decide +kernel

end Decision

end Indominus.Sys
