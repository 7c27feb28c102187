import Indominus.Sched.Invariants

/-!
# The exit status that the parent sees

The call of `sys_waitpid` that reaps a child returns its number, not the recorded status.
-/

namespace Indominus.Sys

open Memory Lib

/-! ## The user library -/

def wifexited (status : Nat) : Bool := status &&& 0x7f == 0

def wexitstatus (status : Nat) : Nat := (status >>> 8) &&& 0xff

def wifsignaled (status : Nat) : Bool := status &&& 0x7f != 0 && status &&& 0x7f != 0x7f

def wtermsig (status : Nat) : Nat := status &&& 0x7f

inductive Ending
  | exit (code : Nat)
  | signal (signum : Nat)
  deriving DecidableEq

/-- The macros of the user library report the ending. -/
def Ending.ReportedBy (status : Nat) : Ending → Prop
  | .exit code => wifexited status = true ∧ wexitstatus status = code % 256
  | .signal signum => wifsignaled status = true ∧ wtermsig status = signum

lemma Ending.reportedBy_pid {child : Pid} (hch : child.val ≠ 0) (e : Ending) :
    e.ReportedBy child.val ↔ e = .signal child.val := by
  have hlt : child.val < 0x7f := child.isLt.trans_le (by decide)
  have hmod : child.val &&& 0x7f = child.val := by
    rw [show (0x7f : Nat) = 2 ^ 7 - 1 from rfl, Nat.and_two_pow_sub_one_eq_mod]
    omega
  cases e with
  | exit code => simp [ReportedBy, wifexited, hmod, hch]
  | signal signum =>
    simp [ReportedBy, wifsignaled, wtermsig, hmod, hch, hlt.ne, @eq_comm Nat signum]

namespace Kernel

variable {M : Mapper} {cond : Kernel → Event → Prop} {k k' : Kernel} {child : Pid}

/-! ## The reaping call -/

lemma block_ne_none (reason : WakeReason) (hch : k.procs child ≠ none) :
    (k.block reason).procs child ≠ none := by
  unfold block
  cases k.current with
  | none => exact hch
  | some cur =>
    by_cases heq : child = cur.1
    · simp [setProc, heq]
    · simpa [setProc, heq] using hch

lemma enter_ne_none (frame : Frame) (hch : k.procs child ≠ none) :
    (k.enter frame).procs child ≠ none := by
  unfold enter
  cases k.current with
  | none => exact hch
  | some cur =>
    by_cases hu : cur.2.isUser
    · by_cases heq : child = cur.1
      · simp [hu, setProc, heq]
      · simpa [hu, setProc, heq] using hch
    · simpa [hu] using hch

lemma waitFor_reaped {found flags r : Nat} (h : k.waitFor found flags = .ok (.ok r, k'))
    (hch : k.procs child ≠ none) (hnone : k'.procs child = none) : r = child.val := by
  unfold waitFor at h
  cases hslot : pidSlot found with
  | none => simp [hslot] at h
  | some slot =>
    have hfd : found = slot.val := by
      unfold pidSlot at hslot
      split_ifs at hslot
      rw [← Option.some.inj hslot]
    have hkps : ∀ reason, k' ≠ k ∧ k' ≠ k.block reason := fun reason =>
      ⟨fun hk => hch (hk ▸ hnone), fun hk => block_ne_none reason hch (hk ▸ hnone)⟩
    simp only [hslot] at h
    cases hp : k.procs slot with
    | none =>
      simp only [hp, Bool.false_eq_true, if_false] at h
      split_ifs at h
      · exact absurd (Prod.mk.inj (Except.ok.inj h)).2.symm (hkps .none).1
      · exact absurd (Prod.mk.inj (Except.ok.inj h)).2.symm (hkps _).2
    | some p =>
      split_ifs at h
      · cases hreap : k.reapZombie slot with
        | error e => simp [hreap] at h
        | ok k1 =>
          simp only [hreap] at h
          obtain ⟨hr, rfl⟩ := Prod.mk.inj (Except.ok.inj h)
          obtain ⟨s, hs⟩ := reapZombie_eq hp hreap
          by_cases heq : child = slot
          · rw [heq, ← hfd]
            exact (Except.ok.inj hr).symm
          -- another slot is emptied
          rw [hs] at hnone
          exact absurd ((Function.update_of_ne heq _ _).symm.trans hnone) hch
      · exact absurd (Prod.mk.inj (Except.ok.inj h)).2.symm (hkps .none).1
      · exact absurd (Prod.mk.inj (Except.ok.inj h)).2.symm (hkps _).2

lemma sysWaitpid_reaped {childPid flags r : Nat}
    (h : k.sysWaitpid childPid flags = .ok (.ok r, k')) (hch : k.procs child ≠ none)
    (hnone : k'.procs child = none) : r = child.val := by
  unfold sysWaitpid at h
  split at h
  · cases h
  rename_i parent _
  split_ifs at h
  · split at h
    · exact waitFor_reaped h hch hnone
    -- without a zombie nothing is reaped
    exfalso
    have hk : (k.waitAny parent flags).2 = k' := congrArg Prod.snd (Except.ok.inj h)
    unfold waitAny at hk
    split at hk
    · subst hk
      exact hch hnone
    split_ifs at hk
    · subst hk
      exact hch hnone
    · subst hk
      exact block_ne_none _ hch hnone
    · subst hk
      exact hch hnone
  · exact waitFor_reaped h hch hnone
  · cases h

/-! ## Runs -/

/-- **Exit status.**  Whatever the ending of a child was, the macros read it from the value of the
reaping `waitpid` exactly when it was the signal with the child's own process number. -/
theorem exit_status_iff {k0 : Kernel} {frame : Frame} {childPid flags r : Nat} (hblank : k0.Blank)
    (hrun : Runs M cond k0 k) (hzombie : ∃ p, k.procs child = some p ∧ p.state = .zombie)
    (hwait : (k.enter frame).sysWaitpid childPid flags = .ok (.ok r, k'))
    (hreaped : k'.procs child = none) (e : Ending) : e.ReportedBy r ↔ e = .signal child.val := by
  obtain ⟨p, hp, hsta⟩ := hzombie
  -- idle never dies, so the number of the child is not 0
  have hne : child.val ≠ 0 := by
    intro hzero
    have hrdy := (((Runs.sound hblank hrun).1 child p.task (table_tasks hp)).idle (Fin.ext hzero)).2
    rw [show p.task.state = .zombie from hsta] at hrdy
    rcases hrdy with hrdy | hrdy <;> cases hrdy
  have hr := sysWaitpid_reaped hwait (enter_ne_none frame (by simp [hp])) hreaped
  rw [hr, Ending.reportedBy_pid hne]

/-! ## An exit status that is lost -/

/-- The process ends in the step: it calls `exit`, or a signal makes it a zombie. -/
def EndsIn (k : Kernel) (ev : Event) (k' : Kernel) (child : Pid) : Ending → Prop
  | .exit code =>
    k.currentPid = some child ∧ ∃ savedRsp frame, ev = .syscall savedRsp frame (.exit code)
  | .signal signum =>
    (∀ p, k.procs child = some p → p.state ≠ .zombie) ∧
      ∃ p, k'.procs child = some p ∧ p.state = .zombie ∧ p.terminatedBySignal = true ∧
        p.exitCode = signum

def forkedEvents : List Event :=
  bootEvents ++ [call (.fork (some 0x40000) (some 0x50000)), call .yield]

/-- The child exits with 7, and its parent's `waitpid` returns this value and empties the slot. -/
def waitsAfterExit (k : Kernel) (test : Nat → Bool) : Bool :=
  decide (k.currentPid = some childSlot) &&
    stepMeets referenceMapper k (call (.exit 7)) fun k' =>
      plays referenceMapper (fun _ _ => True) quantum k' fun k₂ =>
        (k₂.procs childSlot).any (fun p => p.state == .zombie) &&
          meets ((k₂.enter ⟨0, 0, 0⟩).sysWaitpid childSlot.val 1) fun out =>
            (out.2.procs childSlot).isNone &&
              match out.1 with
              | .ok r => test r
              | .error _ => false

lemma waitsAfterExit_cases {test : Nat → Bool} (h : k.waitsAfterExit test = true) :
    k.currentPid = some childSlot ∧ ∃ k', k.Steps referenceMapper (call (.exit 7)) k' ∧
      ∃ k2, Runs referenceMapper (fun _ _ => True) k' k2 ∧
        (∃ p, k2.procs childSlot = some p ∧ p.state = .zombie) ∧
        ∃ r k3, (k2.enter ⟨0, 0, 0⟩).sysWaitpid childSlot.val 1 = .ok (.ok r, k3) ∧
          k3.procs childSlot = none ∧ test r = true := by
  rw [waitsAfterExit, Bool.and_eq_true, decide_eq_true_iff] at h
  obtain ⟨hcur, hstep⟩ := h
  obtain ⟨k', hstep, hpl⟩ := steps_of_stepMeets hstep
  obtain ⟨k2, hrun, htest⟩ := runs_of_plays hpl
  rw [Bool.and_eq_true, Option.any_eq_true] at htest
  obtain ⟨⟨p, hp, hzom⟩, hmt⟩ := htest
  obtain ⟨⟨res, k3⟩, hwait, htest⟩ := exists_of_meets hmt
  rw [Bool.and_eq_true] at htest
  refine ⟨hcur, k', hstep, k2, hrun, ⟨p, hp, beq_iff_eq.mp hzom⟩, ?_⟩
  cases res with
  | error e => exact absurd htest.2 (by simp)
  | ok r => exact ⟨r, k3, hwait, Option.isNone_iff_eq_none.mp htest.1, htest.2⟩

lemma waitsAfterExit_run : plays referenceMapper (fun _ _ => True) forkedEvents emptyKernel
    (fun k => k.waitsAfterExit fun r => r == 3) = true := by
  decide +kernel

/-- The child of init exits with 7, and the reaping call does not report it. -/
theorem exit_status_iff_forked : ∃ k₂ k₃ r, Runs referenceMapper (fun _ _ => True) emptyKernel k₂ ∧
    (k₂.enter ⟨0, 0, 0⟩).sysWaitpid childSlot.val 1 = .ok (.ok r, k₃) ∧ k₃.procs childSlot = none ∧
    ((Ending.exit 7).ReportedBy r ↔ Ending.exit 7 = .signal childSlot.val) := by
  obtain ⟨k, hrun, htest⟩ := runs_of_plays waitsAfterExit_run
  obtain ⟨-, k', hstep, k₂, hlat, hzom, r, k₃, hwait, hrpd, -⟩ := waitsAfterExit_cases htest
  have hall := (hrun.tail ⟨_, trivial, hstep⟩).trans hlat
  exact ⟨k₂, k₃, r, hall, hwait, hrpd, exit_status_iff emptyKernel_blank hall hzom hwait hrpd _⟩

/-- The child of init exits with 7; the reaping call returns 3, which reads as a death by signal
3. -/
theorem exit_status_lost : ∃ k k' k₂ k₃, Runs referenceMapper (fun _ _ => True) emptyKernel k ∧
    k.Steps referenceMapper (call (.exit 7)) k' ∧ EndsIn k (call (.exit 7)) k' childSlot (.exit 7) ∧
    Runs referenceMapper (fun _ _ => True) k' k₂ ∧
    (k₂.enter ⟨0, 0, 0⟩).sysWaitpid childSlot.val 1 = .ok (.ok 3, k₃) ∧ k₃.procs childSlot = none ∧
    ¬ (Ending.exit 7).ReportedBy 3 ∧ (Ending.signal 3).ReportedBy 3 := by
  obtain ⟨k, hrun, htest⟩ := runs_of_plays waitsAfterExit_run
  obtain ⟨hcur, k', hstep, k₂, hlat, -, r, k₃, hwait, hrpd, hr⟩ := waitsAfterExit_cases htest
  obtain rfl := beq_iff_eq.mp hr
  refine ⟨k, k', k₂, k₃, hrun, hstep, ⟨hcur, _, _, rfl⟩, hlat, hwait, hrpd, ?_, ?_⟩
  · rintro ⟨hexited, -⟩
    cases hexited
  · exact ⟨rfl, rfl⟩

end Kernel

end Indominus.Sys
