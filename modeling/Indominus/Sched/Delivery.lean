import Indominus.Sys.System
import Indominus.Sys.Steps

/-! # What a scheduling decision does -/

namespace Indominus.Sys.Kernel

open Except

open Memory (Machine Panic)

variable {k k' : Kernel} {pid v : Pid} {p : Process}

/-! ## Table updates -/

@[simp] lemma setProc_procs_self (q : Option Process) : (k.setProc pid q).procs pid = q := by
  simp [setProc]

lemma setProc_procs_of_ne {i : Pid} (h : i ≠ pid) (q : Option Process) :
    (k.setProc pid q).procs i = k.procs i := by
  simp [setProc, h]

lemma setProc_procs (i : Pid) (q : Option Process) :
    (k.setProc pid q).procs i = if i = pid then q else k.procs i := by
  simp only [setProc, Function.update_apply]

@[simp] lemma setProc_currentPid (q : Option Process) :
    (k.setProc pid q).currentPid = k.currentPid :=
  rfl

/-! ## Delivery -/

lemma wakeSignalledParent_cases (h : k.wakeSignalledParent v p = .ok k') :
    k' = k ∨ ∃ slot q, p.parentPid = some slot.val ∧ k.procs slot = some q ∧
      q.generation = p.parentGeneration ∧ q.wakeReason = .waitForChild v.val ∧
      k' = k.setProc slot (some (woken q)) := by
  rw [wakeSignalledParent] at h
  split at h
  · exact .inl (ok.inj h).symm
  rename_i parent hpar
  split at h
  · cases h
  rename_i slot hslot
  split at h
  · exact .inl (ok.inj h).symm
  rename_i q hq
  split at h
  · rename_i hwait
    have hval : parent = slot.val := by
      rw [pidSlot] at hslot
      split at hslot
      · rw [← Option.some.inj hslot]
      · cases hslot
    exact .inr ⟨slot, q, hval ▸ hpar, hq, hwait.1, hwait.2, (ok.inj h).symm⟩
  · exact .inl (ok.inj h).symm

lemma callHandler_cases {signum handler : Nat} (h : k.callHandler v p signum handler = .ok k') :
    ((p.stackPointer = 0 ∨ p.pml4Phys = 0) ∧ k' = k) ∨
      (¬ (p.stackPointer = 0 ∨ p.pml4Phys = 0) ∧ pushable p.frame.rsp = false ∧
        k' = k.setProc v (some ((p.terminated 11).clearPending signum))) ∨
      (pushable p.frame.rsp = true ∧ ∃ s frame, k' = { k with machine := s }.setProc v
        (some ({ p with frame := frame }.clearPending signum))) := by
  rw [callHandler] at h
  split at h
  · rename_i hnone
    exact .inl ⟨hnone, (ok.inj h).symm⟩
  rename_i hsome
  split at h
  · rename_i hbad
    exact .inr (.inl ⟨hsome, by simpa using hbad, (ok.inj h).symm⟩)
  rename_i hgood
  dsimp only at h
  split at h
  · cases h
  · rename_i s _
    exact .inr (.inr ⟨by simpa using hgood, s, _, (ok.inj h).symm⟩)

/-- What `deliver_signal` does to a process with a pending signal. -/
inductive Delivers (k : Kernel) (v : Pid) (p : Process) (signum : Nat) : Kernel → Prop
  | default {k' : Kernel} (hdefault : p.signalHandler signum = 0)
      (hwake : (k.setProc v (some (p.defaultAction signum))).wakeSignalledParent v
        (p.defaultAction signum) = .ok k') : Delivers k v p signum k'
  | ignored (hignored : p.signalHandler signum = 1) :
      Delivers k v p signum (k.setProc v (some (p.clearPending signum)))
  | handler {k' : Kernel} (hhandler : 1 < p.signalHandler signum)
      (hcall : k.callHandler v p signum (p.signalHandler signum) = .ok k') :
      Delivers k v p signum k'

lemma deliverSignal_cases (h : k.deliverSignal v = .ok k') :
    (k' = k ∧ ∀ p, k.procs v = some p → p.isUser = false ∨ p.hasPendingSignal = none) ∨
      ∃ p signum, k.procs v = some p ∧ p.isUser = true ∧ p.hasPendingSignal = some signum ∧
        Delivers k v p signum k' := by
  rw [deliverSignal] at h
  split at h
  · rename_i hnone
    exact .inl ⟨(ok.inj h).symm, by simp [hnone]⟩
  rename_i p hp
  split at h
  · rename_i huser
    refine .inl ⟨(ok.inj h).symm, fun q hq => .inl ?_⟩
    rw [hp, Option.some.injEq] at hq
    simpa [← hq] using huser
  rename_i huser
  split at h
  · rename_i hpen
    refine .inl ⟨(ok.inj h).symm, fun q hq => .inr ?_⟩
    rw [hp, Option.some.injEq] at hq
    rw [← hq, hpen]
  rename_i signum hpen
  refine .inr ⟨p, signum, hp, by simpa using huser, hpen, ?_⟩
  split at h
  · rename_i hdfl
    exact .default hdfl h
  · rename_i hignored
    cases h
    exact .ignored hignored
  rename_i h0 h1
  have hne0 : p.signalHandler signum ≠ 0 := h0
  have hne1 : p.signalHandler signum ≠ 1 := h1
  refine .handler ?_ h
  omega

lemma Delivers.currentPid {signum : Nat} (h : Delivers k v p signum k') :
    k'.currentPid = k.currentPid := by
  cases h with
  | default _ hwake =>
    obtain rfl | ⟨_, _, _, _, _, _, rfl⟩ := wakeSignalledParent_cases hwake <;> rfl
  | ignored => rfl
  | handler _ hcall =>
    obtain ⟨-, rfl⟩ | ⟨-, -, rfl⟩ | ⟨-, _, _, rfl⟩ := callHandler_cases hcall <;> rfl

lemma deliverToCurrent_currentPid (h : k.deliverToCurrent = .ok k') :
    k'.currentPid = k.currentPid := by
  rw [deliverToCurrent] at h
  split at h
  · rw [← ok.inj h]
  split at h
  · rw [← ok.inj h]
  obtain ⟨rfl, -⟩ | ⟨p, signum, -, -, -, hdel⟩ := deliverSignal_cases h
  · rfl
  · exact hdel.currentPid

/-! ## The choice -/

@[simp] lemma setRunning_currentPid (next : Pid) : (k.setRunning next).currentPid = some next := by
  rw [setRunning]
  split <;> rfl

lemma switchNext_eq (k : Kernel) :
    k.switchNext.2 = k.suspendCurrent.setRunning k.suspendCurrent.nextPid :=
  rfl

lemma switchKilled_eq (k : Kernel) :
    k.switchKilled.2 = k.killCurrent.setRunning k.killCurrent.nextPid :=
  rfl

lemma switchNextForce_cases {sp : Nat} (h : k.switchNextForce = .ok (sp, k')) :
    sp = k.switchNext.1 ∧ k.switchNext.2.deliverToCurrent = .ok k' := by
  rw [switchNextForce] at h
  dsimp only at h
  split at h
  · cases h
  rename_i k1 hdel
  cases h
  exact ⟨rfl, hdel⟩

@[simp] lemma suspendCurrent_currentPid (k : Kernel) :
    k.suspendCurrent.currentPid = k.currentPid := by
  rw [suspendCurrent]
  split <;> rfl

@[simp] lemma killCurrent_currentPid (k : Kernel) : k.killCurrent.currentPid = k.currentPid := by
  rw [killCurrent]
  split
  · rfl
  · dsimp only
    split <;> rfl

end Indominus.Sys.Kernel
