import Indominus.Sched.Dispatchable

/-!
# Signals of the terminal

`send_signal_to_fg` never looks at signal handlers, as `deliver_signal` does.
-/

namespace Indominus.Sys

open Option Process

/-! ## Pending signals -/

lemma getLsbD_signalBit (signum j : Nat) :
    (signalBit signum).getLsbD j = decide (j < 32 ∧ j = signum - 1) := by
  rw [signalBit, BitVec.getLsbD_shiftLeft]
  by_cases hj : j < 32 <;> by_cases he : j = signum - 1 <;> simp [hj, he]
  omega

namespace Process

variable {p q : Process} {s u : Nat}

def isPending (p : Process) (signum : Nat) : Bool := p.signalsPending.getLsbD (signum - 1)

def isBlocked (p : Process) (signum : Nat) : Bool := p.signalsBlocked.getLsbD (signum - 1)

lemma hasPendingSignal_eq_some (h : p.hasPendingSignal = some u) :
    1 ≤ u ∧ u ≤ 32 ∧ p.isPending u = true ∧ p.isBlocked u = false := by
  obtain ⟨i, hi, rfl⟩ := map_eq_some_iff.mp h
  have hbit := List.find?_some hi
  have hmem := List.mem_range.mp (List.mem_of_find?_eq_some hi)
  simp only [BitVec.getLsbD_and, BitVec.getLsbD_not, Bool.and_eq_true, Bool.not_eq_true'] at hbit
  exact ⟨by omega, by omega, hbit.1, hbit.2.2⟩

lemma sendSignal_eq (hs : 1 ≤ s ∧ s ≤ 31) :
    p.sendSignal s = { p with signalsPending := p.signalsPending ||| signalBit s } := by
  rw [sendSignal, if_neg (by omega)]

lemma isPending_sendSignal (hs : 1 ≤ s ∧ s ≤ 31) (hu : 1 ≤ u ∧ u ≤ 32) :
    (p.sendSignal s).isPending u = (p.isPending u || decide (u = s)) := by
  rw [sendSignal_eq hs, isPending, BitVec.getLsbD_or, getLsbD_signalBit]
  congr 1
  exact decide_eq_decide.mpr (by omega)

lemma isPending_clearPending (hu : 1 ≤ u ∧ u ≤ 32) : (p.clearPending u).isPending u = false := by
  rw [clearPending, isPending, BitVec.getLsbD_and, BitVec.getLsbD_not, getLsbD_signalBit]
  have hlt : u - 1 < 32 := by omega
  simp [hlt]

lemma sendSignal_of_isPending (hs : 1 ≤ s ∧ s ≤ 31) (h : p.isPending s = true) :
    p.sendSignal s = p := by
  have hbits : p.signalsPending ||| signalBit s = p.signalsPending := by
    apply BitVec.eq_of_getLsbD_eq
    intro j hj
    rw [BitVec.getLsbD_or, getLsbD_signalBit]
    by_cases hjs : j = s - 1
    · rw [hjs, show p.signalsPending.getLsbD (s - 1) = true from h, Bool.true_or]
    · simp [hjs]
  rw [sendSignal_eq hs, hbits]

lemma pending_clear_sendSignal (h : p.isPending s = false) :
    (p.signalsPending ||| signalBit s) &&& ~~~signalBit s = p.signalsPending := by
  apply BitVec.eq_of_getLsbD_eq
  intro j hj
  rw [BitVec.getLsbD_and, BitVec.getLsbD_or, BitVec.getLsbD_not, getLsbD_signalBit]
  by_cases hjs : j = s - 1
  · rw [hjs, show p.signalsPending.getLsbD (s - 1) = false from h]
    simp
  · simp [hjs, hj]

lemma clearPending_sendSignal (hs : 1 ≤ s ∧ s ≤ 31) (h : p.isPending s = false) :
    (p.sendSignal s).clearPending s = p := by
  rw [sendSignal_eq hs, clearPending, pending_clear_sendSignal h]

lemma signalHandler_sendSignal (p : Process) (s u : Nat) :
    (p.sendSignal s).signalHandler u = p.signalHandler u := by
  unfold sendSignal signalHandler
  split_ifs <;> rfl

end Process

namespace Kernel

open Lib Memory

variable {k k' : Kernel} {i : Pid} {p q : Process} {s u : Nat}

/-! ## What delivery leaves of the process -/

/-- `deliver_signal` finds no signal, or has to call a handler for a process without a saved frame
or an address space. -/
def NothingToDeliver (p : Process) : Prop :=
  ∀ u, p.hasPendingSignal = some u → 1 < p.signalHandler u ∧ (p.stackPointer = 0 ∨ p.pml4Phys = 0)

/-- What `deliver_signal` leaves of the process itself when it acts on signal `u`. -/
inductive Delivered (i : Pid) (p : Process) (u : Nat) : Process → Prop
  | default (hhandler : p.signalHandler u = 0) :
      Delivered i p u
        (if (p.defaultAction u).waitsForItself i then woken (p.defaultAction u)
          else p.defaultAction u)
  | ignored (hhandler : p.signalHandler u = 1) : Delivered i p u (p.clearPending u)
  | killed (hhandler : 1 < p.signalHandler u) (hsaved : ¬ (p.stackPointer = 0 ∨ p.pml4Phys = 0)) :
      Delivered i p u ((p.terminated 11).clearPending u)
  | redirected {frame : Frame} (hhandler : 1 < p.signalHandler u)
      (hsaved : ¬ (p.stackPointer = 0 ∨ p.pml4Phys = 0)) (hframe : frame.rsp + 8 = p.frame.rsp) :
      Delivered i p u ({ p with frame := frame }.clearPending u)

lemma callHandler_self (hp : k.procs i = some p) (hhan : 1 < p.signalHandler u)
    (h : k.callHandler i p u (p.signalHandler u) = .ok k') :
    ((p.stackPointer = 0 ∨ p.pml4Phys = 0) ∧ k'.procs i = some p) ∨
      ∃ q, k'.procs i = some q ∧ Delivered i p u q := by
  rw [callHandler] at h
  split at h
  · rename_i hnone
    exact .inl ⟨hnone, by rw [← Except.ok.inj h, hp]⟩
  rename_i hsv
  split at h
  · exact .inr ⟨_, by rw [← Except.ok.inj h, setProc_procs_self], .killed hhan hsv⟩
  rename_i hpush
  dsimp only at h
  split at h
  · cases h
  refine .inr ⟨_, by rw [← Except.ok.inj h, setProc_procs_self], .redirected hhan hsv ?_⟩
  simp only [pushable, Bool.and_eq_true, decide_eq_true_eq, not_not] at hpush
  exact Nat.sub_add_cancel hpush.1

lemma procs_deliverSignal (hp : k.procs i = some p) (huser : p.isUser = true)
    (h : k.deliverSignal i = .ok k') : (NothingToDeliver p ∧ k'.procs i = some p) ∨
      ∃ u q, p.hasPendingSignal = some u ∧ k'.procs i = some q ∧ Delivered i p u q := by
  obtain ⟨rfl, hnone⟩ | ⟨p', u, hp', -, hpen, hdelivers⟩ := deliverSignal_cases h
  · have hpen : p.hasPendingSignal = none := by simpa [huser] using hnone p hp
    exact .inl ⟨fun u hu => by simp [hpen] at hu, hp⟩
  obtain rfl : p' = p := some.inj (hp'.symm.trans hp)
  cases hdelivers with
  | default hdfl hwake =>
    have hself := wakeSignalledParent_self (setProc_procs_self _) hwake
    exact .inr ⟨u, _, hpen, hself, .default hdfl⟩
  | ignored hignored => exact .inr ⟨u, _, hpen, setProc_procs_self _, .ignored hignored⟩
  | handler hhan hcall =>
    obtain ⟨hnone, hsame⟩ | ⟨q, hq, hdel⟩ := callHandler_self hp hhan hcall
    · refine .inl ⟨fun u' hu' => ?_, hsame⟩
      obtain rfl : u = u' := some.inj (hpen.symm.trans hu')
      exact ⟨hhan, hnone⟩
    · exact .inr ⟨u, q, hpen, hq, hdel⟩

lemma Delivered.not_nothing (h : Delivered i p u q) (hpen : p.hasPendingSignal = some u) :
    ¬ NothingToDeliver p := by
  intro hnothing
  obtain ⟨hhan, hnone⟩ := hnothing u hpen
  cases h with
  | default h0 => omega
  | ignored h1 => omega
  | killed _ hsv => exact hsv hnone
  | redirected _ hsv _ => exact hsv hnone

lemma isPending_woken (p : Process) (u : Nat) : (woken p).isPending u = p.isPending u := rfl

lemma Delivered.not_pending (h : Delivered i p u q) (hu : 1 ≤ u ∧ u ≤ 32) :
    q.isPending u = false := by
  cases h with
  | default =>
    have hdfl : (p.defaultAction u).isPending u = false := by
      unfold defaultAction
      split_ifs <;> exact isPending_clearPending hu
    split_ifs
    · rw [isPending_woken, hdfl]
    · exact hdfl
  | ignored => exact isPending_clearPending hu
  | killed => exact isPending_clearPending hu
  | redirected => exact isPending_clearPending hu

/-! ## What the terminal leaves of the process -/

/-- A process of the foreground group that can still be dispatched. -/
structure InForeground (k : Kernel) (i : Pid) (p : Process) : Prop where
  entry : k.procs i = some p
  slot : i.val ≠ 0
  user : p.isUser = true
  group : k.foregroundPgid = some p.pgid
  alive : p.state ≠ .zombie

/-- Does the signal kill process `child`, or anyone if `child` is 0? -/
def killsChild (k : Kernel) (signal child : Nat) : Bool :=
  (signal == 2 || signal == 3) && (List.finRange MAX_PROCESSES).any fun j =>
    (k.procs j).any fun q => k.isForegroundTarget signal j q && (child == q.pid || child == 0)

/-- Does the process wait for a process that the signal kills? -/
def waitsForKilled (k : Kernel) (signal : Nat) (p : Process) : Bool :=
  match p.wakeReason with
  | .waitForChild child => k.killsChild signal child
  | _ => false

lemma any_foregroundKilled (k : Kernel) (signal child : Nat) :
    ((k.foregroundKilled signal).any fun z => child == z || child == 0) =
      k.killsChild signal child := by
  rw [foregroundKilled, killsChild]
  split_ifs with hsig
  · have hbool : (signal == 2 || signal == 3) = true := by simpa using hsig
    rw [hbool, List.any_filterMap]
    congr 1
    funext j
    cases hq : k.procs j with
    | none => simp
    | some q => cases htgt : k.isForegroundTarget signal j q <;> simp [htgt]
  · have hbool : (signal == 2 || signal == 3) = false := by simpa using hsig
    rw [hbool, Bool.false_and, List.any_nil]

/-- The two wake loops at the end of `send_signal_to_fg`. -/
def wakesAfter (k : Kernel) (signal : Nat) (p : Process) : Process :=
  let p := if k.waitsForKilled signal p then woken p else p
  if k.inlineWake p then woken p else p

lemma procs_sendSignalToFg (hp : k.procs i = some p) (hi : i.val ≠ 0) :
    (k.sendSignalToFg s).procs i =
      some (k.wakesAfter s (if k.isForegroundTarget s i p then foregroundAction s p else p)) := by
  simp only [sendSignalToFg, wakeWhere, wakeKilledParents, signalForeground, hp, map_some,
    some.injEq]
  have hslot : (i.val != 0) = true := by simpa using hi
  simp only [hslot, Bool.true_and, any_foregroundKilled]
  rfl

lemma waitsForKilled_ne (h : k.waitsForKilled s p = true) : p.wakeReason ≠ .none := by
  intro hnone
  simp [waitsForKilled, hnone] at h

lemma inlineWake_ne (h : k.inlineWake p = true) : p.state = .blocked ∧ p.wakeReason ≠ .none := by
  rw [inlineWake, Bool.and_eq_true, beq_iff_eq] at h
  refine ⟨h.1, fun hnone => ?_⟩
  simp [hnone] at h

lemma inlineWake_of_state (h : p.state ≠ .blocked) : k.inlineWake p = false := by
  rw [Bool.eq_false_iff]
  exact fun hwake => h (inlineWake_ne hwake).1

def leftAsleep (k : Kernel) (signal : Nat) (p : Process) : Bool :=
  !k.waitsForKilled signal p && !k.inlineWake p

lemma wakesAfter_keeps (k : Kernel) (signal : Nat) (p : Process) :
    (k.wakesAfter signal p).signalsPending = p.signalsPending ∧
      (k.wakesAfter signal p).frame = p.frame := by
  simp only [wakesAfter]
  split_ifs <;> exact ⟨rfl, rfl⟩

lemma wakesAfter_eq_self_iff : k.wakesAfter s p = p ↔ k.leftAsleep s p = true := by
  have hwoken : p.wakeReason ≠ .none → woken p ≠ p :=
    fun hne heq => hne (congrArg wakeReason heq).symm
  unfold wakesAfter leftAsleep
  cases hwait : k.waitsForKilled s p with
  | true =>
    have hrdy : k.inlineWake (woken p) = false := inlineWake_of_state (by simp [woken])
    simpa [hrdy] using hwoken (waitsForKilled_ne hwait)
  | false =>
    cases hwake : k.inlineWake p with
    | true => simpa [hwake] using hwoken (inlineWake_ne hwake).2
    | false => simp [hwake]

lemma wakesAfter_terminated (k : Kernel) (s : Nat) (p : Process) : k.wakesAfter s (p.terminated s) =
      if k.waitsForKilled s p then woken (p.terminated s) else p.terminated s := by
  have hwts : k.waitsForKilled s (p.terminated s) = k.waitsForKilled s p := rfl
  unfold wakesAfter
  rw [hwts]
  cases k.waitsForKilled s p with
  | true =>
    have hrdy : k.inlineWake (woken (p.terminated s)) = false :=
      inlineWake_of_state (by simp [woken])
    simp [hrdy]
  | false =>
    have hzom : k.inlineWake (p.terminated s) = false :=
      inlineWake_of_state (by simp [terminated])
    simp [hzom]

lemma wakesAfter_stopped (k : Kernel) (s : Nat) (p : Process) :
    k.wakesAfter s (p.stopped s) = p.stopped s := by
  apply wakesAfter_eq_self_iff.mpr
  rfl

lemma InForeground.procs_sendSignalToFg (h : k.InForeground i p) (s : Nat) :
    (k.sendSignalToFg s).procs i =
      some (k.wakesAfter s (if p.isBlocked s then p else foregroundAction s p)) := by
  have htgt : k.isForegroundTarget s i p = !p.isBlocked s := by
    have hslot : (i.val != 0) = true := by simpa using h.slot
    have hali : (p.state != .zombie) = true := by simpa using h.alive
    rw [isForegroundTarget, hslot, h.user, h.group, hali]
    simp [isBlocked]
  rw [Kernel.procs_sendSignalToFg h.entry h.slot, htgt]
  cases p.isBlocked s <;> rfl

/-! ## The comparison -/

/-- The signals that the keyboard sends: Ctrl-C, Ctrl-\ and Ctrl-Z. -/
def IsTerminalSignal (s : Nat) : Prop := s = 2 ∨ s = 3 ∨ s = 20

instance (s : Nat) : Decidable (IsTerminalSignal s) := inferInstanceAs (Decidable (_ ∨ _ ∨ _))

lemma IsTerminalSignal.range (h : IsTerminalSignal s) : 1 ≤ s ∧ s ≤ 31 := by
  unfold IsTerminalSignal at h
  omega

/-- When the terminal's way and delivery come to the same for a process of the group. -/
inductive TerminalAgrees (k : Kernel) (s : Nat) (i : Pid) (p : Process) : Prop
  /-- Delivery takes the default action for a new signal, and both ways agree on waking the process
  they killed. -/
  | default (hacts : (p.sendSignal s).hasPendingSignal = some s) (hhandler : p.signalHandler s = 0)
      (hnew : p.isPending s = false)
      (hwake : s = 20 ∨ k.waitsForKilled s p = p.waitsForItself i)
  | ignored (hacts : (p.sendSignal s).hasPendingSignal = some s) (hhandler : p.signalHandler s = 1)
      (hnew : p.isPending s = false) (hstop : s = 20 ∧ p.stopped 20 = p)
  /-- Delivery does nothing, and the signal was pending before and is blocked, or stops a stopped
  process. -/
  | nothing (hacts : NothingToDeliver (p.sendSignal s)) (hold : p.isPending s = true)
      (hleft : if p.isBlocked s then k.leftAsleep s p = true else s = 20 ∧ p.stopped 20 = p)

section Signals

variable (hs : IsTerminalSignal s)

include hs

lemma IsTerminalSignal.foregroundAction_eq (p : Process) :
    foregroundAction s p = if s = 20 then p.stopped s else p.terminated s := by
  rcases hs with rfl | rfl | rfl <;> rfl

lemma IsTerminalSignal.defaultAction_eq (hnew : p.isPending s = false) :
    (p.sendSignal s).defaultAction s = if s = 20 then p.stopped s else p.terminated s := by
  have hclr := pending_clear_sendSignal hnew
  rw [sendSignal_eq hs.range, defaultAction]
  by_cases hstop : s = 20
  · rw [if_pos hstop, if_pos hstop]
    simp only [stopped, clearPending, hclr]
  have hkill : ¬ (s = 18 ∨ s = 19) := by
    unfold IsTerminalSignal at hs
    omega
  rw [if_neg hstop, if_neg hstop, if_neg hkill]
  simp only [terminated, clearPending, hclr]

section

variable (h : k.InForeground i p)

include h

lemma InForeground.unchanged_iff : (k.sendSignalToFg s).procs i = some p ↔
    if p.isBlocked s then k.leftAsleep s p = true else s = 20 ∧ p.stopped 20 = p := by
  rw [h.procs_sendSignalToFg, some.injEq]
  cases hblk : p.isBlocked s with
  | true => simpa using wakesAfter_eq_self_iff
  | false =>
    simp only [Bool.false_eq_true, if_false, hs.foregroundAction_eq]
    by_cases hstop : s = 20
    · subst hstop
      simp [wakesAfter_stopped]
    rw [if_neg hstop, wakesAfter_terminated]
    refine ⟨fun heq => ?_, fun heq => absurd heq.1 hstop⟩
    split_ifs at heq with hwts
    · exact absurd (congrArg wakeReason heq).symm (waitsForKilled_ne hwts)
    · exact absurd (congrArg state heq).symm h.alive

lemma InForeground.default_iff (hblk : p.isBlocked s = false) (hnew : p.isPending s = false) :
    (k.sendSignalToFg s).procs i = some (if ((p.sendSignal s).defaultAction s).waitsForItself i
      then woken ((p.sendSignal s).defaultAction s) else (p.sendSignal s).defaultAction s) ↔
      s = 20 ∨ k.waitsForKilled s p = p.waitsForItself i := by
  rw [h.procs_sendSignalToFg, some.injEq, hblk, hs.defaultAction_eq hnew]
  simp only [Bool.false_eq_true, if_false, hs.foregroundAction_eq]
  by_cases hstop : s = 20
  · subst hstop
    have hnot : (p.stopped 20).waitsForItself i = false := by
      simp [waitsForItself, stopped]
    simp [wakesAfter_stopped, hnot]
  have hself : (p.terminated s).waitsForItself i = p.waitsForItself i := rfl
  have hrdy : woken (p.terminated s) ≠ p.terminated s := by
    intro heq
    cases congrArg state heq
  simp only [hstop, if_false, false_or, wakesAfter_terminated, hself]
  cases k.waitsForKilled s p <;> cases p.waitsForItself i <;> simp [hrdy, hrdy.symm]

lemma InForeground.not_handled (hblk : p.isBlocked s = false) (hhan : 1 < p.signalHandler s)
    (hdel : Delivered i (p.sendSignal s) s q) : (k.sendSignalToFg s).procs i ≠ some q := by
  have hhan' : 1 < (p.sendSignal s).signalHandler s := by rwa [signalHandler_sendSignal]
  rw [h.procs_sendSignalToFg, hblk, Ne, some.injEq]
  simp only [Bool.false_eq_true, if_false, hs.foregroundAction_eq]
  intro heq
  cases hdel with
  | default h0 => omega
  | ignored h1 => omega
  | killed =>
    by_cases hstop : s = 20
    · subst hstop
      rw [if_pos rfl, wakesAfter_stopped] at heq
      cases congrArg state heq
    rw [if_neg hstop, wakesAfter_terminated] at heq
    split_ifs at heq
    · cases congrArg state heq
    · obtain rfl : s = 11 := congrArg exitCode heq
      exact absurd hs (by decide)
  | redirected _ _ hrsp =>
    have hfrm := congrArg frame heq
    rw [(wakesAfter_keeps ..).2] at hfrm
    have hsame : (if s = 20 then p.stopped s else p.terminated s).frame =
      (p.sendSignal s).frame := by
      rw [sendSignal_eq hs.range]
      split_ifs <;> rfl
    rw [← hsame, hfrm] at hrsp
    exact absurd hrsp (by simp [clearPending])

lemma InForeground.acted_on (hacts : (p.sendSignal s).hasPendingSignal = some u)
    (hdel : Delivered i (p.sendSignal s) u q) (heq : (k.sendSignalToFg s).procs i = some q) :
    u = s ∧ p.isPending s = false := by
  obtain ⟨hlow, hhigh, hpen, -⟩ := hasPendingSignal_eq_some hacts
  have hgone : q.isPending u = false := hdel.not_pending ⟨hlow, hhigh⟩
  -- `send_signal_to_fg` does not touch the pending signals
  have hkept : q.signalsPending = p.signalsPending := by
    rw [h.procs_sendSignalToFg, some.injEq] at heq
    rw [← heq, (wakesAfter_keeps ..).1, hs.foregroundAction_eq]
    split_ifs <;> rfl
  have hnot : p.isPending u = false := by
    rw [isPending, ← hkept]
    exact hgone
  rw [isPending_sendSignal hs.range ⟨hlow, hhigh⟩, hnot, Bool.false_or, decide_eq_true_eq] at hpen
  subst hpen
  exact ⟨rfl, hnot⟩

lemma InForeground.nothing_iff : (k.sendSignalToFg s).procs i = some (p.sendSignal s) ↔
    p.isPending s = true ∧ if p.isBlocked s then k.leftAsleep s p = true else s = 20 ∧
      p.stopped 20 = p := by
  rw [← h.unchanged_iff hs]
  constructor
  · intro heq
    have hsent : (p.sendSignal s).isPending s = true := by
      rw [isPending_sendSignal hs.range ⟨hs.range.1, by have := hs.range.2; omega⟩]
      simp
    have hold : p.isPending s = true := by
      have hkept := h.procs_sendSignalToFg s
      rw [heq, some.injEq] at hkept
      rw [hkept, isPending, (wakesAfter_keeps ..).1, hs.foregroundAction_eq] at hsent
      rw [← hsent, isPending]
      split_ifs <;> rfl
    rw [sendSignal_of_isPending hs.range hold] at heq
    exact ⟨hold, heq⟩
  · rintro ⟨hold, heq⟩
    rw [sendSignal_of_isPending hs.range hold, heq]

lemma InForeground.acted_iff (hacts : (p.sendSignal s).hasPendingSignal = some s)
    (hnew : p.isPending s = false) (hdel : Delivered i (p.sendSignal s) s q) :
    (k.sendSignalToFg s).procs i = some q ↔
      (p.signalHandler s = 0 ∧ (s = 20 ∨ k.waitsForKilled s p = p.waitsForItself i)) ∨
      (p.signalHandler s = 1 ∧ s = 20 ∧ p.stopped 20 = p) := by
  have hblk : p.isBlocked s = false := by
    have hfree := (hasPendingSignal_eq_some hacts).2.2.2
    rwa [sendSignal_eq hs.range] at hfree
  have hhan := signalHandler_sendSignal p s s
  by_cases hcalled : 1 < p.signalHandler s
  · have h0 : p.signalHandler s ≠ 0 := by omega
    have h1 : p.signalHandler s ≠ 1 := by omega
    simpa [h0, h1] using h.not_handled hs hblk hcalled hdel
  rw [← hhan] at hcalled ⊢
  cases hdel with
  | default h0 => simpa [h0] using h.default_iff hs hblk hnew
  | ignored h1 =>
    rw [clearPending_sendSignal hs.range hnew, h.unchanged_iff hs]
    simp [h1, hblk]
  | killed hhigh => exact absurd hhigh hcalled
  | redirected hhigh => exact absurd hhigh hcalled

end

end Signals

/-- **Terminal signals and handlers.**  For each of the signals 2, 3 and 20, `send_signal_to_fg`
leaves a process of the foreground group as `deliver_signal` does if and only if
`TerminalAgrees`. -/
theorem sendSignalToFg_eq_deliver_iff (k k2 : Kernel) (i : Pid) (p : Process) (s : Nat)
    (hs : IsTerminalSignal s) (hin : k.InForeground i p)
    (hdeliver : (k.setProc i (some (p.sendSignal s))).deliverSignal i = .ok k2) :
    (k.sendSignalToFg s).procs i = k2.procs i ↔ k.TerminalAgrees s i p := by
  have huser : (p.sendSignal s).isUser = true := by
    rw [sendSignal_eq hs.range]
    exact hin.user
  obtain ⟨hnothing, hsame⟩ | ⟨u, q, hacts, hq, hdel⟩ :=
    procs_deliverSignal (setProc_procs_self _) huser hdeliver
  · rw [hsame, hin.nothing_iff hs]
    constructor
    · intro ⟨hold, hleft⟩
      exact .nothing hnothing hold hleft
    intro hagrees
    cases hagrees with
    | nothing _ hold hleft => exact ⟨hold, hleft⟩
    | default hacts hhan | ignored hacts hhan =>
      have hcalled := (hnothing s hacts).1
      rw [signalHandler_sendSignal, hhan] at hcalled
      omega
  rw [hq]
  constructor
  · intro heq
    obtain ⟨rfl, hnew⟩ := hin.acted_on hs hacts hdel heq
    obtain ⟨hhan, hwake⟩ | ⟨hhan, hstop⟩ := (hin.acted_iff hs hacts hnew hdel).mp heq
    · exact .default hacts hhan hnew hwake
    · exact .ignored hacts hhan hnew hstop
  intro hagrees
  cases hagrees with
  | nothing hnothing => exact absurd hnothing (hdel.not_nothing hacts)
  | default hacts' hhan hnew hwake =>
    obtain rfl : u = s := some.inj (hacts.symm.trans hacts')
    exact (hin.acted_iff hs hacts hnew hdel).mpr (.inl ⟨hhan, hwake⟩)
  | ignored hacts' hhan hnew hstop =>
    obtain rfl : u = s := some.inj (hacts.symm.trans hacts')
    exact (hin.acted_iff hs hacts hnew hdel).mpr (.inr ⟨hhan, hstop⟩)

lemma InForeground.of_target (hp : k.procs i = some p) (h : k.isForegroundTarget s i p = true) :
    k.InForeground i p := by
  simp only [isForegroundTarget, Bool.and_eq_true, bne_iff_ne, beq_iff_eq, Bool.not_eq_true'] at h
  obtain ⟨⟨⟨⟨hslot, huser⟩, hgroup⟩, hali⟩, -⟩ := h
  exact ⟨hp, hslot, huser, hgroup, hali⟩

/-- Init has no handler: Ctrl-C kills it as delivery would. -/
theorem sendSignalToFg_eq_deliver_init :
    ∃ k k2 p, Runs referenceMapper (fun _ _ => True) emptyKernel k ∧
    k.InForeground initSlot p ∧
      (k.setProc initSlot (some (p.sendSignal 2))).deliverSignal initSlot = .ok k2 ∧
    (k.sendSignalToFg 2).procs initSlot = k2.procs initSlot := by
  have hplay : plays referenceMapper (fun _ _ => True) bootEvents emptyKernel (fun k =>
      (k.procs initSlot).any fun p => k.isForegroundTarget 2 initSlot p &&
        ((p.sendSignal 2).hasPendingSignal == some 2 && p.signalHandler 2 == 0 && !p.isPending 2 &&
          !k.waitsForKilled 2 p && !p.waitsForItself initSlot) &&
        meets ((k.setProc initSlot (some (p.sendSignal 2))).deliverSignal initSlot)
          fun _ => true) = true := by
    decide +kernel
  obtain ⟨k, hruns, htest⟩ := runs_of_plays hplay
  rw [any_eq_true] at htest
  obtain ⟨p, hp, htest⟩ := htest
  simp only [Bool.and_eq_true, beq_iff_eq, Bool.not_eq_true'] at htest
  obtain ⟨⟨htgt, ⟨⟨⟨hacts, hhan⟩, hnew⟩, hwts⟩, hself⟩, hok⟩ := htest
  obtain ⟨k2, hdlv, -⟩ := exists_of_meets hok
  have hin := InForeground.of_target hp htgt
  have hagrees : k.TerminalAgrees 2 initSlot p :=
    .default hacts hhan hnew (.inr (by simp [hwts, hself]))
  exact ⟨k, k2, p, hruns, hin, hdlv,
    (sendSignalToFg_eq_deliver_iff k k2 initSlot p 2 (by decide) hin hdlv).mpr hagrees⟩

/-- Init has installed a handler for signal 2.  Delivery would call it and let init run on, but
Ctrl-C kills init. -/
theorem sendSignalToFg_ignores_handler :
    ∃ k k2 p, Runs referenceMapper (fun _ _ => True) emptyKernel k ∧
    k.InForeground initSlot p ∧ p.signalHandler 2 = 0x400000 ∧
    (k.setProc initSlot (some (p.sendSignal 2))).deliverSignal initSlot = .ok k2 ∧
    (k2.procs initSlot).map Process.state = some .running ∧
    ((k.sendSignalToFg 2).procs initSlot).map Process.state = some .zombie ∧
    (k.sendSignalToFg 2).procs initSlot ≠ k2.procs initSlot := by
  have hplay : plays referenceMapper (fun _ _ => True)
      (bootEvents ++
        [.syscall 0x1000 ⟨0x400000, 0x7FFFFFFEFF00, 0⟩ (.sigaction 2 0x400000 0)]) emptyKernel
      (fun k => (k.procs initSlot).any fun p => k.isForegroundTarget 2 initSlot p &&
        p.signalHandler 2 == 0x400000 &&
        ((k.sendSignalToFg 2).procs initSlot).map state == some .zombie &&
        meets ((k.setProc initSlot (some (p.sendSignal 2))).deliverSignal initSlot) fun k2 =>
          (k2.procs initSlot).map state == some .running) = true := by
    decide +kernel
  obtain ⟨k, hruns, htest⟩ := runs_of_plays hplay
  rw [any_eq_true] at htest
  obtain ⟨p, hp, htest⟩ := htest
  simp only [Bool.and_eq_true, beq_iff_eq] at htest
  obtain ⟨⟨⟨htgt, hhan⟩, hzom⟩, hmt⟩ := htest
  obtain ⟨k2, hdlv, hrunning⟩ := exists_of_meets hmt
  rw [beq_iff_eq] at hrunning
  refine ⟨k, k2, p, hruns, .of_target hp htgt, hhan, hdlv, hrunning, hzom, fun heq => ?_⟩
  rw [heq, hrunning] at hzom
  cases hzom

end Kernel

end Indominus.Sys
