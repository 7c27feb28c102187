import Indominus.Lib.Cyclic
import Indominus.Sched.Delivery

/-!
# Round-robin selection

Between two selections anything may happen to the table; only `current_pid` is the scheduler's own.
-/

namespace Indominus.Sys

open Lib List Option
open Memory (Panic)

instance : NeZero MAX_PROCESSES := ⟨by decide⟩

namespace Kernel

variable {k k' : Kernel} {p q : Pid}

inductive Selects (k : Kernel) : Kernel → Prop
  | switchNext : Selects k k.switchNext.2
  | switchNextForce {sp : Nat} {k' : Kernel} (h : k.switchNextForce = .ok (sp, k')) : Selects k k'
  | killProcess : Selects k k.switchKilled.2

/-! ## The search -/

lemma candidate_eq_ahead (after : Pid) (i : Nat) : candidate after i = Cyclic.ahead after i := by
  apply Fin.ext
  change ((after.val + 1) % 32 + i) % 32 = (after.val + (i + 1) % 32) % 32
  omega

/-- Is there a ready process other than idle in the slot? -/
def wantsCpu (k : Kernel) (q : Pid) : Bool := q != IDLE_PID && k.isReady q

lemma findNextReady_of_wantsCpu (after : Pid) (hq : k.wantsCpu q = true) :
    ∃ c, k.findNextReady after = some c ∧ Cyclic.firstAfter k.wantsCpu after = some c := by
  obtain ⟨c, hc⟩ := Cyclic.firstAfter_isSome after hq
  refine ⟨c, ?_, hc⟩
  have hmap : (range MAX_PROCESSES).map (candidate after) =
      (range MAX_PROCESSES).map (Cyclic.ahead after) :=
    map_congr_left fun i _ => candidate_eq_ahead after i
  have hfind : ((range MAX_PROCESSES).map (candidate after)).find?
      (fun i => i != IDLE_PID && k.isReady i) = some c := hmap ▸ hc
  rw [findNextReady, hfind]

lemma nextPid_of_wantsCpu (hq : k.wantsCpu q = true) :
    Cyclic.firstAfter k.wantsCpu (k.currentPid.getD IDLE_PID) = some k.nextPid := by
  obtain ⟨c, hfind, hfst⟩ := findNextReady_of_wantsCpu (k.currentPid.getD IDLE_PID) hq
  rw [nextPid, hfind, getD_some, hfst]

/-! ## Readiness at the moment of the choice -/

lemma isReady_iff : k.isReady q = true ↔ ∃ r, k.procs q = some r ∧ r.state = .ready := by
  rw [isReady]
  split
  · rename_i r hr
    simp [hr]
  · rename_i hr
    simp [hr]

lemma isReady_suspendCurrent (h : k.isReady q = true) : k.suspendCurrent.isReady q = true := by
  rw [suspendCurrent]
  split
  · exact h
  rename_i pid r hcur
  obtain ⟨r', hr', hrdy⟩ := isReady_iff.mp h
  by_cases hq : q = pid
  · -- the current process was ready already
    subst hq
    rw [procs_of_current hcur, some.injEq] at hr'
    subst hr'
    exact isReady_iff.mpr ⟨_, setProc_procs_self _, by simp [hrdy]⟩
  · exact isReady_iff.mpr ⟨r', by rw [setProc_procs_of_ne hq, hr'], hrdy⟩

lemma isReady_killCurrent (h : k.isReady q = true) (hne : k.currentPid ≠ some q) :
    k.killCurrent.isReady q = true := by
  rw [killCurrent]
  split
  · exact h
  rename_i old hold
  have hq : q ≠ old := fun heq => hne (heq ▸ hold)
  obtain ⟨r, hr, hrdy⟩ := isReady_iff.mp h
  -- moving the orphans to init leaves their states alone
  have hmoved : (k.reparentOrphansToInit old).isReady q = true := by
    rw [isReady_iff]
    simp only [reparentOrphansToInit, hr, map_some]
    exact ⟨_, rfl, by split <;> exact hrdy⟩
  dsimp only
  split
  · exact hmoved
  · rw [isReady, setProc_procs_of_ne hq]
    exact hmoved

lemma not_isReady_switchKilled (hcur : k.currentPid = some q) :
    k.switchKilled.2.isReady q = false := by
  have hdead : ∀ r, k.killCurrent.procs q = some r → r.state = .zombie := by
    intro r hr
    simp only [killCurrent, hcur] at hr
    split at hr
    · rename_i hnone
      rw [hnone] at hr
      cases hr
    · rw [setProc_procs_self, some.injEq] at hr
      rw [← hr]
  rw [switchKilled_eq, Bool.eq_false_iff, Ne, isReady_iff]
  rintro ⟨r, hr, hrdy⟩
  rw [setRunning] at hr
  split at hr
  · rw [hdead r hr] at hrdy
    cases hrdy
  rw [setProc_procs] at hr
  split at hr
  · rw [← some.inj hr] at hrdy
    cases hrdy
  · rw [hdead r hr] at hrdy
    cases hrdy

/-! ## Selections -/

lemma Selects.choice (h : k.Selects k') :
    ∃ k0 : Kernel, k0.currentPid = k.currentPid ∧ k'.currentPid = some k0.nextPid ∧
      ∀ q, k.isReady q = true → k.currentPid ≠ some q ∨ k'.isReady q = true →
        k0.isReady q = true := by
  cases h with
  | switchNext =>
    refine ⟨k.suspendCurrent, suspendCurrent_currentPid k, ?_,
      fun q hq _ => isReady_suspendCurrent hq⟩
    rw [switchNext_eq, setRunning_currentPid]
  | switchNextForce h =>
    refine ⟨k.suspendCurrent, suspendCurrent_currentPid k, ?_,
      fun q hq _ => isReady_suspendCurrent hq⟩
    obtain ⟨-, hdel⟩ := switchNextForce_cases h
    rw [deliverToCurrent_currentPid hdel, switchNext_eq, setRunning_currentPid]
  | killProcess =>
    refine ⟨k.killCurrent, killCurrent_currentPid k, ?_, ?_⟩
    · rw [switchKilled_eq, setRunning_currentPid]
    intro q hq hali
    apply isReady_killCurrent hq
    intro hcur
    have haft := hali.resolve_left (not_not.mpr hcur)
    rw [not_isReady_switchKilled hcur] at haft
    cases haft

lemma Selects.passes (h : k.Selects k') (hq : q ≠ IDLE_PID) (hrdy : k.isReady q = true)
    (hcur : k.currentPid = some p) (hpq : p ≠ q) {c : Pid} (hc : k'.currentPid = some c)
    (hcq : c ≠ q) : Cyclic.Passes q p c := by
  obtain ⟨k0, hcur0, hcho, hkeep⟩ := h.choice
  have hwants : k0.wantsCpu q = true := by
    rw [wantsCpu, Bool.and_eq_true, bne_iff_ne]
    exact ⟨hq, hkeep q hrdy (.inl (by simpa [hcur] using hpq))⟩
  have hfst := nextPid_of_wantsCpu hwants
  rw [hcur0, hcur] at hfst
  rw [hcho, some.injEq] at hc
  subst hc
  exact ⟨hpq, hcq, _, hwants, hfst⟩

lemma nextPid_ne_idle (hq : k.wantsCpu q = true) : k.nextPid ≠ IDLE_PID := by
  have hfst := (Cyclic.firstAfter_eq_some (nextPid_of_wantsCpu hq)).1
  rw [wantsCpu, Bool.and_eq_true, bne_iff_ne] at hfst
  exact hfst.1

end Kernel

structure Selection where
  before : Kernel
  after : Kernel
  selects : before.Selects after

namespace Selection

def Takes (s : Selection) (p : Pid) : Prop := s.after.currentPid = some p

/-- Between one selection and the next the kernel may change in any way, except for
`current_pid`. -/
def IsRun (run : List Selection) : Prop :=
  run.IsChain fun s s' => s'.before.currentPid = s.after.currentPid

/-- Just before the selection the process is ready, unless it has been taken by the one before. -/
def FindsReady (s : Selection) (q : Pid) : Prop :=
  s.before.currentPid = some q ∨ s.before.isReady q = true

/-- The process is ready just before the selection, and just after it unless it was taken. -/
def StaysReady (s : Selection) (q : Pid) : Prop :=
  s.before.isReady q = true ∧ (s.Takes q ∨ s.after.isReady q = true)

variable {p q : Pid}

/-- While `q` is passed over, each choice is nearer to it. -/
lemma IsRun.passes {s : Selection} {run : List Selection} (hrun : IsRun (s :: run))
    (hp : s.Takes p) (hq : q ≠ IDLE_PID) (hpq : p ≠ q) (hrdy : ∀ s' ∈ run, s'.FindsReady q)
    (hmiss : ∀ s' ∈ run, ¬ s'.Takes q) {last : Selection} (hlast : last ∈ run) {c : Pid}
    (hc : last.Takes c) : Relation.TransGen (Cyclic.Passes q) p c := by
  induction run generalizing s p with
  | nil => simp at hlast
  | cons s' run ih =>
    have hbef : s'.before.currentPid = some p := by
      rw [(isChain_cons_cons.mp hrun).1, hp]
    -- the selection takes some process, and it is not `q`
    obtain ⟨k0, -, hcho, -⟩ := s'.selects.choice
    have hne : k0.nextPid ≠ q := fun heq => hmiss s' (by simp) (heq ▸ hcho)
    have hfd : s'.before.isReady q = true := by
      refine (hrdy s' (by simp)).resolve_left ?_
      rw [hbef, some.injEq]
      exact hpq
    have hstep : Cyclic.Passes q p k0.nextPid :=
      s'.selects.passes hq hfd hbef hpq hcho hne
    rcases mem_cons.mp hlast with rfl | hlast
    · rw [Takes, hcho, some.injEq] at hc
      exact hc ▸ .single hstep
    refine .head hstep (ih (isChain_cons_cons.mp hrun).2 hcho hne ?_ ?_ hlast)
    · exact fun t ht => hrdy t (by simp [ht])
    · exact fun t ht => hmiss t (by simp [ht])

lemma not_takes_idle (s : Selection) (hq : q ≠ IDLE_PID) (hrdy : s.StaysReady q) :
    ¬ s.Takes IDLE_PID := by
  intro hidle
  obtain ⟨k0, -, hcho, hkeep⟩ := s.selects.choice
  rcases hrdy.2 with htkn | haft
  · rw [Takes, hidle, some.injEq] at htkn
    exact hq htkn.symm
  have hwants : k0.wantsCpu q = true := by
    rw [Kernel.wantsCpu, Bool.and_eq_true, bne_iff_ne]
    exact ⟨hq, hkeep q hrdy.1 (.inr haft)⟩
  apply Kernel.nextPid_ne_idle hwants
  rwa [Takes, hcho, some.injEq] at hidle

/-- If a run of selections begins and ends with `p` and `q` is ready until it is taken, `q` is taken
in between; idle is not taken while `q` stays ready. -/
theorem round_robin : (∀ (first last : Selection) (between : List Selection) (p q : Pid),
      IsRun (first :: (between ++ [last])) → q ≠ IDLE_PID → p ≠ q →
      first.Takes p → last.Takes p → (∀ s ∈ between ++ [last], s.FindsReady q) →
      ∃ s ∈ between, s.Takes q) ∧
    ∀ (s : Selection) (q : Pid), q ≠ IDLE_PID → s.StaysReady q → ¬ s.Takes IDLE_PID := by
  refine ⟨?_, fun s q hq hrdy => s.not_takes_idle hq hrdy⟩
  intro first last between p q hrun hq hpq hfst hlast hrdy
  by_contra hnone
  have hmiss : ∀ s ∈ between ++ [last], ¬ s.Takes q := by
    intro s hs htakes
    rcases mem_append.mp hs with hs | hs
    · exact hnone ⟨s, hs, htakes⟩
    · rw [mem_singleton.mp hs, Takes, hlast, some.injEq] at htakes
      exact hpq htakes
  exact Cyclic.Passes.not_returns
    (hrun.passes hfst hq hpq hrdy hmiss (mem_append_right _ (mem_singleton_self _)) hlast)

def twoReady : Kernel :=
  { Kernel.bootKernel with
    procs := fun pid =>
      if pid.val = 0 then some { Process.newKernel 0 1 1 with state := .running }
      else if pid.val = 1 then some (Process.newKernel 1 1 2)
      else if pid.val = 2 then some (Process.newKernel 2 1 3)
      else none }

/-- `switch_next` as a selection. -/
def next (k : Kernel) : Selection := ⟨k, k.switchNext.2, .switchNext⟩

/-- Three selections from `twoReady`: between the two that take process 1, process 2 gets its
turn. -/
theorem round_robin_twoReady :
    let s1 := next twoReady
    let s2 := next s1.after
    let s3 := next s2.after
    (s1.Takes ⟨1, by decide⟩ ∧ s3.Takes ⟨1, by decide⟩ ∧ ∃ s ∈ [s2], s.Takes ⟨2, by decide⟩) ∧
      (s1.StaysReady ⟨2, by decide⟩ ∧ ¬ s1.Takes IDLE_PID) := by
  intro s1 s2 s3
  have h1 : s1.Takes ⟨1, by decide⟩ := by unfold Takes; decide +kernel
  have h3 : s3.Takes ⟨1, by decide⟩ := by unfold Takes; decide +kernel
  have hchn : IsRun (s1 :: ([s2] ++ [s3])) := by
    refine isChain_cons_cons.mpr ⟨rfl, isChain_cons_cons.mpr ⟨rfl, ?_⟩⟩
    exact isChain_singleton _
  have hrdy : ∀ s ∈ [s2] ++ [s3], s.FindsReady ⟨2, by decide⟩ := by
    intro s hs
    simp only [cons_append, nil_append, mem_cons, not_mem_nil, or_false] at hs
    rcases hs with rfl | rfl
    · right
      decide +kernel
    · left
      decide +kernel
  have hsty : s1.StaysReady ⟨2, by decide⟩ := by
    unfold StaysReady Takes
    decide +kernel
  exact ⟨⟨h1, h3, round_robin.1 s1 s3 [s2] _ _ hchn (by decide) (by decide) h1 h3 hrdy⟩,
    hsty, round_robin.2 s1 _ (by decide) hsty⟩

end Selection

end Indominus.Sys
