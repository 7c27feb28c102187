import Indominus.Sched.Invariants
import Indominus.Sys.PipeTable

/-!
# Waiting for pipes

`keyboard_wake` follows every call that moves bytes or closes a descriptor, but not reaping.
-/

namespace Indominus.Sys

open Memory Option

lemma Task.pipeReady_congr {p q : Task} (h : q.wakeReason = p.wakeReason)
    (pipes : PipeViews) : q.pipeReady pipes = p.pipeReady pipes := by
  rw [Task.pipeReady, Task.pipeReady, h]

lemma Task.pipeReady_of_none {p : Task} (h : p.wakeReason = .none)
    (pipes : PipeViews) : p.pipeReady pipes = false := by
  rw [Task.pipeReady, h]

lemma Task.pipeReady_eq_false_iff {p : Task} {pipes : PipeViews} :
    p.pipeReady pipes = false ↔ ∀ i q, pipes i = some q →
      (p.wakeReason = .pipeRead i.val → q.nwrite ≤ q.nread ∧ q.writeOpen = true) ∧
      (p.wakeReason = .pipeWrite i.val →
        (q.nread + PIPE_SIZE) % 2 ^ 32 ≤ q.nwrite ∧ q.readOpen = true) := by
  have hslot : ∀ idx i, Kernel.pipeSlot idx = some i ↔ i.val = idx := by
    intro idx i
    rw [Kernel.pipeSlot]
    constructor
    · intro h
      split at h
      · exact congrArg Fin.val (some.inj h).symm
      · cases h
    · rintro rfl
      exact dif_pos i.isLt
  rw [Task.pipeReady]
  cases hwhy : p.wakeReason with
  | pipeRead idx =>
    constructor
    · intro h i q hq
      refine ⟨fun heq => ?_, by rintro ⟨⟩⟩
      obtain rfl := WakeReason.pipeRead.inj heq
      simpa [hq] using h
    intro h
    cases hq : (Kernel.pipeSlot idx).bind pipes with
    | none => simp [hq]
    | some q =>
      obtain ⟨i, hi, hqi⟩ := bind_eq_some_iff.mp hq
      obtain rfl := (hslot idx i).mp hi
      simpa [hqi] using (h i q hqi).1 rfl
  | pipeWrite idx =>
    constructor
    · intro h i q hq
      refine ⟨by rintro ⟨⟩, fun heq => ?_⟩
      obtain rfl := WakeReason.pipeWrite.inj heq
      simpa [hq] using h
    intro h
    cases hq : (Kernel.pipeSlot idx).bind pipes with
    | none => simp [hq]
    | some q =>
      obtain ⟨i, hi, hqi⟩ := bind_eq_some_iff.mp hq
      obtain rfl := (hslot idx i).mp hi
      simpa [hqi] using (h i q hqi).2 rfl
  | _ => exact iff_of_true rfl fun i q _ => ⟨by rintro ⟨⟩, by rintro ⟨⟩⟩

namespace Table

variable {t t' : Table}

/-! ## The invariant -/

def Quiet (t : Table) : Prop :=
  t.All fun _ p => p.state = .blocked → p.pipeReady t.pipes = false

end Table

/-- A reaped process leaves nobody whose pipe is ready now, and a new pipe takes no place somebody
waits on. -/
def Hushed (t : Table) : Hazard → Prop
  | .reap _ pipes => ∀ i p, t.tasks i = some p → p.state = .blocked →
      p.pipeReady t.pipes = false → p.pipeReady pipes = false
  | .openPipe i => ∀ w p, t.tasks w = some p → p.state = .blocked → p.wakeReason ≠ .pipeWrite i.val
  | _ => True

namespace Table

variable {t t' : Table}

lemma Quiet.wake (h : t.Quiet) (who : Pid → Bool) : (t.wake who).Quiet :=
  All.mapWhere h fun _ _ _ _ hblk => by cases hblk

lemma Quiet.update (h : t.Quiet) {pid : Pid} (f : Task → Task)
    (hf : ∀ p, (f p).state = .blocked → (f p).wakeReason = .none) : (t.update pid f).Quiet :=
  All.mapWhere h fun _ p _ _ hblk => Task.pipeReady_of_none (hf p hblk) _

lemma Quiet.kill (h : t.Quiet) (v : Pid) : (t.kill v).Quiet := by
  refine All.kill (fun i p hp hblk => ?_) fun p _ => by rintro ⟨⟩
  rw [adopted_state] at hblk
  rw [Task.pipeReady_congr (adopted_wakeReason v p)]
  exact h i p hp hblk

lemma Quiet.openPipe (h : t.Quiet) {i : PipeIdx} (hhushed : Hushed t (.openPipe i)) :
    Quiet { t with pipes := Function.update t.pipes i (some Pipe.new.view) } := by
  intro w p hp hblk
  have hold := Task.pipeReady_eq_false_iff.mp (h w p hp hblk)
  refine Task.pipeReady_eq_false_iff.mpr fun j q hq => ?_
  change Function.update t.pipes i _ j = some q at hq
  rw [Function.update_apply] at hq
  split at hq
  · rename_i hj
    subst hj
    cases hq
    exact ⟨fun _ => ⟨le_rfl, rfl⟩, fun hwriter => absurd hwriter (hhushed w p hp hblk)⟩
  · exact hold j q hq

lemma BlocksOn.pipeReady {cur : Pid} {reason : WakeReason} (h : t.BlocksOn cur reason) {p : Task}
    (hp : p.wakeReason = reason) : p.pipeReady t.pipes = false := by
  subst hp
  rw [Task.pipeReady]
  cases hwhy : p.wakeReason with
  | pipeRead idx =>
    rw [hwhy] at h
    obtain ⟨q, hq, hemp, hopen⟩ := h
    simp [hq, hemp, hopen]
  | pipeWrite idx =>
    rw [hwhy] at h
    obtain ⟨q, hq, hfull, hopen⟩ := h
    have hle : (q.nread + PIPE_SIZE) % 2 ^ 32 ≤ q.nwrite := by
      rcases hfull with hmax | hle
      · rw [hmax]
        exact Nat.le_sub_one_of_lt (Nat.mod_lt _ (by decide))
      · exact hle
    simpa [hq, hopen] using hle
  | _ => rfl

/-! ## Moves -/

lemma Quiet.calm (h : t.Quiet) (hstep : Calm Hushed t t') : t'.Quiet := by
  cases hstep with
  | wake pipes who _ hpip =>
    rcases hpip with rfl | hall
    · exact h.wake who
    intro i p' hp' hblk
    obtain ⟨p, hp, ⟨hi, rfl⟩ | ⟨-, rfl⟩⟩ := exists_of_where hp'
    · -- whoever is still blocked was not ready
      exact Bool.eq_false_iff.mpr fun hrdy => hi (hall i p' hp hblk hrdy)
    · cases hblk
  | openPipe i _ hhushed => exact h.openPipe hhushed
  | bump | setInit | exec | drain | save | lose => exact h
  | load =>
    intro i p hp hblk
    rw [t.sameLife_load.pipes]
    exact All.sameLife h t.sameLife_load i p hp hblk
  | foreground targets =>
    refine .wake (All.mapWhere h fun _ _ _ _ hblk => ?_) _
    cases hblk
  | stop targets => exact .mapWhere h fun _ _ _ _ _ => Task.pipeReady_of_none rfl _
  | reap pipes _ _ _ _ hhushed =>
    intro i p hp hblk
    have hp' : t.tasks i = some p := All.erase (P := fun i p => t.tasks i = some p)
      (fun _ _ hp => hp) _ i p hp
    exact hhushed i p hp' hblk (h i p hp' hblk)
  | create hfree hnew =>
    refine .insert h fun hblk => ?_
    cases hnew <;> cases hblk

lemma Quiet.givesUp (h : t.Quiet) (hstep : GivesUp Hushed t t') : t'.Quiet := by
  cases hstep with
  | nothing => exact h
  | block _ _ hwhy => exact All.update h fun p _ _ => hwhy.pipeReady rfl
  | exit => exact (h.kill _).wake _
  | fault => exact h.kill _

lemma Quiet.signalled (h : t.Quiet) (hstep : Signalled Hushed t t') : t'.Quiet := by
  cases hstep with
  | nothing => exact h
  | killed => exact (h.update Task.dead fun p => by rintro ⟨⟩).wake _
  | badStack => exact h.update Task.dead fun p => by rintro ⟨⟩
  | stopped => exact (h.update Task.stopped fun p _ => rfl).wake _
  | ignored => exact h.wake _

lemma Quiet.sameLife (h : t.Quiet) (hs : t.SameLife t') : t'.Quiet := by
  intro i p hp hblk
  rw [hs.tasks] at hp
  rw [hs.pipes]
  exact h i p hp hblk

lemma Quiet.suspend (h : t.Quiet) : t.suspend.Quiet :=
  All.mapWhere h fun _ _ _ _ hblk => by cases hblk

lemma Quiet.switch (h : t.Quiet) (hstep : Switch Hushed t t') : t'.Quiet := by
  obtain ⟨t0, t1, next, hs, -, hsig, hs'⟩ := hstep.life
  have hrun : (t0.suspend.run next).Quiet := by
    have hnext : (t0.suspend.update next fun p => { p with state := .running }).Quiet :=
      (h.sameLife hs).suspend.update _ fun p => by rintro ⟨⟩
    exact hnext
  exact (hrun.signalled hsig).sameLife hs'

end Table

/-! ## Runs -/

namespace Kernel

variable {M : Mapper} {k k' : Kernel} {ev : Event}

/-- The process has no descriptor for the other end of a pipe that somebody is blocked on. -/
def ClosesQuietly (k : Kernel) (z : Process) : Prop :=
  ∀ fd, ∀ op ∈ pipeOp (z.fdTypes fd), ∀ w, ∀ q ∈ k.procs w, q.state = .blocked →
    q.wakeReason ≠ if op.2 then .pipeRead op.1.val else .pipeWrite op.1.val

instance (k : Kernel) (z : Process) : Decidable (k.ClosesQuietly z) :=
  inferInstanceAs (Decidable (∀ fd : Fd, ∀ op ∈ pipeOp (z.fdTypes fd), _))

/-- A reaped process has no other end of a pipe that somebody is blocked on, and `sys_pipe` takes no
such place. -/
def ReapsQuietly (k : Kernel) : Event → Prop
  | .syscall _ frame (.waitpid childPid _) => ∀ slot, ∀ z ∈ (k.enter frame).procs slot,
      z.state = .zombie → ∀ cur ∈ (k.enter frame).currentPid,
        hasParent z cur ((k.enter frame).getGeneration cur) = true →
        (childPid = slot.val ∨ childPid = 0 ∧
          ((k.enter frame).findAnyZombieChild cur).map Process.pid = some slot.val) →
        (k.enter frame).ClosesQuietly z
  | .initRound => ∀ n ∈ k.initZombies, ∀ slot ∈ pidSlot n, ∀ z ∈ k.procs slot, k.ClosesQuietly z
  | .syscall _ _ .pipe =>
    ∀ i ∈ (List.finRange MAX_PIPES).find? (fun i => (k.pipes i).isNone),
      ∀ w, ∀ q ∈ k.procs w, q.state = .blocked → q.wakeReason ≠ .pipeWrite i.val
  | _ => True

instance (k : Kernel) (ev : Event) : Decidable (k.ReapsQuietly ev) := by
  induction ev using Event.casesOn with
  | syscall savedRsp frame call =>
    induction call using Syscall.casesOn <;> dsimp only [ReapsQuietly] <;> infer_instance
  | _ =>
    dsimp only [ReapsQuietly]
    infer_instance

lemma closePipes_counters {pipes : PipeSlots} {ops : List (PipeIdx × Bool)}
    {j : PipeIdx} {q : Pipe} (hq : closePipes pipes ops j = some q) :
    ∃ p, pipes j = some p ∧ q.nread = p.nread ∧ q.nwrite = p.nwrite := by
  induction ops generalizing pipes with
  | nil => exact ⟨q, hq, rfl, rfl⟩
  | cons e ops ih =>
    have hq' : closePipes (closePipe pipes e.1 e.2) ops j = some q := hq
    obtain ⟨p1, hp1, hread, hwr⟩ := ih hq'
    rw [closePipe_eq, Function.update_apply] at hp1
    split at hp1
    · rename_i hj
      subst hj
      cases hp : pipes e.1 with
      | none => simp [hp, closedSlot] at hp1
      | some p =>
        simp only [hp, closedSlot] at hp1
        split at hp1
        · cases hp1
        cases hp1
        refine ⟨p, rfl, hread.trans ?_, hwr.trans ?_⟩ <;>
          cases e.2 <;> rfl
    · exact ⟨p1, hp1, hread, hwr⟩

/-- Closing the ends of `z` makes no waiting process ready. -/
lemma ClosesQuietly.keeps {z : Process} (h : k.ClosesQuietly z) {w : Pid} {p : Task}
    (hp : k.table.tasks w = some p) (hblk : p.state = .blocked)
    (hqt : p.pipeReady k.table.pipes = false) : p.pipeReady (k.pipesWithout z) = false := by
  obtain ⟨p, hproc, rfl⟩ := exists_of_table_tasks hp
  have hold := Task.pipeReady_eq_false_iff.mp hqt
  -- the end that the task does not hold is not closed
  have hkept : ∀ i b, p.wakeReason = (if b then .pipeRead i.val else .pipeWrite i.val) →
      (i, b) ∉ (List.finRange MAX_FDS).filterMap fun fd => pipeOp (z.fdTypes fd) := by
    intro i b hwhy hmem
    obtain ⟨fd, -, hop⟩ := List.mem_filterMap.mp hmem
    exact h fd (i, b) hop w p hproc hblk hwhy
  refine Task.pipeReady_eq_false_iff.mpr fun i view hview => ?_
  obtain ⟨q, hq, rfl⟩ := map_eq_some_iff.mp hview
  obtain ⟨r, hr, hopen⟩ := closePipes_isOpen hq
  obtain ⟨r', hr', hread, hwr⟩ := closePipes_counters hq
  cases hr.symm.trans hr'
  have hbef : k.table.pipes i = some r.view := map_eq_some_iff.mpr ⟨r, hr, rfl⟩
  refine ⟨fun hwhy => ?_, fun hwhy => ?_⟩
  · obtain ⟨hemp, hend⟩ := (hold i r.view hbef).1 hwhy
    have hstill := hopen true
    rw [decide_eq_false (hkept i true hwhy), Bool.not_false, Bool.and_true] at hstill
    refine ⟨?_, hstill.trans hend⟩
    rw [Pipe.view, hread, hwr]
    exact hemp
  obtain ⟨hfull, hend⟩ := (hold i r.view hbef).2 hwhy
  have hstill := hopen false
  rw [decide_eq_false (hkept i false hwhy), Bool.not_false, Bool.and_true] at hstill
  refine ⟨?_, hstill.trans hend⟩
  rw [Pipe.view, hread, hwr]
  exact hfull

lemma ReapsQuietly.permits (htidy : k.table.Tidy) (h : k.ReapsQuietly ev) {t : Table} {hz : Hazard}
    (hocc : Occurs M k ev t hz) : Hushed t hz := by
  cases hocc with
  | @reap savedRsp childPid flags frame slot z hreap hz =>
    obtain ⟨cur, p, hcur, hp, hzom, hpar, hch⟩ := hreap
    cases hz.symm.trans hp
    have hpid : z.pid = slot.val := by
      rw [← table_enter (k := k) frame] at htidy
      exact htidy.pid slot z.task (table_tasks hz)
    have hqt : (k.enter frame).ClosesQuietly z := by
      refine h slot z hz hzom cur hcur hpar (hch.imp_right fun hany => ⟨hany.1, ?_⟩)
      rw [hany.2, map_some, hpid]
    intro w p hp hblk hnot
    rw [← table_enter (k := k) frame] at hp hnot
    exact hqt.keeps hp hblk hnot
  | @reapInit done rest slot z k1 hzombies hdone hz =>
    intro w p hp hblk hnot
    have hqt : k.ClosesQuietly z := by
      refine h slot.val ?_ slot (pidSlot_val slot) z (procs_of_reapAll hdone hz)
      rw [hzombies]
      simp
    refine ClosesQuietly.keeps (k := k1) (fun fd op hop w q hq => ?_) hp hblk hnot
    exact hqt fd op hop w q (procs_of_reapAll hdone hq)
  | openPipe hfree =>
    intro w p hp hblk
    obtain ⟨q, hq, rfl⟩ := exists_of_table_tasks hp
    exact h _ hfree w q hq hblk
  | _ => trivial

/-- In runs that reap quietly, nobody is blocked on a pipe that is ready; for writers, if fewer than
2³² - 512 bytes have been read from it. -/
theorem Runs.no_lost_pipe (M : Mapper) (k0 k : Kernel) (hblank : k0.Blank)
    (h : Runs M ReapsQuietly k0 k) :
    ∀ w q i p, k.procs w = some q → q.state = .blocked → k.pipes i = some p →
      (q.wakeReason = .pipeRead i.val → p.nwrite ≤ p.nread ∧ p.writeOpen = true) ∧
      (q.wakeReason = .pipeWrite i.val →
        (p.nread + PIPE_SIZE < 2 ^ 32 → p.nread + PIPE_SIZE ≤ p.nwrite) ∧ p.readOpen = true) := by
  obtain ⟨-, -, hqt⟩ := Runs.table_invariant (J := Table.Quiet)
    (fun _ _ _ _ hsnd _ hcond hocc => hcond.permits hsnd.tidy hocc)
    (fun _ _ _ _ hI hmove => hI.calm hmove) (fun _ _ _ _ hI hmove => hI.givesUp hmove)
    (fun _ _ _ hI hmove => hI.switch hmove) hblank (hblank.all _) h
  intro w q i p hq hblk hp
  have hview : k.table.pipes i = some p.view := map_eq_some_iff.mpr ⟨p, hp, rfl⟩
  obtain ⟨hread, hwr⟩ :=
    Task.pipeReady_eq_false_iff.mp (hqt w q.task (table_tasks hq) hblk) i p.view hview
  refine ⟨hread, fun hwhy => ⟨fun hsm => ?_, (hwr hwhy).2⟩⟩
  have hfull := (hwr hwhy).1
  rw [Pipe.view, Nat.mod_eq_of_lt hsm] at hfull
  exact hfull

/-- Init opens a pipe and reads from it: it is blocked, and the pipe is empty and open. -/
theorem Runs.no_lost_pipe_read : ∃ k q p, Runs referenceMapper ReapsQuietly emptyKernel k ∧
    k.procs initSlot = some q ∧ q.state = .blocked ∧ q.wakeReason = .pipeRead 0 ∧
    k.pipes ⟨0, by decide⟩ = some p ∧ p.nwrite ≤ p.nread ∧ p.writeOpen = true := by
  have hplay : plays referenceMapper ReapsQuietly
      (bootEvents ++ [call .pipe, call (.read noDevices 3 0x400000 1)]) emptyKernel
      (fun k => (k.procs initSlot).any (fun q => q.state == .blocked &&
        q.wakeReason == .pipeRead 0) && (k.pipes ⟨0, by decide⟩).isSome) = true := by
    decide +kernel
  obtain ⟨k, hruns, htest⟩ := runs_of_plays hplay
  simp only [Bool.and_eq_true, any_eq_true, beq_iff_eq, isSome_iff_exists] at htest
  obtain ⟨⟨q, hq, hblk, hwhy⟩, p, hp⟩ := htest
  have hqt := no_lost_pipe _ _ k emptyKernel_blank hruns initSlot q _ p hq hblk hp
  exact ⟨k, q, p, hruns, hq, hblk, hwhy, hp, hqt.1 hwhy⟩

/-- A parent with the write end of a pipe exits and is reaped: its child stays blocked on the read
end. -/
theorem Runs.pipe_lost : ∃ k q p, Runs referenceMapper (fun _ _ => True) emptyKernel k ∧
    k.procs childSlot = some q ∧ q.state = .blocked ∧ q.wakeReason = .pipeRead 0 ∧
    k.pipes ⟨0, by decide⟩ = some p ∧ p.writeOpen = false := by
  have hplay : plays referenceMapper (fun _ _ => True)
      ([.spawnIdle (some 0x10000), .spawnKernel (some 0x20000),
        .spawnUser tinyElf (some 1) (some 0x30000), .timer 0x1000 ⟨0, 0, 0⟩] ++ quantum ++
        [call .pipe, call (.fork (some 0x40000) (some 0x50000)), call .yield,
          call (.read noDevices 3 0x400000 1)] ++ quantum ++
          [call (.exit 0), .initRound]) emptyKernel
      (fun k => (k.procs childSlot).any (fun q => q.state == .blocked &&
        q.wakeReason == .pipeRead 0) &&
        (k.pipes ⟨0, by decide⟩).any fun p => !p.writeOpen) = true := by
    decide +kernel
  obtain ⟨k, hruns, htest⟩ := runs_of_plays hplay
  simp only [Bool.and_eq_true, any_eq_true, beq_iff_eq, Bool.not_eq_true'] at htest
  obtain ⟨⟨q, hq, hblk, hwhy⟩, p, hp, hcld⟩ := htest
  exact ⟨k, q, p, hruns, hq, hblk, hwhy, hp, hcld⟩

end Kernel

end Indominus.Sys
