import Indominus.Sched.Invariants

/-! # Running processes and zombies -/

namespace Indominus.Sys

open Memory

namespace Table

variable {H : Permits} {t t' : Table} {pid : Pid}

/-! ## At most one running process -/

def OneRunning (t : Table) : Prop := t.All fun i p => p.state = .running → t.currentPid = some i

def NoneRunning (t : Table) : Prop := t.All fun _ p => p.state ≠ .running

lemma OneRunning.wake (h : t.OneRunning) (who : Pid → Bool) : (t.wake who).OneRunning :=
  All.mapWhere h fun _ _ _ _ hrun => by cases hrun

lemma OneRunning.update (h : t.OneRunning) (f : Task → Task)
    (hf : ∀ p, (f p).state ≠ .running) : (t.update pid f).OneRunning :=
  All.mapWhere h fun _ p _ _ hrun => absurd hrun (hf p)

lemma OneRunning.kill (h : t.OneRunning) (pid : Pid) : (t.kill pid).OneRunning := by
  refine All.kill (fun i p hp hrun => ?_) fun p _ => by rintro ⟨⟩
  rw [adopted_state] at hrun
  exact h i p hp hrun

lemma creates_ready {origin : Origin} {slot : Pid} {task : Task} {holding : Holding}
    {gens : Pid → Nat} (h : Creates t origin slot task holding gens) : task.state = .ready := by
  cases h <;> rfl

lemma OneRunning.calm (h : t.OneRunning) (hstep : Calm H t t') : t'.OneRunning := by
  cases hstep with
  | wake pipes who => exact .wake (t := { t with pipes := pipes }) h who
  | openPipe | bump | setInit | exec | drain | save => exact h
  | load =>
    rw [load]
    split <;> exact h
  | foreground targets =>
    refine .wake (All.mapWhere h fun _ _ _ _ hrun => ?_) _
    cases hrun
  | stop targets =>
    refine .mapWhere h fun _ _ _ _ hrun => ?_
    cases hrun
  | reap => exact .erase h _
  | create hfree hnew =>
    refine .insert h fun hrun => ?_
    rw [creates_ready hnew] at hrun
    cases hrun
  | lose hcur hemp =>
    intro i p hp hrun
    -- the only slot that could be running is empty
    cases hcur.symm.trans (h i p hp hrun)
    rw [hemp] at hp
    cases hp

lemma OneRunning.givesUp (h : t.OneRunning) (hstep : GivesUp H t t') : t'.OneRunning := by
  cases hstep with
  | nothing => exact h
  | block => exact h.update _ fun p => by rintro ⟨⟩
  | exit => exact (h.kill _).wake _
  | fault => exact h.kill _

lemma OneRunning.suspend (h : t.OneRunning) : t.suspend.NoneRunning := by
  intro i p' hp' hrun
  obtain ⟨p, hp, ⟨hnot, rfl⟩ | ⟨-, rfl⟩⟩ := exists_of_where hp'
  · exact hnot ⟨h i p' hp hrun, hrun⟩
  · cases hrun

lemma NoneRunning.run (h : t.NoneRunning) (next : Pid) : (t.run next).OneRunning := by
  intro i p hp hrun
  change (t.update next _).tasks i = some p at hp
  obtain ⟨q, hq, ⟨-, rfl⟩ | ⟨hi, -⟩⟩ := exists_of_where hp
  · exact absurd hrun (h i p hq)
  · rw [hi]
    rfl

lemma OneRunning.signalled (h : t.OneRunning) (hstep : Signalled H t t') : t'.OneRunning := by
  cases hstep with
  | nothing => exact h
  | killed => exact (h.update _ fun p => by rintro ⟨⟩).wake _
  | badStack => exact h.update _ fun p => by rintro ⟨⟩
  | stopped => exact (h.update _ fun p => by rintro ⟨⟩).wake _
  | ignored => exact h.wake _

lemma OneRunning.sameLife (h : t.OneRunning) (hs : t.SameLife t') : t'.OneRunning := by
  intro i p hp hrun
  rw [hs.tasks] at hp
  rw [hs.currentPid]
  exact h i p hp hrun

lemma OneRunning.switch (h : t.OneRunning) (hstep : Switch H t t') : t'.OneRunning := by
  obtain ⟨t0, t1, next, hs, -, hsig, hs'⟩ := hstep.life
  exact (((h.sameLife hs).suspend.run next).signalled hsig).sameLife hs'

end Table

namespace Kernel

/-- In every state that the kernel can get to, a running process is the one that `current_pid`
names. -/
theorem Runs.one_running (M : Mapper) (k0 k : Kernel) (hblank : k0.Blank)
    (h : Runs M (fun _ _ => True) k0 k) :
    (∀ i p, k.procs i = some p → p.state = .running → k.currentPid = some i) ∧
      ∀ i j p q, k.procs i = some p → k.procs j = some q → p.state = .running →
        q.state = .running → i = j := by
  obtain ⟨-, -, hone⟩ := Runs.table_invariant (H := fun _ _ => True) (I := Table.OneRunning)
    (J := Table.OneRunning) (fun _ _ _ _ _ _ _ _ => trivial) (fun _ _ _ _ h hm => h.calm hm)
    (fun _ _ _ _ h hm => h.givesUp hm) (fun _ _ _ h hm => h.switch hm) hblank (hblank.all _) h
  have hcur : ∀ i p, k.procs i = some p → p.state = .running → k.currentPid = some i :=
    fun i p hp hrun => hone i p.task (table_tasks hp) hrun
  refine ⟨hcur, fun i j p q hp hq hip hjq => ?_⟩
  exact Option.some.inj ((hcur i p hp hip).symm.trans (hcur j q hq hjq))

/-- After the start of the system the init process is running, and no other. -/
theorem Runs.one_running_init : ∃ k, Runs referenceMapper (fun _ _ => True) emptyKernel k ∧
    (k.procs initSlot).map Process.state = some .running ∧
      ∀ j q, k.procs j = some q → q.state = .running → j = initSlot := by
  have hplay : plays referenceMapper (fun _ _ => True) bootEvents emptyKernel
      (fun k => (k.procs initSlot).map Process.state == some .running) = true := by
    decide +kernel
  obtain ⟨k, hruns, htest⟩ := runs_of_plays hplay
  have hsta := beq_iff_eq.mp htest
  obtain ⟨p, hp, hrun⟩ := Option.map_eq_some_iff.mp hsta
  refine ⟨k, hruns, hsta, fun j q hq hjq => ?_⟩
  exact (one_running _ _ k emptyKernel_blank hruns).2 j _ q p hq hp hjq hrun

end Kernel

end Indominus.Sys
