import Indominus.Sched.Invariants

/-!
# Zombies

A zombie comes back if a loop looks at its wake reason only, or if it was killed while it had the
CPU.
-/

namespace Indominus.Sys

open Memory

def WakeReason.forChild : WakeReason → Bool
  | .waitForChild _ => true
  | _ => false

/-! ## The condition -/

/-- Ctrl-C and Ctrl-\ hit no process that waits for a child, and no zombie makes a system call. -/
def Kernel.SparesZombies (k : Kernel) : Event → Prop
  | .key signal => signal = 2 ∨ signal = 3 → ∀ i, ∀ p ∈ k.procs i,
      k.isForegroundTarget signal i p = true → p.wakeReason.forChild = false
  | .syscall _ _ _ => ∀ x ∈ k.current, x.2.state ≠ .zombie
  | _ => True

instance (k : Kernel) (ev : Event) : Decidable (k.SparesZombies ev) := by
  induction ev using Event.casesOn <;> dsimp only [Kernel.SparesZombies] <;> infer_instance

/-- The hazards that the condition permits.  No task is created in a slot of `C`. -/
def Spares (C : Set Pid) (t : Table) : Hazard → Prop
  | .foreground targets => ∀ i p, targets i = true → t.tasks i = some p →
      p.wakeReason.forChild = false
  | .create _ slot _ _ => slot ∉ C
  | .block => ∀ i p, t.current = some (i, p) → p.state ≠ .zombie
  | _ => True

namespace Table

variable {C : Set Pid} {t t' : Table} {pid : Pid}

/-! ## The invariant -/

/-- No zombie waits for a child, and every task in a slot of `C` is a zombie. -/
def Rests (C : Set Pid) (t : Table) : Prop :=
  t.All fun i p => (p.state = .zombie → p.wakeReason.forChild = false) ∧ (i ∈ C → p.state = .zombie)

variable {p : Task} {next : Pid}

lemma forChild_of_waitsFor {child : Nat} (hp : t.tasks pid = some p)
    (h : t.waitsFor pid child = true) : p.wakeReason.forChild = true := by
  simp only [waitsFor, hp, Bool.or_eq_true, beq_iff_eq] at h
  rcases h with h | h <;> rw [h] <;> rfl

lemma Rests.wake (h : t.Rests C) {who : Pid → Bool}
    (hwho : ∀ i p, who i = true → t.tasks i = some p → p.state ≠ .zombie) :
    (t.wake who).Rests C := by
  refine .mapWhere h fun i p hi hp => ⟨?_, fun hC => absurd ((h i p hp).2 hC) (hwho i p hi hp)⟩
  rintro ⟨⟩

lemma Rests.die (h : t.Rests C)
    (hwait : ∀ p, t.tasks pid = some p → p.wakeReason.forChild = false) :
    (t.update pid Task.dead).Rests C :=
  All.update h fun p hp => ⟨fun _ => hwait p hp, fun _ => rfl⟩

lemma Rests.kill (h : t.Rests C)
    (hwait : ∀ p, t.tasks pid = some p → p.wakeReason.forChild = false) : (t.kill pid).Rests C := by
  intro i q' hq'
  obtain ⟨q, hq, rfl⟩ := exists_of_kill hq'
  split
  · rename_i hi
    subst hi
    refine ⟨fun _ => ?_, fun _ => rfl⟩
    rw [Task.dead, adopted_wakeReason]
    exact hwait q hq
  · rw [adopted_state, adopted_wakeReason]
    exact h i q hq

lemma Rests.wakeParent (h : t.Rests C) : (t.wakeParent pid p).Rests C := by
  refine h.wake fun i q hi hq hzom => ?_
  -- the parent is woken because of its wake reason, and that of a zombie is another one
  simp only [hq, Bool.and_eq_true, beq_iff_eq] at hi
  have hrest := (h i q hq).1 hzom
  rw [hi.2.2] at hrest
  cases hrest

/-! ## Moves -/

lemma Rests.foreground (h : t.Rests C) {targets : Pid → Bool}
    (hspr : Spares C t (.foreground targets)) : (t.foregroundKill targets).Rests C := by
  apply Rests.wake
  · exact All.mapWhere h fun i p hi hp => ⟨fun _ => hspr i p hi hp, fun _ => rfl⟩
  intro i p hi hp hzom
  rw [Bool.and_eq_true, decide_eq_true_iff] at hi
  obtain ⟨-, z, -, hwts⟩ := hi
  -- whoever is woken waits for a child; a target or an old zombie does not
  obtain ⟨q, hq, ⟨-, rfl⟩ | ⟨htgt, rfl⟩⟩ := exists_of_where hp
  · cases ((h i p hq).1 hzom).symm.trans (forChild_of_waitsFor hq hwts)
  · cases (hspr i q htgt hq).symm.trans (forChild_of_waitsFor hq hwts)

lemma Rests.calm (h : t.Rests C) (hstep : Calm (Spares C) t t') : t'.Rests C := by
  cases hstep with
  | wake pipes who hwho =>
    refine .wake (t := { t with pipes := pipes }) h fun i p hi hp hzom => ?_
    rw [(hwho i p hi hp).1] at hzom
    cases hzom
  | openPipe | bump | setInit | exec | drain | save | lose => exact h
  | load => exact .sameLife h t.sameLife_load
  | foreground targets htgts hspr => exact h.foreground hspr
  | stop targets htgts =>
    refine .mapWhere h fun i p hi hp => ?_
    obtain ⟨-, q, hq, -, hlive⟩ := htgts i hi
    cases hp.symm.trans hq
    exact ⟨by rintro ⟨⟩, fun hC => absurd ((h i p hp).2 hC) hlive⟩
  | reap => exact .erase h _
  | create hfree hnew hspr =>
    refine .insert h ⟨fun hzom => ?_, fun hC => absurd hC hspr⟩
    rw [(sound_create hnew).awake (by cases hnew <;> exact .inl rfl)]
    rfl

lemma CurrentAwake.not_forChild (h : t.CurrentAwake) (hcur : t.current = some (pid, p)) :
    ∀ q, t.tasks pid = some q → q.wakeReason.forChild = false := by
  intro q hq
  rw [h pid q (current_eq_some.mp hcur).1 hq]
  rfl

lemma Rests.givesUp (h : t.Rests C) (hcur : t.CurrentAwake) (hstep : GivesUp (Spares C) t t') :
    t'.Rests C := by
  cases hstep with
  | nothing => exact h
  | block hc _ _ hspr =>
    refine .update h fun p hp => ⟨by rintro ⟨⟩, fun hC => ?_⟩
    have hlive : p.state ≠ .zombie :=
      hspr _ p (current_eq_some.mpr ⟨(current_eq_some.mp hc).1, hp⟩)
    exact absurd ((h _ p hp).2 hC) hlive
  | exit hc =>
    refine (h.kill (hcur.not_forChild hc)).wake fun i p hi hp hzom => ?_
    simp only [isBlocked, hp, hzom, Bool.and_eq_true] at hi
    cases hi.1.2
  | fault hc => exact h.kill (hcur.not_forChild hc)

lemma Rests.suspend (h : t.Rests C) : t.suspend.Rests C := by
  refine .mapWhere h fun i p hrun hp => ⟨by rintro ⟨⟩, fun hC => ?_⟩
  have hzom := (h i p hp).2 hC
  rw [hrun.2] at hzom
  cases hzom

lemma Sound.canRun_alive (h : t.Sound) (hnext : t.CanRun next) (hp : t.tasks next = some p) :
    p.state ≠ .zombie := by
  intro hzom
  rcases hnext with ⟨q, hq, hrdy⟩ | hidle
  · rw [hp, Option.some.injEq] at hq
    rw [← hq, hzom] at hrdy
    cases hrdy
  · rcases ((h next p hp).idle hidle).2 with hs | hs <;> rw [hzom] at hs <;> cases hs

lemma Rests.run (h : t.Rests C) (hsnd : t.Sound) (hnext : t.CanRun next) :
    (t.run next).Rests C := by
  refine .update (t := t) h fun p hp => ⟨by rintro ⟨⟩, fun hC => ?_⟩
  exact absurd ((h next p hp).2 hC) (hsnd.canRun_alive hnext hp)

lemma current_run (h : (t.run next).current = some (pid, p)) : p.state = .running := by
  obtain ⟨hpid, hp⟩ := current_eq_some.mp h
  obtain rfl := Option.some.inj hpid
  change (t.update next _).tasks next = some p at hp
  obtain ⟨q, -, ⟨hne, -⟩ | ⟨-, rfl⟩⟩ := exists_of_where hp
  · exact absurd rfl hne
  · rfl

lemma Rests.signalled (h : t.Rests C) (hcur : t.CurrentAwake)
    (hrun : ∀ i p, t.current = some (i, p) → p.state = .running)
    (hstep : Signalled (Spares C) t t') : t'.Rests C := by
  cases hstep with
  | nothing => exact h
  | killed hc => exact (h.die (hcur.not_forChild hc)).wakeParent
  | badStack hc => exact h.die (hcur.not_forChild hc)
  | stopped hc =>
    apply Rests.wakeParent
    refine All.update h fun p hp => ⟨by rintro ⟨⟩, fun hC => ?_⟩
    have hzom := (h _ p hp).2 hC
    rw [hrun _ p (current_eq_some.mpr ⟨(current_eq_some.mp hc).1, hp⟩)] at hzom
    cases hzom
  | ignored => exact h.wakeParent

lemma Rests.switch (h : t.Rests C) (hsnd : t.Sound) (hstep : Switch (Spares C) t t') :
    t'.Rests C := by
  obtain ⟨t0, t1, next, hs, hnext, hsig, hs'⟩ := hstep.life
  have hsound0 : t0.suspend.Sound := Sound.suspend (All.sameLife hsnd hs)
  have hrest : (t0.suspend.run next).Rests C :=
    Rests.run (Rests.suspend (All.sameLife h hs)) hsound0 hnext
  exact .sameLife
    (hrest.signalled (hsound0.run hnext).2 (fun i p => current_run) hsig) hs'

end Table

namespace Kernel

variable {M : Mapper} {C : Set Pid} {k : Kernel} {ev : Event}

lemma SparesZombies.permits (h : k.SparesZombies ev) {t : Table} {hz : Hazard}
    (hcr : ∀ origin slot task holding, hz = .create origin slot task holding → slot ∉ C)
    (hocc : Occurs M k ev t hz) : Spares C t hz := by
  cases hocc with
  | foreground hsig =>
    intro i p hi hp
    obtain ⟨q, hq, htgt⟩ := slotsWhere_eq_true.mp hi
    cases (table_tasks hq).symm.trans hp
    exact h hsig i q hq htgt
  | create => exact hcr _ _ _ _ rfl
  | block =>
    intro i p hcur
    obtain ⟨q, hq, rfl⟩ := exists_of_table_current hcur
    exact h (i, q) hq
  | _ => trivial

lemma Runs.rests {k0 : Kernel} (hbl : k0.Blank) (h : Runs M SparesZombies k0 k) :
    k.table.Sound ∧ k.table.CurrentAwake ∧ k.table.Rests ∅ :=
  Runs.table_invariant (fun _ _ _ _ _ _ hcond hocc => hcond.permits (fun _ _ _ _ _ => id) hocc)
    (fun _ _ _ _ hI hmove => hI.calm hmove) (fun _ _ _ hcur hI hmove => hI.givesUp hcur hmove)
    (fun _ _ hsnd hI hmove => hI.switch hsnd hmove) hbl (hbl.all _) h

/-- In runs that spare zombies, a zombie stays one until its slot is empty. -/
theorem Runs.zombie_stays (M : Mapper) (k₀ k k' : Kernel) (ev : Event) (i : Pid) (p : Process)
    (hblank : k₀.Blank) (h : Runs M SparesZombies k₀ k) (hcond : k.SparesZombies ev)
    (hstep : k.Steps M ev k') (hp : k.procs i = some p) (hzombie : p.state = .zombie) :
    k'.procs i = none ∨ ∃ p', k'.procs i = some p' ∧ p'.state = .zombie := by
  obtain ⟨hsnd, hcur, hrests⟩ := Runs.rests hblank h
  have hrests : k.table.Rests {i} := by
    intro j q hq
    refine ⟨(hrests j q hq).1, ?_⟩
    rintro rfl
    cases (table_tasks hp).symm.trans hq
    exact hzombie
  -- no process is created in the slot of the zombie
  have href := hstep.refines hsnd.tidy fun t hz hocc => hcond.permits (C := {i}) (by
    rintro origin slot task holding rfl rfl
    rw [Occurs.slot_free hstep.1 hocc] at hp
    cases hp) hocc
  have hkps := Table.Step.preserves
    (I := fun t => t.Sound ∧ t.CurrentAwake ∧ t.Rests {i}) (J := fun t => t.Sound ∧ t.Rests {i})
    (fun t t' ⟨hs, hc, hr⟩ hmove => ⟨hs.calm hmove, hc.calm hmove, hr.calm hmove⟩)
    (fun t t' ⟨hs, hc, hr⟩ hmove => ⟨hs.givesUp hmove, hr.givesUp hc hmove⟩)
    (fun t t' ⟨hs, hr⟩ hmove => ⟨(hs.switch hmove).1, (hs.switch hmove).2, hr.switch hs hmove⟩)
    ⟨hsnd, hcur, hrests⟩ href
  cases hp' : k'.procs i with
  | none => exact .inl rfl
  | some p' => exact .inr ⟨p', rfl, (hkps.2.2 i p'.task (table_tasks hp')).2 rfl⟩

/-- Init is killed by Ctrl-C while it runs; it is a zombie after the next timer interrupt, too. -/
theorem Runs.zombie_stays_init : ∃ k k', Runs referenceMapper SparesZombies emptyKernel k ∧
    (k.procs initSlot).map Process.state = some .zombie ∧
    k.Steps referenceMapper (.timer 0x1000 ⟨0, 0, 0⟩) k' ∧ (k'.procs initSlot = none ∨
      ∃ p', k'.procs initSlot = some p' ∧ p'.state = .zombie) := by
  have hplay : plays referenceMapper SparesZombies (bootEvents ++ [.key 2]) emptyKernel
      (fun k => (k.procs initSlot).map Process.state == some .zombie &&
        k.stepMeets referenceMapper (.timer 0x1000 ⟨0, 0, 0⟩) fun _ => true) = true := by
    decide +kernel
  obtain ⟨k, hruns, htest⟩ := runs_of_plays hplay
  rw [Bool.and_eq_true, beq_iff_eq] at htest
  obtain ⟨k', hstep, -⟩ := steps_of_stepMeets htest.2
  obtain ⟨p, hp, hzom⟩ := Option.map_eq_some_iff.mp htest.1
  have hcond : k.SparesZombies (.timer 0x1000 ⟨0, 0, 0⟩) := trivial
  exact ⟨k, k', hruns, htest.1, hstep,
    zombie_stays _ _ k k' _ _ p emptyKernel_blank hruns hcond hstep hp hzom⟩

/-- Init is killed by Ctrl-C while it runs, and calls `sys_sleep`: the zombie is blocked, and will
be ready again. -/
theorem Runs.zombie_sleeps : ∃ k k', Runs referenceMapper (fun _ _ => True) emptyKernel k ∧
    (k.procs initSlot).map Process.state = some .zombie ∧
      k.Steps referenceMapper (call (.sleep 5)) k' ∧
    (k'.procs initSlot).map Process.state = some .blocked := by
  have hplay : plays referenceMapper (fun _ _ => True) (bootEvents ++ [.key 2]) emptyKernel
      (fun k => (k.procs initSlot).map Process.state == some .zombie &&
        k.stepMeets referenceMapper (call (.sleep 5)) fun k =>
          (k.procs initSlot).map Process.state == some .blocked) = true := by
    decide +kernel
  obtain ⟨k, hruns, htest⟩ := runs_of_plays hplay
  rw [Bool.and_eq_true, beq_iff_eq] at htest
  obtain ⟨k', hstep, hblk⟩ := steps_of_stepMeets htest.2
  exact ⟨k, k', hruns, htest.1, hstep, beq_iff_eq.mp hblk⟩

end Kernel

end Indominus.Sys
