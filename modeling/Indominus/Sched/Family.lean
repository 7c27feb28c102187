import Indominus.Sched.Invariants

/-! # Parents on record -/

namespace Indominus.Sys

open Memory Function

/-- The second task has the same parent and generation on record as the first. -/
structure Task.Kin (p p' : Task) : Prop where
  parentPid : p'.parentPid = p.parentPid
  parentGeneration : p'.parentGeneration = p.parentGeneration
  generation : p'.generation = p.generation

lemma Task.Kin.refl (p : Task) : p.Kin p := ⟨rfl, rfl, rfl⟩

lemma Task.Kin.trans {p q r : Task} (h : p.Kin q) (h' : q.Kin r) : p.Kin r :=
  ⟨h'.parentPid.trans h.parentPid, h'.parentGeneration.trans h.parentGeneration,
    h'.generation.trans h.generation⟩

lemma Task.Kin.isChild {p p' : Task} (h : p.Kin p') {w : Pid} {gen : Nat} :
    p'.IsChild w gen ↔ p.IsChild w gen := by
  rw [Task.IsChild, Task.IsChild, h.parentPid, h.parentGeneration]

namespace Table

variable {H : Permits} {t t' t1 : Table} {D : Pid → Prop} {i v : Pid} {p p' : Task}

/-- The task in slot `i` is still there and alive. -/
def LivesOn (t' : Table) (i : Pid) (p : Task) : Prop :=
  ∃ p', t'.tasks i = some p' ∧ p.Kin p' ∧ p'.state ≠ .zombie

/-- All tasks stay, with the parents that they have, and of those alive only tasks in slots of `D`
may die. -/
structure Bred (D : Pid → Prop) (t t' : Table) : Prop where
  free : ∀ i, t.tasks i = none → t'.tasks i = none
  taken : ∀ i p, t.tasks i = some p →
    ∃ p', t'.tasks i = some p' ∧ p.Kin p' ∧ (p.state ≠ .zombie → p'.state ≠ .zombie ∨ D i)

lemma Bred.kin (h : t.Bred D t') (hp' : t'.tasks i = some p') :
    ∃ p, t.tasks i = some p ∧ p.Kin p' := by
  cases hp : t.tasks i with
  | none => cases (h.free i hp).symm.trans hp'
  | some p =>
    obtain ⟨q, hq, hkin, -⟩ := h.taken i p hp
    cases hq.symm.trans hp'
    exact ⟨p, rfl, hkin⟩

lemma Bred.stays (h : t.Bred D t') (hp : t.tasks i = some p) : ∃ p', t'.tasks i = some p' := by
  obtain ⟨p', hp', -⟩ := h.taken i p hp
  exact ⟨p', hp'⟩

lemma Bred.lives (h : t.Bred D t') (hp : t.tasks i = some p) (hlive : p.state ≠ .zombie) :
    t'.LivesOn i p ∨ D i := by
  obtain ⟨p', hp', hkin, hon⟩ := h.taken i p hp
  exact (hon hlive).imp_left fun hlive' => ⟨p', hp', hkin, hlive'⟩

lemma Bred.trans (h : t.Bred D t1) (h' : t1.Bred D t') : t.Bred D t' := by
  refine ⟨fun i hi => h'.free i (h.free i hi), fun i p hp => ?_⟩
  obtain ⟨p1, hp1, hkin, hon⟩ := h.taken i p hp
  obtain ⟨p', hp', hkin', hon'⟩ := h'.taken i p1 hp1
  refine ⟨p', hp', hkin.trans hkin', fun hlive => ?_⟩
  rcases hon hlive with hlive1 | hi
  · exact hon' hlive1
  · exact .inr hi

lemma bred_congr (h : t'.tasks = t.tasks) : t.Bred D t' :=
  ⟨fun i hi => by rwa [h], fun i p hp => ⟨p, by rwa [h], .refl p, .inl⟩⟩

/-- Some tasks are changed. -/
lemma bred_where {c : Pid → Task → Prop} [∀ i p, Decidable (c i p)] {g : Task → Task}
    (hg : ∀ p : Task, p.Kin (g p)) (hlive : ∀ i p, c i p → (g p).state ≠ .zombie ∨ D i) :
    t.Bred D (t.mapTasks fun i p => if c i p then g p else p) := by
  refine ⟨fun i hi => by rw [mapTasks_tasks, hi, Option.map_none], fun i p hp => ?_⟩
  refine ⟨_, by rw [mapTasks_tasks, hp, Option.map_some], ?_⟩
  split
  · rename_i hc
    exact ⟨hg p, fun _ => hlive i p hc⟩
  · exact ⟨.refl p, .inl⟩

lemma bred_alive {g : Task → Task} (hg : ∀ p : Task, p.Kin (g p))
    (hlive : ∀ p, (g p).state ≠ .zombie) (v : Pid) : t.Bred D (t.update v g) :=
  bred_where hg fun _ p _ => .inl (hlive p)

lemma bred_dead (hv : D v) : t.Bred D (t.update v Task.dead) :=
  bred_where (fun _ => ⟨rfl, rfl, rfl⟩) fun _ _ hi => .inr (hi ▸ hv)

lemma bred_wake (who : Pid → Bool) : t.Bred D (t.wake who) :=
  bred_where (fun _ => ⟨rfl, rfl, rfl⟩) fun _ _ _ => .inl (by rintro ⟨⟩)

lemma bred_suspend : t.Bred D t.suspend :=
  bred_where (g := fun p => { p with state := .ready }) (fun _ => ⟨rfl, rfl, rfl⟩) fun _ _ _ =>
    .inl (by rintro ⟨⟩)

lemma bred_foregroundKill (targets : Pid → Bool) :
    t.Bred (fun i => targets i = true) (t.foregroundKill targets) := by
  refine .trans ?_ (bred_wake _)
  exact bred_where (g := Task.dead) (fun _ => ⟨rfl, rfl, rfl⟩) fun _ _ hi => .inr hi

lemma bred_stop (targets : Pid → Bool) : t.Bred D (t.foregroundStop targets) :=
  bred_where (fun _ => ⟨rfl, rfl, rfl⟩) fun _ _ _ => .inl (by rintro ⟨⟩)

lemma bred_stopped (v : Pid) : t.Bred D (t.update v Task.stopped) :=
  bred_alive (g := Task.stopped) (fun _ => ⟨rfl, rfl, rfl⟩) (fun _ => by rintro ⟨⟩) v

lemma bred_blocked (reason : WakeReason) (v : Pid) :
    t.Bred D (t.update v (Task.blockedOn reason)) :=
  bred_alive (g := Task.blockedOn reason) (fun _ => ⟨rfl, rfl, rfl⟩) (fun _ => by rintro ⟨⟩) v

lemma Bred.mono {E : Pid → Prop} (h : t.Bred D t') (hDE : ∀ i, D i → E i) : t.Bred E t' := by
  refine ⟨h.free, fun i p hp => ?_⟩
  obtain ⟨p', hp', hkin, hon⟩ := h.taken i p hp
  exact ⟨p', hp', hkin, fun hlive => (hon hlive).imp_right (hDE i)⟩

lemma bred_run (next : Pid) : t.Bred D (t.run next) := by
  have hnext := bred_alive (t := t) (D := D) (g := fun p => { p with state := .running })
    (fun _ => ⟨rfl, rfl, rfl⟩) (fun _ => by rintro ⟨⟩) next
  exact ⟨hnext.free, hnext.taken⟩

end Table

open Table

variable {H : Permits} {t t' : Table} {i : Pid} {p p' : Task}

/-! ## Moves -/

lemma Calm.family (hstep : Calm H t t') :
    (∃ origin slot task holding generations, t.tasks slot = none ∧
      Creates t origin slot task holding generations ∧ H t (.create origin slot task holding) ∧
        t'.tasks = update t.tasks slot (some task) ∧ t'.generations = generations) ∨
    (∃ slot, t.tasks slot = none ∧ H t (.bump slot) ∧ t'.tasks = t.tasks ∧
      t'.generations = t.bumped slot) ∨
    ((∃ slot p cur, t.tasks slot = some p ∧ p.state = .zombie ∧ t.currentPid = some cur ∧
        p.parentPid = some cur.val ∧ t'.tasks = update t.tasks slot none) ∨
      t.Bred (fun i => ∃ targets, H t (.foreground targets) ∧ targets i = true) t') ∧
      t'.generations = t.generations := by
  cases hstep with
  | create hfree hnew h => exact .inl ⟨_, _, _, _, _, hfree, hnew, h, rfl, rfl⟩
  | bump hfree _ h => exact .inr (.inl ⟨_, hfree, h, rfl, rfl⟩)
  | reap _ hp hzom hcur hpar => exact .inr (.inr ⟨.inl ⟨_, _, _, hp, hzom, hcur, hpar, rfl⟩, rfl⟩)
  | wake pipes who =>
    refine .inr (.inr ⟨.inr (Bred.trans (bred_congr ?_) (bred_wake who)), rfl⟩)
    rfl
  | openPipe | setInit | exec | drain | save | lose =>
      exact .inr (.inr ⟨.inr (bred_congr rfl), rfl⟩)
  | load => exact .inr (.inr ⟨.inr (bred_congr t.sameLife_load.tasks), t.sameLife_load.generations⟩)
  | foreground targets _ h =>
    exact .inr (.inr ⟨.inr ((bred_foregroundKill targets).mono fun _ hi => ⟨targets, h, hi⟩), rfl⟩)
  | stop targets => exact .inr (.inr ⟨.inr (bred_stop targets), rfl⟩)

lemma Calm.kin (hstep : Calm H t t') (hp' : t'.tasks i = some p') :
    (∃ p, t.tasks i = some p ∧ p.Kin p') ∨ t.tasks i = none ∧ ∃ origin holding generations,
      Creates t origin i p' holding generations ∧ H t (.create origin i p' holding) ∧
        t'.tasks = update t.tasks i (some p') := by
  rcases hstep.family with ⟨origin, slot, task, holding, _, hfree, hnew, h, htsk, -⟩ |
    ⟨slot, -, -, htsk, -⟩ | ⟨⟨slot, _, _, -, -, -, -, htsk⟩ | hbred, -⟩
  · by_cases hi : i = slot
    · subst hi
      rw [htsk, update_self] at hp'
      cases hp'
      exact .inr ⟨hfree, origin, holding, _, hnew, h, htsk⟩
    · rw [htsk, update_of_ne hi] at hp'
      exact .inl ⟨p', hp', .refl p'⟩
  · exact .inl ⟨p', htsk ▸ hp', .refl p'⟩
  · rw [htsk] at hp'
    exact .inl ⟨p', All.erase (P := fun i p => t.tasks i = some p) (fun _ _ hp => hp) _ i p' hp',
      .refl p'⟩
  · exact .inl (hbred.kin hp')

/-- The task of a slot stays, or the running task has reaped it. -/
lemma Calm.stays (hstep : Calm H t t') (hp : t.tasks i = some p) :
    (∃ p', t'.tasks i = some p' ∧ p.Kin p' ∧ (p.state ≠ .zombie → p'.state ≠ .zombie ∨
        ∃ targets, H t (.foreground targets) ∧ targets i = true)) ∧
        t'.generations i = t.generations i ∨
      p.state = .zombie ∧ ∃ cur, t.currentPid = some cur ∧ p.parentPid = some cur.val := by
  have hne : ∀ slot, t.tasks slot = none → i ≠ slot := by
    rintro slot hfree rfl
    rw [hfree] at hp
    cases hp
  rcases hstep.family with ⟨_, slot, task, _, gens, hfree, hnew, -, htsk, hgens⟩ |
    ⟨slot, hfree, -, htsk, hgens⟩ | ⟨⟨slot, q, cur, hq, hzom, hcur, hpar, htsk⟩ | hbred, hgens⟩
  · refine .inl ⟨⟨p, by rwa [htsk, update_of_ne (hne slot hfree)], .refl p, .inl⟩, ?_⟩
    rw [hgens]
    cases hnew with
    | idle | fork => rfl
    | kernel | user => exact update_of_ne (hne _ hfree) _ _
  · exact .inl ⟨⟨p, htsk ▸ hp, .refl p, .inl⟩, hgens ▸ update_of_ne (hne slot hfree) _ _⟩
  · by_cases hi : i = slot
    · subst hi
      cases hp.symm.trans hq
      exact .inr ⟨hzom, cur, hcur, hpar⟩
    · exact .inl ⟨⟨p, by rwa [htsk, update_of_ne hi], .refl p, .inl⟩, congrFun hgens i⟩
  · exact .inl ⟨hbred.taken i p hp, congrFun hgens i⟩

lemma Calm.init (hstep : Calm H t t') : t'.initPid = t.initPid ∨
    ∃ p, t'.tasks t'.initPid = some p ∧ p.parentPid = none ∧
      p.generation = t'.generations t'.initPid := by
  cases hstep with
  | setInit hp hpar hgen => exact .inr ⟨_, hp, hpar, hgen⟩
  | load => exact .inl t.sameLife_load.initPid
  | _ => exact .inl rfl

lemma GivesUp.death (hstep : GivesUp H t t') : t.Bred (fun _ => False) t' ∨
      ∃ v q who, t.current = some (v, q) ∧ (H t .exit ∨ H t .fault) ∧ t' = (t.kill v).wake who := by
  cases hstep with
  | nothing => exact .inl (bred_congr rfl)
  | block => exact .inl (bred_blocked _ _)
  | exit hcur _ h => exact .inr ⟨_, _, _, hcur, .inl h, rfl⟩
  | fault hcur _ h =>
    exact .inr ⟨_, _, fun _ => false, hcur, .inr h, (wake_nobody fun _ => rfl).symm⟩

lemma GivesUp.same (hstep : GivesUp H t t') :
    t'.generations = t.generations ∧ t'.initPid = t.initPid := by
  cases hstep <;> exact ⟨rfl, rfl⟩

lemma Signalled.same (hstep : Signalled H t t') :
    t'.generations = t.generations ∧ t'.initPid = t.initPid := by
  cases hstep <;> exact ⟨rfl, rfl⟩

lemma Signalled.bred (hstep : Signalled H t t') :
    t.Bred (fun i => ∃ q death, t.current = some (i, q) ∧ H t (.die death)) t' := by
  cases hstep with
  | nothing => exact bred_congr rfl
  | killed hcur _ h => exact (bred_dead ⟨_, _, hcur, h⟩).trans (bred_wake _)
  | badStack hcur _ h => exact bred_dead ⟨_, _, hcur, h⟩
  | stopped => exact (bred_stopped _).trans (bred_wake _)
  | ignored => exact bred_wake _

lemma Switch.bred (hstep : Switch H t t') : ∃ t1, (∀ D, t.Bred D t1) ∧
    t.Bred (fun i => ∃ q death, t1.current = some (i, q) ∧ H t1 (.die death)) t' := by
  obtain ⟨t0, t1, next, hs, -, hsig, hs'⟩ := hstep.life
  have hrun : ∀ D, t.Bred D (t0.suspend.run next) := fun D =>
    ((bred_congr hs.tasks).trans bred_suspend).trans (bred_run next)
  exact ⟨_, hrun, ((hrun _).trans hsig.bred).trans (bred_congr hs'.tasks)⟩

lemma Switch.kin (hstep : Switch H t t') (hp' : t'.tasks i = some p') :
    ∃ p, t.tasks i = some p ∧ p.Kin p' := by
  obtain ⟨_, -, hbred⟩ := hstep.bred
  exact hbred.kin hp'

lemma Switch.same (hstep : Switch H t t') :
    t'.generations = t.generations ∧ t'.initPid = t.initPid := by
  obtain ⟨t0, t1, next, hs, -, hsig, hs'⟩ := hstep.life
  exact ⟨hs'.generations.trans (hsig.same.1.trans hs.generations),
    hs'.initPid.trans (hsig.same.2.trans hs.initPid)⟩

/-- A step leaves the parent as it is or makes it init. -/
lemma Table.Step.kin (hstep : Table.Step H t t')
    (hnew : ∀ t origin task holding, ¬H t (.create origin i task holding)) (hp : t.tasks i = some p)
    (hp' : t'.tasks i = some p') :
    p.Kin p' ∨ p'.IsChild t'.initPid (t'.generations t'.initPid) := by
  obtain ⟨t1, hclm, hrest⟩ := hstep
  have hcalm : ∀ p1, t1.tasks i = some p1 → p.Kin p1 := by
    clear hrest
    induction hclm with
    | refl =>
      intro p1 hp1
      rw [Option.some.inj (hp.symm.trans hp1)]
      exact .refl p1
    | tail _ hlast ih =>
      intro p1 hp1
      rcases hlast.kin hp1 with ⟨p0, hp0, hkin⟩ | ⟨-, _, _, _, -, hcr, -⟩
      · exact (ih p0 hp0).trans hkin
      · exact absurd hcr (hnew _ _ _ _)
  rcases hrest with rfl | ⟨t2, hup, hsw⟩
  · exact .inl (hcalm p' hp')
  obtain ⟨p2, hp2, hkin2⟩ := hsw.kin hp'
  rcases hup.death with hbred | ⟨v, q, who, -, -, rfl⟩
  · obtain ⟨p1, hp1, hkin1⟩ := hbred.kin hp2
    exact .inl (((hcalm p1 hp1).trans hkin1).trans hkin2)
  obtain ⟨q2, hq2, hkinw⟩ := (bred_wake (D := fun _ => False) who).kin hp2
  obtain ⟨p1, hp1, rfl⟩ := exists_of_kill hq2
  have had : (t1.adopted v p1).Kin p' := by
    refine .trans ?_ (hkinw.trans hkin2)
    split <;> exact ⟨rfl, rfl, rfl⟩
  by_cases hpar : p1.parentPid = some v.val
  · right
    obtain ⟨hgens, hinit⟩ := hsw.same
    rw [hgens, hinit]
    exact had.isChild.mpr (adopted_of_child hpar)
  · rw [adopted_of_ne hpar] at had
    exact .inl ((hcalm p1 hp1).trans had)

end Indominus.Sys
