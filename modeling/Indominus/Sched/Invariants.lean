import Indominus.Sched.Refinement

/-! # Invariants of the process table -/

namespace Indominus.Sys

open Memory Option

/-! ## Induction -/

variable {I J : Table → Prop}

lemma Table.Step.preserves {H : Permits} {t t' : Table}
    (hcalm : ∀ t t', I t → Calm H t t' → I t') (hgive : ∀ t t', I t → GivesUp H t t' → J t')
    (hswitch : ∀ t t', J t → Switch H t t' → I t') (ht : I t) (h : Table.Step H t t') : I t' := by
  obtain ⟨t1, hclm, hrest⟩ := h
  have ht1 : I t1 := by
    clear hrest
    induction hclm with
    | refl => exact ht
    | tail _ hlast ih => exact hcalm _ _ ih hlast
  rcases hrest with rfl | ⟨t2, hup, hsw⟩
  · exact ht1
  · exact hswitch _ _ (hgive _ _ ht1 hup) hsw

lemma Kernel.Runs.invariant {M : Mapper} {cond : Kernel → Event → Prop} {P : Kernel → Prop}
    {k k' : Kernel} (hstep : ∀ k ev k', P k → cond k ev → k.Steps M ev k' → P k') (hk : P k)
    (h : Kernel.Runs M cond k k') : P k' := by
  induction h with
  | refl => exact hk
  | tail _ hlast ih =>
    obtain ⟨ev, hcond, hlast⟩ := hlast
    exact hstep _ ev _ ih hcond hlast

namespace Table

variable {t : Table} {pid : Pid} {P : Pid → Task → Prop}

/-! ## Properties of all tasks -/

def All (t : Table) (P : Pid → Task → Prop) : Prop := ∀ i p, t.tasks i = some p → P i p

section Where

variable {c : Pid → Task → Prop} [∀ i p, Decidable (c i p)] {g : Task → Task}

/-- Some tasks are changed. -/
lemma exists_of_where {i : Pid} {p' : Task}
    (h : (t.mapTasks fun i p => if c i p then g p else p).tasks i = some p') :
    ∃ p, t.tasks i = some p ∧ (¬c i p ∧ p' = p ∨ c i p ∧ p' = g p) := by
  obtain ⟨p, hp, rfl⟩ := map_eq_some_iff.mp h
  by_cases hc : c i p
  · exact ⟨p, hp, .inr ⟨hc, if_pos hc⟩⟩
  · exact ⟨p, hp, .inl ⟨hc, if_neg hc⟩⟩

lemma All.mapWhere (h : t.All P) (hg : ∀ i p, c i p → t.tasks i = some p → P i (g p)) :
    (t.mapTasks fun i p => if c i p then g p else p).All P := by
  intro i p' hp'
  obtain ⟨p, hp, ⟨-, rfl⟩ | ⟨hc, rfl⟩⟩ := exists_of_where hp'
  · exact h i p' hp
  · exact hg i p hc hp

end Where

lemma All.update {f : Task → Task} (h : t.All P)
    (hf : ∀ p, t.tasks pid = some p → P pid (f p)) : (t.update pid f).All P :=
  h.mapWhere fun _ p hi hp => hi ▸ hf p (hi ▸ hp)

lemma All.wake {who : Pid → Bool} (h : t.All P) (hf : ∀ i p, P i p → P i p.woken) :
    (t.wake who).All P :=
  h.mapWhere fun i p _ hp => hf i p (h i p hp)

variable {v : Pid} {p : Task}

lemma All.wakeParent (h : t.All P) (hf : ∀ i p, P i p → P i p.woken) : (t.wakeParent v p).All P :=
  h.wake hf

/-! ## Deaths -/

lemma adopted_of_ne (h : p.parentPid ≠ some v.val) : t.adopted v p = p :=
  if_neg h

lemma adopted_of_child (h : p.parentPid = some v.val) :
    (t.adopted v p).IsChild t.initPid (t.generations t.initPid) := by
  rw [adopted, if_pos h]
  exact ⟨rfl, rfl⟩

lemma adopted_eq (t : Table) (v : Pid) (p : Task) :
    ∃ parent gen, t.adopted v p = { p with parentPid := parent, parentGeneration := gen } := by
  rw [adopted]
  split <;> exact ⟨_, _, rfl⟩

@[simp] lemma adopted_state (v : Pid) (p : Task) : (t.adopted v p).state = p.state := by
  obtain ⟨_, _, h⟩ := adopted_eq t v p
  rw [h]

@[simp] lemma adopted_wakeReason (v : Pid) (p : Task) :
    (t.adopted v p).wakeReason = p.wakeReason := by
  obtain ⟨_, _, h⟩ := adopted_eq t v p
  rw [h]

@[simp] lemma adopted_generation (v : Pid) (p : Task) :
    (t.adopted v p).generation = p.generation := by
  obtain ⟨_, _, h⟩ := adopted_eq t v p
  rw [h]

@[simp] lemma adopted_isUser (v : Pid) (p : Task) : (t.adopted v p).isUser = p.isUser := by
  obtain ⟨_, _, h⟩ := adopted_eq t v p
  rw [h]

lemma kill_tasks (t : Table) (v i : Pid) : (t.kill v).tasks i =
      (t.tasks i).map fun p => if i = v then (t.adopted v p).dead else t.adopted v p := by
  rw [kill, update_tasks, adopt, mapTasks_tasks]
  split
  · rw [map_map]
    rfl
  · rfl

lemma exists_of_kill {i : Pid} {q' : Task} (h : (t.kill v).tasks i = some q') :
    ∃ q, t.tasks i = some q ∧ q' = if i = v then (t.adopted v q).dead else t.adopted v q := by
  rw [kill_tasks, map_eq_some_iff] at h
  obtain ⟨q, hq, rfl⟩ := h
  exact ⟨q, hq, rfl⟩

lemma All.kill (had : ∀ i p, t.tasks i = some p → P i (t.adopted v p))
    (hdead : ∀ p, P v (t.adopted v p) → P v (t.adopted v p).dead) : (t.kill v).All P := by
  intro i q' hq'
  obtain ⟨q, hq, rfl⟩ := exists_of_kill hq'
  split
  · rename_i hi
    subst hi
    exact hdead q (had i q hq)
  · exact had i q hq

/-! ## Sound tasks -/

end Table

structure Task.Sound (i : Pid) (p : Task) : Prop where
  pid : p.pid = i.val
  flags : ∀ fd, p.fdFlags fd = 0
  awake : p.state = .ready ∨ p.state = .running → p.wakeReason = .none
  idle : i = IDLE_PID → p.isUser = false ∧ (p.state = .ready ∨ p.state = .running)

namespace Task.Sound

variable {i : Pid} {p : Task}

lemma ne_idle (h : Task.Sound i p) (huser : p.isUser = true) : i ≠ IDLE_PID := by
  intro hidle
  rw [(h.idle hidle).1] at huser
  cases huser

lemma woken (h : Task.Sound i p) : Task.Sound i p.woken :=
  ⟨h.pid, h.flags, fun _ => rfl, fun hidle => ⟨(h.idle hidle).1, .inl rfl⟩⟩

lemma dead (h : Task.Sound i p) (hidle : i ≠ IDLE_PID) : Task.Sound i p.dead :=
  ⟨h.pid, h.flags, by rintro (⟨⟨⟩⟩ | ⟨⟨⟩⟩), fun hi => absurd hi hidle⟩

lemma stopped (h : Task.Sound i p) (hidle : i ≠ IDLE_PID) : Task.Sound i p.stopped :=
  ⟨h.pid, h.flags, fun _ => rfl, fun hi => absurd hi hidle⟩

lemma blockedOn (h : Task.Sound i p) (hidle : i ≠ IDLE_PID) (reason : WakeReason) :
    Task.Sound i (p.blockedOn reason) :=
  ⟨h.pid, h.flags, by rintro (⟨⟨⟩⟩ | ⟨⟨⟩⟩), fun hi => absurd hi hidle⟩

end Task.Sound

namespace Table

variable {H : Permits} {t t' : Table} {pid : Pid}

def Sound (t : Table) : Prop := t.All Task.Sound

def CurrentAwake (t : Table) : Prop :=
  ∀ i p, t.currentPid = some i → t.tasks i = some p → p.wakeReason = .none

lemma Sound.tidy (h : t.Sound) : t.Tidy :=
  ⟨fun i p hp => (h i p hp).pid, fun i p fd hp => (h i p hp).flags fd⟩

variable {p task : Task} {slot next : Pid} {P : Pid → Task → Prop}

lemma Sound.current_ne_idle (h : t.Sound) (hcur : t.current = some (pid, p))
    (huser : p.isUser = true) : pid ≠ IDLE_PID :=
  (h pid p (current_eq_some.mp hcur).2).ne_idle huser

lemma Sound.kill (h : t.Sound) (hidle : pid ≠ IDLE_PID) : (t.kill pid).Sound := by
  refine All.kill (fun i p hp => ?_) fun p hp => hp.dead hidle
  obtain ⟨_, _, had⟩ := adopted_eq t pid p
  have hs := h i p hp
  rw [had]
  exact ⟨hs.pid, hs.flags, hs.awake, hs.idle⟩

lemma sound_create {origin : Origin} {holding : Holding} {gens : Pid → Nat}
    (h : Creates t origin slot task holding gens) : Task.Sound slot task := by
  cases h with
  | idle stack => exact ⟨rfl, fun _ => rfl, fun _ => rfl, fun _ => ⟨rfl, .inl rfl⟩⟩
  | kernel hslot stack => exact ⟨rfl, fun _ => rfl, fun _ => rfl, fun hi => absurd hi hslot⟩
  | user hslot => exact ⟨rfl, fun _ => rfl, fun _ => rfl, fun hi => absurd hi hslot⟩
  | fork hslot => exact ⟨rfl, fun _ => rfl, fun _ => rfl, fun hi => absurd hi hslot⟩

lemma All.erase (h : t.All P) (slot : Pid) :
    ∀ i p, Function.update t.tasks slot none i = some p → P i p := by
  intro i p hp
  rw [Function.update_apply] at hp
  split at hp
  · cases hp
  · exact h i p hp

lemma All.insert (h : t.All P) (htask : P slot task) :
    ∀ i p, Function.update t.tasks slot (some task) i = some p → P i p := by
  intro i p hp
  rw [Function.update_apply] at hp
  split at hp
  · rename_i hi
    rw [← some.inj hp, hi]
    exact htask
  · exact h i p hp

lemma Sound.calm (h : t.Sound) (hstep : Calm H t t') : t'.Sound := by
  cases hstep with
  | wake pipes who hwho hpip => exact .wake (t := { t with pipes := pipes }) h fun i p => .woken
  | openPipe | bump | setInit | exec | drain | save | lose => exact h
  | load =>
    rw [load]
    split <;> exact h
  | foreground targets htgts =>
    exact .wake (All.mapWhere h fun i p hi hp => (h i p hp).dead (htgts i hi).1) fun i p => .woken
  | stop targets htgts => exact .mapWhere h fun i p hi hp => (h i p hp).stopped (htgts i hi).1
  | reap => exact .erase h _
  | create hfree hnew => exact .insert h (sound_create hnew)

lemma Sound.givesUp (h : t.Sound) (hstep : GivesUp H t t') : t'.Sound := by
  cases hstep with
  | nothing => exact h
  | block hcur huser =>
    exact .update h fun p hp => (h _ p hp).blockedOn (h.current_ne_idle hcur huser) _
  | exit hcur huser => exact .wake (h.kill (h.current_ne_idle hcur huser)) fun i p => .woken
  | fault hcur huser => exact h.kill (h.current_ne_idle hcur huser)

lemma Sound.suspend (h : t.Sound) : t.suspend.Sound := by
  refine .mapWhere h fun i p hrun hp => ?_
  have hp' := h i p hp
  exact ⟨hp'.pid, hp'.flags, fun _ => hp'.awake (.inr hrun.2),
    fun hi => ⟨(hp'.idle hi).1, .inl rfl⟩⟩

lemma Sound.canRun (h : t.Sound) (hnext : t.CanRun next) (hp : t.tasks next = some p) :
    p.wakeReason = .none := by
  rcases hnext with ⟨q, hq, hrdy⟩ | hidle
  · rw [hp, some.injEq] at hq
    exact (h next p hp).awake (.inl (hq ▸ hrdy))
  · exact (h next p hp).awake ((h next p hp).idle hidle).2

lemma Sound.run (h : t.Sound) (hnext : t.CanRun next) :
    (t.run next).Sound ∧ (t.run next).CurrentAwake := by
  constructor
  · refine .update (t := t) h fun p hp => ?_
    have hp' := h next p hp
    have hawk := h.canRun hnext hp
    exact ⟨hp'.pid, hp'.flags, fun _ => hawk, fun hi => ⟨(hp'.idle hi).1, .inr rfl⟩⟩
  intro i p hi hp
  cases hi
  change (t.update next _).tasks next = some p at hp
  rw [update_tasks, if_pos rfl, map_eq_some_iff] at hp
  obtain ⟨q, hq, rfl⟩ := hp
  have hawk := h.canRun hnext hq
  exact hawk

lemma CurrentAwake.wake (h : t.CurrentAwake) (who : Pid → Bool) : (t.wake who).CurrentAwake := by
  intro i p hi hp
  obtain ⟨q, hq, ⟨-, rfl⟩ | ⟨-, rfl⟩⟩ := exists_of_where hp
  · exact h i p hi hq
  · rfl

lemma CurrentAwake.update (f : Task → Task) (h : t.CurrentAwake)
    (hf : ∀ p, p.wakeReason = .none → (f p).wakeReason = .none) :
    (t.update pid f).CurrentAwake := by
  intro i p hi hp
  obtain ⟨q, hq, ⟨-, rfl⟩ | ⟨-, rfl⟩⟩ := exists_of_where hp
  · exact h i p hi hq
  · exact hf q (h i q hi hq)

lemma Sound.signalled (h : t.Sound) (hcur : t.CurrentAwake) (hstep : Signalled H t t') :
    t'.Sound ∧ t'.CurrentAwake := by
  cases hstep with
  | nothing => exact ⟨h, hcur⟩
  | killed hc huser =>
    have hidle := h.current_ne_idle hc huser
    exact ⟨All.wakeParent (All.update h fun p hp => (h _ p hp).dead hidle) fun i p => .woken,
      CurrentAwake.wake (hcur.update Task.dead fun _ hnone => hnone) _⟩
  | badStack hc huser =>
    have hidle := h.current_ne_idle hc huser
    exact ⟨All.update h fun p hp => (h _ p hp).dead hidle,
      hcur.update Task.dead fun _ hnone => hnone⟩
  | stopped hc huser =>
    have hidle := h.current_ne_idle hc huser
    exact ⟨All.wakeParent (All.update h fun p hp => (h _ p hp).stopped hidle) fun i p => .woken,
      CurrentAwake.wake (hcur.update Task.stopped fun _ _ => rfl) _⟩
  | ignored => exact ⟨All.wakeParent h fun i p => .woken, hcur.wake _⟩

/-! ## Switches -/

/-- The two tables differ at most in what the tasks hold of memory. -/
structure SameLife (t t' : Table) : Prop where
  tasks : t'.tasks = t.tasks
  generations : t'.generations = t.generations
  currentPid : t'.currentPid = t.currentPid
  initPid : t'.initPid = t.initPid
  pipes : t'.pipes = t.pipes

lemma SameLife.trans {t1 t2 t3 : Table} (h : t1.SameLife t2) (h' : t2.SameLife t3) :
    t1.SameLife t3 :=
  ⟨h'.tasks.trans h.tasks, h'.generations.trans h.generations, h'.currentPid.trans h.currentPid,
    h'.initPid.trans h.initPid, h'.pipes.trans h.pipes⟩

lemma sameLife_save (t : Table) : t.SameLife t.save := ⟨rfl, rfl, rfl, rfl, rfl⟩

lemma sameLife_load (t : Table) : t.SameLife t.load := by
  rw [load]
  split <;> exact ⟨rfl, rfl, rfl, rfl, rfl⟩

lemma sameLife_loadFirst (t : Table) : t.SameLife t.loadFirst := by
  rw [loadFirst]
  split <;> exact ⟨rfl, rfl, rfl, rfl, rfl⟩

lemma sameLife_bury (t : Table) (v : Pid) (isUser : Bool) (h : Holding) :
    t.SameLife (t.bury v isUser h) := by
  rw [bury]
  split <;> exact ⟨rfl, rfl, rfl, rfl, rfl⟩

end Table

lemma Switch.life {H : Permits} {t t' : Table} (h : Switch H t t') :
    ∃ t0 t1 next, t.SameLife t0 ∧ t0.suspend.CanRun next ∧
      Signalled H (t0.suspend.run next) t1 ∧ t1.SameLife t' := by
  obtain ⟨next, hsave, hnext, hsig, hload, hbury⟩ := h
  rename_i t0 t1 t2
  refine ⟨t0, t1, next, ?_, hnext, hsig, ?_⟩
  · rcases hsave with rfl | rfl
    · exact ⟨rfl, rfl, rfl, rfl, rfl⟩
    · exact t.sameLife_save
  have hmid : t1.SameLife t2 := by
    rcases hload with rfl | ⟨-, rfl⟩
    · exact t1.sameLife_load
    · exact t1.sameLife_loadFirst
  rcases hbury with rfl | ⟨v, p, h, -, -, -, rfl⟩
  · exact hmid
  · exact hmid.trans (t2.sameLife_bury v p.isUser h)

namespace Table

variable {H : Permits} {t t' : Table}

lemma All.sameLife {P : Pid → Task → Prop} (h : t.All P) (hs : t.SameLife t') : t'.All P := by
  intro i p hp
  rw [hs.tasks] at hp
  exact h i p hp

lemma CurrentAwake.sameLife (h : t.CurrentAwake) (hs : t.SameLife t') : t'.CurrentAwake := by
  intro i p hi hp
  rw [hs.currentPid] at hi
  rw [hs.tasks] at hp
  exact h i p hi hp

lemma Sound.switch (h : t.Sound) (hstep : Switch H t t') : t'.Sound ∧ t'.CurrentAwake := by
  obtain ⟨t0, t1, next, hs, hnext, hsig, hs'⟩ := hstep.life
  have hsnd : t0.suspend.Sound := Sound.suspend (All.sameLife h hs)
  obtain ⟨hrun, hcur⟩ := hsnd.run hnext
  obtain ⟨hsnd', hcur'⟩ := hrun.signalled hcur hsig
  exact ⟨All.sameLife hsnd' hs', hcur'.sameLife hs'⟩

lemma CurrentAwake.calm (hcur : t.CurrentAwake) (hstep : Calm H t t') : t'.CurrentAwake := by
  cases hstep with
  | wake pipes who => exact .wake (t := { t with pipes := pipes }) hcur who
  | openPipe | bump | setInit | exec | drain | save => exact hcur
  | load => exact hcur.sameLife t.sameLife_load
  | foreground targets =>
    apply CurrentAwake.wake
    intro i p hi hp
    obtain ⟨q, hq, ⟨-, rfl⟩ | ⟨-, rfl⟩⟩ := exists_of_where hp
    · exact hcur i p hi hq
    · exact hcur i q hi hq
  | stop targets =>
    intro i p hi hp
    obtain ⟨q, hq, ⟨-, rfl⟩ | ⟨-, rfl⟩⟩ := exists_of_where hp
    · exact hcur i p hi hq
    · rfl
  | reap =>
    intro i p hi hp
    exact All.erase (P := fun i p => t.currentPid = some i → p.wakeReason = .none)
      (fun i p hp hi => hcur i p hi hp) _ i p hp hi
  | create hfree hnew =>
    intro i p hi hp
    refine All.insert (P := fun i p => t.currentPid = some i → p.wakeReason = .none)
      (fun i p hp hi => hcur i p hi hp) (fun _ => ?_) i p hp hi
    exact (sound_create hnew).awake (by cases hnew <;> exact .inl rfl)
  | lose =>
    intro i p hi
    cases hi

end Table

/-! ## Runs -/

namespace Kernel

variable {M : Mapper} {cond : Kernel → Event → Prop} {k0 k k' : Kernel}

lemma Blank.tasks (h : k0.Blank) (i : Pid) : k0.table.tasks i = none := by
  simp [table, h.procs i]

lemma Blank.all (h : k0.Blank) (P : Pid → Task → Prop) : k0.table.All P := by
  intro i p hp
  rw [h.tasks] at hp
  cases hp

lemma Occurs.slot_free {ev : Event} {t : Table} {origin : Origin} {slot : Pid} {task : Task}
    {holding : Holding} (hcan : k.canHappen ev = true)
    (hocc : Occurs M k ev t (.create origin slot task holding)) : k.procs slot = none := by
  cases hocc with
  | create hev hslot =>
    rcases hslot with ⟨rfl, rfl⟩ | hfree
    · cases ev with
      | spawnIdle stack =>
        simp only [canHappen, Bool.and_eq_true, isNone_iff_eq_none] at hcan
        exact hcan.2
      | syscall savedRsp frame call => cases call <;> cases hev
      | _ => cases hev
    · exact (freeSlot_cases hfree).1

/-- The rule for runs: `I` between events, `J` while nobody has the CPU. -/
lemma Runs.table_invariant {H : Permits}
    (hperm : ∀ k ev t h, k.table.Sound → I k.table → cond k ev → Occurs M k ev t h → H t h)
    (hcalm : ∀ t t', t.Sound → t.CurrentAwake → I t → Calm H t t' → I t')
    (hgive : ∀ t t', t.Sound → t.CurrentAwake → I t → GivesUp H t t' → J t')
    (hsw : ∀ t t', t.Sound → J t → Switch H t t' → I t') (hbl : k0.Blank) (hI : I k0.table)
    (h : Runs M cond k0 k) : k.table.Sound ∧ k.table.CurrentAwake ∧ I k.table := by
  have hst : k0.table.Sound ∧ k0.table.CurrentAwake ∧ I k0.table := by
    refine ⟨hbl.all _, ?_, hI⟩
    intro i p _ hp
    rw [hbl.tasks] at hp
    cases hp
  refine Runs.invariant (P := fun k => k.table.Sound ∧ k.table.CurrentAwake ∧ I k.table) ?_ hst h
  rintro k ev k' ⟨hsnd, hcur, hI⟩ hcond hstep
  have href := hstep.refines hsnd.tidy fun t h hocc => hperm k ev t h hsnd hI hcond hocc
  refine Table.Step.preserves (I := fun t => t.Sound ∧ t.CurrentAwake ∧ I t)
    (J := fun t => t.Sound ∧ J t) ?_ ?_ ?_ ⟨hsnd, hcur, hI⟩ href
  · rintro t t' ⟨hs, hc, hi⟩ hmove
    exact ⟨hs.calm hmove, hc.calm hmove, hcalm t t' hs hc hi hmove⟩
  · rintro t t' ⟨hs, hc, hi⟩ hmove
    exact ⟨hs.givesUp hmove, hgive t t' hs hc hi hmove⟩
  rintro t t' ⟨hs, hj⟩ hmove
  obtain ⟨hs', hc'⟩ := hs.switch hmove
  exact ⟨hs', hc', hsw t t' hs hj hmove⟩

lemma Runs.sound (hbl : k0.Blank) (h : Runs M cond k0 k) :
    k.table.Sound ∧ k.table.CurrentAwake := by
  obtain ⟨hsnd, hcur, -⟩ := Runs.table_invariant (H := fun _ _ => True) (I := fun _ => True)
    (J := fun _ => True) (fun _ _ _ _ _ _ _ _ => trivial) (fun _ _ _ _ _ _ => trivial)
    (fun _ _ _ _ _ _ => trivial) (fun _ _ _ _ _ => trivial) hbl trivial h
  exact ⟨hsnd, hcur⟩

/-- **The kernel refines the table machine** with the hazards of its events, and keeps the table
sound. -/
theorem Runs.refines_table (hblank : k0.Blank) (h : Runs M cond k0 k) : Relation.ReflTransGen
    (Table.Step fun t hz => ∃ k ev, cond k ev ∧ Occurs M k ev t hz) k0.table k.table ∧
      k.table.Sound ∧ k.table.CurrentAwake := by
  refine ⟨?_, Runs.sound hblank h⟩
  induction h with
  | refl => exact .refl
  | tail hrun hlast ih =>
    obtain ⟨ev, hcond, hstep⟩ := hlast
    have htidy := (Runs.sound hblank hrun).1.tidy
    exact ih.tail (hstep.refines htidy fun _ _ hocc => ⟨_, ev, hcond, hocc⟩)

/-- The boot events, up to the point where `init` runs, are steps of the abstract table. -/
theorem Runs.refines_table_boot : ∃ k, Runs referenceMapper (fun _ _ => True) emptyKernel k ∧
    k.currentPid = some initSlot ∧ Relation.ReflTransGen (Table.Step fun t hz =>
      ∃ k ev, True ∧ Occurs referenceMapper k ev t hz) emptyKernel.table k.table := by
  have hplay : plays referenceMapper (fun _ _ => True) bootEvents emptyKernel
      (fun k => k.currentPid == some initSlot) = true := by
    decide +kernel
  obtain ⟨k, hrun, htest⟩ := runs_of_plays hplay
  exact ⟨k, hrun, beq_iff_eq.mp htest, (hrun.refines_table emptyKernel_blank).1⟩

end Kernel

end Indominus.Sys
