import Indominus.Sched.Family

/-!
# Orphans

`sys_exit` and faults give children to init; Ctrl-C and a fatal signal do not.
-/

namespace Indominus.Sys

open Memory

namespace Table

variable {t t' : Table} {v : Pid}

/-- If the task has a parent on record, that parent is there and alive. -/
def ParentLives (t : Table) (q : Task) : Prop :=
  ∀ n, q.parentPid = some n → ∃ w p, w.val = n ∧ t.tasks w = some p ∧ p.state ≠ .zombie ∧
    p.generation = q.parentGeneration

def Childless (t : Table) (v : Pid) : Prop := ∀ i q, t.tasks i = some q → q.parentPid ≠ some v.val

/-- Every parent on record is alive, and init can adopt. -/
structure NoOrphans (t : Table) : Prop where
  parents : ∀ i q, t.tasks i = some q → t.ParentLives q
  init : t.initPid = IDLE_PID ∨ ∃ p, t.tasks t.initPid = some p ∧ p.parentPid = none ∧
    p.generation = t.generations t.initPid

end Table

/-- A task that dies has no children, or init adopts them; a new task has a live parent. -/
def Adopts (t : Table) : Hazard → Prop
  | .foreground targets => ∀ z, targets z = true → t.Childless z
  | .exit | .fault => ∀ v p, t.current = some (v, p) → t.Childless v ∨
      t.initPid ≠ IDLE_PID ∧ v ≠ t.initPid ∧ ∀ q, t.tasks t.initPid = some q → q.state ≠ .zombie
  | .die _ => ∀ v p, t.current = some (v, p) → t.Childless v
  | .create _ _ task _ => t.ParentLives task
  | _ => True

namespace Table

variable {t t' : Table} {v : Pid}

/-! ## Moves -/

lemma ParentLives.kin {q q' : Task} (h : t.ParentLives q) (hkin : q.Kin q') : t.ParentLives q' := by
  rw [ParentLives, hkin.parentPid, hkin.parentGeneration]
  exact h

lemma ParentLives.livesOn {q : Task} (h : t.ParentLives q)
    (hliv : ∀ w p, q.parentPid = some w.val → t.tasks w = some p → p.state ≠ .zombie →
      t'.LivesOn w p) : t'.ParentLives q := by
  intro n hn
  obtain ⟨w, p, rfl, hp, hlive, hgen⟩ := h n hn
  obtain ⟨p', hp', hkin, hlive'⟩ := hliv w p hn hp hlive
  exact ⟨w, p', rfl, hp', hlive', hkin.generation.trans hgen⟩

section

variable (h : t.NoOrphans)

include h

lemma NoOrphans.transfer {D : Pid → Prop} (hbred : t.Bred D t') (hdies : ∀ w, D w → t.Childless w)
    (hgens : t'.generations = t.generations) (hinit : t'.initPid = t.initPid) : t'.NoOrphans := by
  constructor
  · intro i q' hq'
    obtain ⟨q, hq, hkin⟩ := hbred.kin hq'
    refine .kin ((h.parents i q hq).livesOn fun w p hpar hp hlive => ?_) hkin
    exact (hbred.lives hp hlive).resolve_right fun hw => hdies w hw i q hq hpar
  rw [hinit, hgens]
  refine h.init.imp_right ?_
  rintro ⟨p, hp, hnone, hgen⟩
  obtain ⟨p', hp', hkin, -⟩ := hbred.taken _ p hp
  exact ⟨p', hp', hkin.parentPid.trans hnone, hkin.generation.trans hgen⟩

lemma NoOrphans.wake (who : Pid → Bool) : (t.wake who).NoOrphans :=
  h.transfer (bred_wake who) (fun _ hw => absurd hw id) rfl rfl

lemma NoOrphans.kill (hv : t.Childless v ∨ t.initPid ≠ IDLE_PID ∧ v ≠ t.initPid ∧
    ∀ q, t.tasks t.initPid = some q → q.state ≠ .zombie) : (t.kill v).NoOrphans := by
  have hliv : ∀ w p, t.tasks w = some p → p.state ≠ .zombie → w ≠ v → ∃ p',
      (t.kill v).tasks w = some p' ∧ p'.state ≠ .zombie ∧ p'.generation = p.generation := by
    intro w p hp hlive hne
    refine ⟨t.adopted v p, ?_, by rwa [adopted_state], adopted_generation v p⟩
    rw [kill_tasks, hp, Option.map_some, if_neg hne]
  constructor
  · intro i q' hq'
    obtain ⟨q, hq, hq'⟩ := exists_of_kill hq'
    have hkin : (t.adopted v q).Kin q' := by
      rw [hq']
      split <;> exact ⟨rfl, rfl, rfl⟩
    refine .kin (fun n hn => ?_) hkin
    by_cases hpar : q.parentPid = some v.val
    · -- init adopts the task
      obtain ⟨hidle, hne, hali⟩ := hv.resolve_left fun hcls => hcls i q hq hpar
      obtain ⟨p, hp, hnone, hgen⟩ := h.init.resolve_left hidle
      obtain ⟨p', hp', hlive', hgen'⟩ := hliv t.initPid p hp (hali p hp) hne.symm
      have had := adopted_of_child (t := t) hpar
      rw [had.1] at hn
      refine ⟨t.initPid, p', Option.some.inj hn, hp', hlive', ?_⟩
      rw [hgen', hgen, had.2]
    rw [adopted_of_ne hpar] at hn ⊢
    obtain ⟨w, p, rfl, hp, hlive, hgen⟩ := h.parents i q hq n hn
    have hne : w ≠ v := by
      rintro rfl
      exact hpar hn
    obtain ⟨p', hp', hlive', hgen'⟩ := hliv w p hp hlive hne
    exact ⟨w, p', rfl, hp', hlive', hgen'.trans hgen⟩
  refine h.init.imp_right ?_
  rintro ⟨p, hp, hnone, hgen⟩
  have hne : p.parentPid ≠ some v.val := by
    rw [hnone]
    rintro ⟨⟩
  change ∃ p, (t.kill v).tasks t.initPid = some p ∧ _
  rw [kill_tasks, hp, Option.map_some, adopted_of_ne hne]
  split
  · exact ⟨p.dead, rfl, hnone, hgen⟩
  · exact ⟨p, rfl, hnone, hgen⟩

lemma NoOrphans.calm (hstep : Calm Adopts t t') : t'.NoOrphans := by
  constructor
  · intro i q' hq'
    rcases hstep.kin hq' with ⟨q, hq, hkin⟩ | ⟨hfree, origin, holding, _, -, hadopts, htsk⟩
    · refine .kin ((h.parents i q hq).livesOn fun w p hpar hp hlive => ?_) hkin
      rcases hstep.stays hp with ⟨⟨p', hp', hkin', hon⟩, -⟩ | ⟨hzom, -⟩
      · refine ⟨p', hp', hkin', (hon hlive).resolve_right ?_⟩
        rintro ⟨targets, hadopts, hw⟩
        exact hadopts w hw i q hq hpar
      · exact absurd hzom hlive
    -- the parent of a new task is in another slot
    have hpar : t.ParentLives q' := hadopts
    refine hpar.livesOn fun w p _ hp hlive => ⟨p, ?_, .refl p, hlive⟩
    rw [htsk, Function.update_of_ne, hp]
    rintro rfl
    rw [hfree] at hp
    cases hp
  rcases hstep.init with hsame | hnew
  · rw [hsame]
    refine h.init.imp_right ?_
    rintro ⟨p, hp, hnone, hgen⟩
    rcases hstep.stays hp with ⟨⟨p', hp', hkin, -⟩, hgens⟩ | ⟨-, cur, -, hpar⟩
    · exact ⟨p', hp', hkin.parentPid.trans hnone, (hkin.generation.trans hgen).trans hgens.symm⟩
    · rw [hnone] at hpar
      cases hpar
  · exact .inr hnew

lemma NoOrphans.givesUp (hstep : GivesUp Adopts t t') : t'.NoOrphans := by
  obtain ⟨hgens, hinit⟩ := hstep.same
  rcases hstep.death with hbred | ⟨v, q, who, hcur, hdies, rfl⟩
  · exact h.transfer hbred (fun _ hw => hw.elim) hgens hinit
  · have hadopts : t.Childless v ∨ _ := hdies.elim (fun hd => hd v q hcur) fun hd => hd v q hcur
    exact (h.kill hadopts).wake who

lemma NoOrphans.switch (hstep : Switch Adopts t t') : t'.NoOrphans := by
  obtain ⟨hgens, hinit⟩ := hstep.same
  obtain ⟨t1, hrun, hbred⟩ := hstep.bred
  refine h.transfer hbred ?_ hgens hinit
  rintro w ⟨q, death, hcur, hdie⟩ i c hc hpar
  obtain ⟨c1, hc1, hkin1, -⟩ := (hrun fun _ => False).taken i c hc
  exact hdie w q hcur i c1 hc1 (hkin1.parentPid.trans hpar)

end

end Table

/-! ## Runs -/

namespace Kernel

variable {M : Mapper} {k k' : Kernel} {ev : Event} {v : Pid}

def Childless (k : Kernel) (v : Pid) : Prop := ∀ i, ∀ q ∈ k.procs i, q.parentPid ≠ some v.val

instance (k : Kernel) (v : Pid) : Decidable (k.Childless v) :=
  inferInstanceAs (Decidable (∀ i : Pid, ∀ q ∈ k.procs i, q.parentPid ≠ some v.val))

/-- Init has been started, is alive, and is not the process in this slot. -/
def InitLives (k : Kernel) (v : Pid) : Prop :=
  k.initPid ≠ IDLE_PID ∧ v ≠ k.initPid ∧ ∀ q ∈ k.procs k.initPid, q.state ≠ .zombie

instance (k : Kernel) (v : Pid) : Decidable (k.InitLives v) := inferInstanceAs (Decidable (_ ∧ _))

def Lives (k : Kernel) (n : Nat) : Prop := ∃ slot ∈ pidSlot n, ∃ p ∈ k.procs slot, p.state ≠ .zombie

instance (k : Kernel) (n : Nat) : Decidable (k.Lives n) := inferInstanceAs (Decidable (∃ _ ∈ _, _))

/-- Ctrl-C hits only processes without children; one that exits has none, or init can adopt them; a
new process gets a live parent. -/
def Provides (k : Kernel) : Event → Prop
  | .key signal => signal = 2 ∨ signal = 3 → ∀ z, ∀ p ∈ k.procs z,
      k.isForegroundTarget signal z p = true → k.Childless z
  | .syscall _ _ (.exit _) => ∀ x ∈ k.current, k.Childless x.1 ∨ k.InitLives x.1
  | .syscall _ _ (.fork _ _) => ∀ x ∈ k.current, x.2.state ≠ .zombie
  | .spawnUser _ parent _ => ∀ n ∈ parent, k.Lives n
  | _ => True

instance (k : Kernel) (ev : Event) : Decidable (k.Provides ev) := by
  induction ev using Event.casesOn with
  | syscall savedRsp frame call =>
    induction call using Syscall.casesOn <;> dsimp only [Provides] <;> infer_instance
  | _ =>
    dsimp only [Provides]
    infer_instance

/-- `Provides`, and who is killed by a fault or a signal has no children, or after a fault init can
adopt them. -/
def LeavesNoOrphans (M : Mapper) (k : Kernel) (ev : Event) : Prop :=
  k.Provides ev ∧ (k.faults ev = true → ∀ x ∈ k.current, k.Childless x.1 ∨ k.InitLives x.1) ∧
    ∀ k1 ∈ k.decision M ev, ∀ x ∈ k1.switchNext.2.current, ∀ death ∈ x.2.signalDeath,
      k1.switchNext.2.Childless x.1

instance (M : Mapper) (k : Kernel) (ev : Event) : Decidable (k.LeavesNoOrphans M ev) :=
  inferInstanceAs (Decidable (_ ∧ _))

lemma Childless.table (h : k.Childless v) : k.table.Childless v := by
  intro i q hq
  obtain ⟨p, hp, rfl⟩ := exists_of_table_tasks hq
  exact h i p hp

lemma InitLives.table (h : k.InitLives v) : k.table.initPid ≠ IDLE_PID ∧ v ≠ k.table.initPid ∧
    ∀ q, k.table.tasks k.table.initPid = some q → q.state ≠ .zombie := by
  obtain ⟨hidle, hne, hlive⟩ := h
  refine ⟨hidle, hne, fun q hq => ?_⟩
  obtain ⟨p, hp, rfl⟩ := exists_of_table_tasks hq
  exact hlive p hp

lemma Provides.creates (h : k.Provides ev) {origin : Origin} {slot : Pid} {task : Task}
    {holding : Holding} {gens : Pid → Nat} (hev : ev.origin = some origin)
    (hnew : Creates k.table origin slot task holding gens) (hheld : k.Supplies ev task holding) :
    k.table.ParentLives task := by
  intro n hn
  cases hnew with
  | idle | kernel => cases hn
  | user _ parent =>
    have hpar : parent = some n := hn
    subst hpar
    have hliv : k.Lives n := by
      cases ev with
      | spawnUser elf parent stack => exact h n hheld.2.1.symm
      | spawnInit elf stack => cases hheld.2.1
      | syscall savedRsp frame call => cases call <;> cases hev
      | _ => cases hev
    obtain ⟨w, hw, p, hp, hlive⟩ := hliv
    have hslot : pidSlot n = some w := hw
    refine ⟨w, p.task, val_of_pidSlot hslot, table_tasks hp, hlive, ?_⟩
    simp only [Table.generationOf, Option.bind_some, hslot, table_tasks hp]
    rfl
  | fork _ hcur =>
    obtain ⟨p, hp, rfl⟩ := exists_of_table_current hcur
    have hlive : p.state ≠ .zombie := by
      cases ev with
      | syscall savedRsp frame call =>
        cases call with
        | fork => exact h _ hp
        | _ => cases hev
      | _ => cases hev
    exact ⟨_, p.task, Option.some.inj hn, table_tasks (procs_of_current hp), hlive, rfl⟩

/-- The condition on events gives the permission that the invariant needs. -/
lemma LeavesNoOrphans.permits (h : k.LeavesNoOrphans M ev) {t : Table} {hz : Hazard}
    (hocc : Occurs M k ev t hz) : Adopts t hz := by
  obtain ⟨hprovides, hflt, hsig⟩ := h
  cases hocc with
  | foreground hfatal =>
    intro z hz
    obtain ⟨p, hp, htgt⟩ := slotsWhere_eq_true.mp hz
    exact (hprovides hfatal z p hp htgt).table
  | create hev _ hnew hheld => exact hprovides.creates hev hnew hheld
  | exit =>
    intro v p hcur
    obtain ⟨q, hq, rfl⟩ := exists_of_table_current hcur
    exact (hprovides (v, q) hq).imp Childless.table InitLives.table
  | fault hev =>
    intro v p hcur
    obtain ⟨q, hq, rfl⟩ := exists_of_table_current hcur
    exact (hflt hev (v, q) hq).imp Childless.table InitLives.table
  | die hdcn hpicked _ hdeath =>
    intro v p hcur
    obtain ⟨q, hq, rfl⟩ := exists_of_table_current hcur
    cases hpicked.symm.trans hq
    exact (hsig _ hdcn (_, _) hpicked _ hdeath).table
  | _ => trivial

lemma Runs.noOrphans {k0 : Kernel} (hbl : k0.Blank) (h : Runs M (LeavesNoOrphans M) k0 k) :
    k.table.Sound ∧ k.table.CurrentAwake ∧ k.table.NoOrphans := by
  have hst : k0.table.NoOrphans := by
    refine ⟨fun i q hq => ?_, .inl hbl.initPid⟩
    rw [hbl.tasks] at hq
    cases hq
  exact Runs.table_invariant (J := Table.NoOrphans)
    (fun _ _ _ _ _ _ hcond hocc => hcond.permits hocc) (fun _ _ _ _ hI hmove => hI.calm hmove)
    (fun _ _ _ _ hI hmove => hI.givesUp hmove) (fun _ _ _ hI hmove => hI.switch hmove) hbl
    hst h

/-- In runs whose events leave no orphans, each parent on record is alive, and a process that loses
its parent has init. -/
theorem Runs.no_orphans (M : Mapper) (k₀ k : Kernel) (hblank : k₀.Blank)
    (h : Runs M (LeavesNoOrphans M) k₀ k) :
    (∀ i q n, k.procs i = some q → q.parentPid = some n → ∃ w p, w.val = n ∧
      k.procs w = some p ∧ p.state ≠ .zombie ∧ p.generation = q.parentGeneration) ∧
    ∀ ev k' i v q q', k.LeavesNoOrphans M ev → k.Steps M ev k' → k.procs i = some q →
      k'.procs i = some q' → q.parentPid = some v.val →
      (∀ p', k'.procs v = some p' → p'.state = .zombie) →
      hasParent q' k'.initPid (k'.getGeneration k'.initPid) = true := by
  -- the first part, for the last state and for the one after it
  have hpars : ∀ k, Runs M (LeavesNoOrphans M) k₀ k → ∀ i q n, k.procs i = some q →
      q.parentPid = some n → ∃ w p, w.val = n ∧ k.procs w = some p ∧ p.state ≠ .zombie ∧
        p.generation = q.parentGeneration := by
    intro k h i q n hq hn
    obtain ⟨w, t, hw, ht, hlive, hgen⟩ :=
      (Runs.noOrphans hblank h).2.2.parents i q.task (table_tasks hq) n hn
    obtain ⟨p, hp, rfl⟩ := exists_of_table_tasks ht
    exact ⟨w, p, hw, hp, hlive, hgen⟩
  refine ⟨hpars k h, fun ev k' i v q q' hcond hstep hq hq' hpar hdead => ?_⟩
  obtain ⟨hsnd, -, -⟩ := Runs.noOrphans hblank h
  -- no process is created in the slot of the child
  have href : Table.Step (fun _ hz => ∀ o task holding, hz ≠ .create o i task holding) k.table
      k'.table := by
    refine hstep.refines hsnd.tidy ?_
    rintro t hz hocc o task holding rfl
    rw [Occurs.slot_free hstep.1 hocc] at hq
    cases hq
  rcases href.kin (fun t o task holding hH => hH o task holding rfl) (table_tasks hq)
    (table_tasks hq') with hkin | hch
  · obtain ⟨w, p, hw, hp, hlive, -⟩ := hpars k' (h.tail ⟨ev, hcond, hstep⟩) i q' v.val hq'
      (hkin.parentPid.trans hpar)
    obtain rfl : w = v := Fin.ext hw
    exact absurd (hdead p hp) hlive
  · exact hasParent_iff.mpr hch

/-- Init forks, its child forks, and the child exits: init adopts the grandchild. -/
theorem Runs.no_orphans_exit : ∃ k k' q q', Runs referenceMapper (LeavesNoOrphans referenceMapper)
    emptyKernel k ∧ k.Steps referenceMapper (call (.exit 0)) k' ∧
    k.procs grandchildSlot = some q ∧ q.parentPid = some childSlot.val ∧
    k'.procs grandchildSlot = some q' ∧
    hasParent q' k'.initPid (k'.getGeneration k'.initPid) = true := by
  have hplay : plays referenceMapper (LeavesNoOrphans referenceMapper)
      (bootEvents ++ [call (.fork (some 0x40000) (some 0x50000)), call .yield,
        call (.fork (some 0x60000) (some 0x70000))]) emptyKernel
      (fun k => decide (k.LeavesNoOrphans referenceMapper (call (.exit 0))) &&
        (k.procs grandchildSlot).any (fun q => q.parentPid == some childSlot.val) &&
        k.stepMeets referenceMapper (call (.exit 0)) fun k' =>
          (k'.procs grandchildSlot).isSome &&
            (k'.procs childSlot).all fun p => p.state == .zombie) = true := by
    decide +kernel
  obtain ⟨k, hruns, htest⟩ := runs_of_plays hplay
  simp only [Bool.and_eq_true, decide_eq_true_eq, Option.any_eq_true, beq_iff_eq] at htest
  obtain ⟨⟨hcond, q, hq, hpar⟩, hmt⟩ := htest
  obtain ⟨k', hstep, haft⟩ := steps_of_stepMeets hmt
  simp only [Bool.and_eq_true, Option.isSome_iff_exists, Option.all_eq_true, beq_iff_eq] at haft
  obtain ⟨⟨q', hq'⟩, hdead⟩ := haft
  exact ⟨k, k', q, q', hruns, hstep, hq, hpar, hq',
    (no_orphans _ _ k emptyKernel_blank hruns).2 _ k' _ childSlot q q' hcond hstep hq hq' hpar
      hdead⟩

/-- Ctrl-C kills the child of init: the grandchild is alive, and its parent on record is a
zombie. -/
theorem Runs.orphan_left : ∃ k q p r, Runs referenceMapper (fun _ _ => True) emptyKernel k ∧
    k.procs grandchildSlot = some q ∧ q.state = .ready ∧ q.parentPid = some childSlot.val ∧
    k.procs childSlot = some p ∧ p.state = .zombie ∧ k.procs k.initPid = some r ∧
      r.state = .ready := by
  have hplay : plays referenceMapper (fun _ _ => True)
      (bootEvents ++ [call (.fork (some 0x40000) (some 0x50000)), call .yield,
        call (.fork (some 0x60000) (some 0x70000)), call (.setpgid 0 0), .key 2]) emptyKernel
      (fun k => (k.procs grandchildSlot).any (fun q => q.state == .ready &&
          q.parentPid == some childSlot.val) &&
        (k.procs childSlot).any (fun p => p.state == .zombie) &&
        (k.procs k.initPid).any fun r => r.state == .ready) = true := by
    decide +kernel
  obtain ⟨k, hruns, htest⟩ := runs_of_plays hplay
  simp only [Bool.and_eq_true, Option.any_eq_true, beq_iff_eq] at htest
  obtain ⟨⟨⟨q, hq, hrdy, hpar⟩, p, hp, hzom⟩, r, hr, hali⟩ := htest
  exact ⟨k, q, p, r, hruns, hq, hrdy, hpar, hp, hzom, hr, hali⟩

end Kernel

end Indominus.Sys
