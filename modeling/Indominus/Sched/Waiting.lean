import Indominus.Sched.Family

/-!
# Waiting for children

Each way to die has its own code to wake the parent; a delivered signal wakes only a parent that
waits for this very child, and a fault wakes nobody.
-/

namespace Indominus.Sys

open Memory Option

namespace Table

variable {t t' : Table} {v w i : Pid} {c : Nat}

/-! ## Waiting tasks and dead children -/

/-- The task in slot `w` is blocked in `sys_waitpid` for this child; 0 stands for any child. -/
def Waiting (t : Table) (w : Pid) (c : Nat) : Prop :=
  ∃ p, t.tasks w = some p ∧ p.state = .blocked ∧ p.wakeReason = .waitForChild c

/-- Slot `i` holds a zombie whose parent is the task in slot `w`. -/
def DeadChild (t : Table) (w i : Pid) : Prop :=
  ∃ q, t.tasks i = some q ∧ q.IsChild w (t.generations w) ∧ q.state = .zombie

structure Prompt (t : Table) : Prop where
  known : ∀ w i, t.Waiting w i.val → i.val ≠ 0 →
    ∃ q, t.tasks i = some q ∧ q.parentPid = some w.val
  prompt : ∀ w c i, t.Waiting w c → c = 0 ∨ c = i.val → ¬t.DeadChild w i

lemma waitsFor_of_waiting (h : t.Waiting w c) (hc : c = 0 ∨ c = i.val) :
    t.waitsFor w i.val = true := by
  obtain ⟨p, hp, -, hwhy⟩ := h
  rw [waitsFor, hp]
  rcases hc with rfl | rfl <;> simp [hwhy]

lemma isBlocked_of_waiting (h : t.Waiting w c) : t.isBlocked w = true := by
  obtain ⟨p, hp, hblk, -⟩ := h
  rw [isBlocked, hp]
  exact beq_iff_eq.mpr hblk

lemma Sound.waiting_ne_idle (h : t.Sound) (hw : t.Waiting w c) : w ≠ IDLE_PID := by
  rintro rfl
  obtain ⟨p, hp, hblk, -⟩ := hw
  rcases ((h _ p hp).idle rfl).2 with hs | hs <;> rw [hblk] at hs <;> cases hs

lemma CurrentAwake.not_waiting (h : t.CurrentAwake) (hcur : t.currentPid = some v) :
    ¬t.Waiting v c := by
  rintro ⟨p, hp, -, hwhy⟩
  rw [h v p hcur hp] at hwhy
  cases hwhy

/-! ## Transfer -/

lemma Prompt.transfer (h : t.Prompt) (hwait : ∀ w c, t'.Waiting w c → t.Waiting w c)
    (hknown : ∀ w i q, t'.Waiting w i.val → t.tasks i = some q → q.parentPid = some w.val →
      ∃ q', t'.tasks i = some q' ∧ q'.parentPid = some w.val)
    (hdead : ∀ w c i, t'.Waiting w c → c = 0 ∨ c = i.val → t'.DeadChild w i → t.DeadChild w i) :
    t'.Prompt := by
  constructor
  · intro w i hw hi
    obtain ⟨q, hq, hpar⟩ := h.known w i (hwait w _ hw) hi
    exact hknown w i q hw hq hpar
  · intro w c i hw hc hch
    exact h.prompt w c i (hwait w c hw) hc (hdead w c i hw hc hch)

variable {D : Pid → Prop} {q : Task} {who : Pid → Bool}

lemma Bred.parent (h : t.Bred D t') (hq : t.tasks i = some q) (hpar : q.parentPid = some w.val) :
    ∃ q', t'.tasks i = some q' ∧ q'.parentPid = some w.val := by
  obtain ⟨q', hq', hkin, -⟩ := h.taken i q hq
  exact ⟨q', hq', hkin.parentPid.trans hpar⟩

lemma Bred.deadChild (h : t.Bred D t') (hgens : t'.generations = t.generations)
    (hdead : t'.DeadChild w i) :
    t.DeadChild w i ∨ D i ∧ ∃ q, t.tasks i = some q ∧ q.IsChild w (t.generations w) := by
  obtain ⟨q', hq', hch, hzom⟩ := hdead
  obtain ⟨q, hq, hkin⟩ := h.kin hq'
  rw [hkin.isChild, hgens] at hch
  by_cases hlive : q.state = .zombie
  · exact .inl ⟨q, hq, hch, hlive⟩
  rcases h.lives hq hlive with ⟨p', hp', -, hlive'⟩ | hi
  · cases hq'.symm.trans hp'
    exact absurd hzom hlive'
  · exact .inr ⟨hi, q, hq, hch⟩

/-- Nobody begins to wait, and nobody waits for one that dies. -/
lemma Prompt.bred (h : t.Prompt) (hbred : t.Bred D t') (hgens : t'.generations = t.generations)
    (hwait : ∀ w c, t'.Waiting w c → t.Waiting w c)
    (hdies : ∀ w c i q, t'.Waiting w c → c = 0 ∨ c = i.val → D i → t.tasks i = some q →
      ¬q.IsChild w (t.generations w)) : t'.Prompt := by
  refine h.transfer hwait (fun w i q _ hq hpar => hbred.parent hq hpar) fun w c i hw hc hch => ?_
  rcases hbred.deadChild hgens hch with hold | ⟨hi, q, hq, hch'⟩
  · exact hold
  · exact absurd hch' (hdies w c i q hw hc hi hq)

lemma Prompt.eased (h : t.Prompt) (hbred : t.Bred (fun _ => False) t')
    (hgens : t'.generations = t.generations) (hwait : ∀ w c, t'.Waiting w c → t.Waiting w c) :
    t'.Prompt :=
  h.bred hbred hgens hwait fun _ _ _ _ _ _ hi => hi.elim

lemma Prompt.congr (h : t.Prompt) (htsk : t'.tasks = t.tasks)
    (hgens : t'.generations = t.generations) : t'.Prompt := by
  refine h.eased (bred_congr htsk) hgens fun w c hw => ?_
  rwa [Waiting, htsk] at hw

/-- Some tasks are changed into ones that do not wait for a child. -/
lemma waiting_where {g : Task → Task} {a : Pid → Task → Prop} [∀ i p, Decidable (a i p)]
    (hg : ∀ p c, (g p).state = .blocked → (g p).wakeReason ≠ .waitForChild c)
    (h : (t.mapTasks fun i p => if a i p then g p else p).Waiting w c) :
    t.Waiting w c ∧ ∃ p, t.tasks w = some p ∧ ¬a w p := by
  obtain ⟨p', hp', hblk, hwhy⟩ := h
  obtain ⟨p, hp, ⟨hnot, rfl⟩ | ⟨-, rfl⟩⟩ := exists_of_where hp'
  · exact ⟨⟨p', hp, hblk, hwhy⟩, p', hp, hnot⟩
  · exact absurd hwhy (hg p c hblk)

lemma waiting_wake (h : (t.wake who).Waiting w c) : who w = false ∧ t.Waiting w c := by
  obtain ⟨hwait, -, -, hnot⟩ := waiting_where (fun _ _ hblk => by cases hblk) h
  exact ⟨Bool.eq_false_iff.mpr hnot, hwait⟩

lemma waiting_die (h : (t.update v Task.dead).Waiting w c) : t.Waiting w c :=
  (waiting_where (fun _ _ hblk => by cases hblk) h).1

lemma Prompt.wake (h : t.Prompt) (who : Pid → Bool) : (t.wake who).Prompt :=
  h.eased (bred_wake who) rfl fun _ _ hw => (waiting_wake hw).2

lemma Prompt.wakeParent (h : t.Prompt) (v : Pid) (p : Task) : (t.wakeParent v p).Prompt := h.wake _

/-! ## Deaths -/

lemma Prompt.foregroundKill (h : t.Prompt) (hsnd : t.Sound) (targets : Pid → Bool) :
    (t.foregroundKill targets).Prompt := by
  have hwait : ∀ w c, (t.foregroundKill targets).Waiting w c → t.Waiting w c :=
    fun w c hw => (waiting_where (fun _ _ hblk => by cases hblk) (waiting_wake hw).2).1
  refine h.bred (bred_foregroundKill targets) rfl hwait fun w c i q hw hc htgt hq hch => ?_
  -- the waiting task would have been woken
  have hwoken : (w != IDLE_PID &&
      decide (∃ z, targets z = true ∧ t.waitsFor w z.val = true)) = true := by
    rw [Bool.and_eq_true, decide_eq_true_iff, bne_iff_ne]
    exact ⟨hsnd.waiting_ne_idle (hwait w c hw), i, htgt, waitsFor_of_waiting (hwait w c hw) hc⟩
  rw [(waiting_wake hw).1] at hwoken
  cases hwoken

lemma waiting_kill (h : (t.kill v).Waiting w c) : w ≠ v ∧ t.Waiting w c := by
  obtain ⟨q', hq', hblk, hwhy⟩ := h
  obtain ⟨q, hq, rfl⟩ := exists_of_kill hq'
  split at hblk
  · cases hblk
  rename_i hne
  rw [adopted_state] at hblk
  rw [if_neg hne, adopted_wakeReason] at hwhy
  exact ⟨hne, q, hq, hblk, hwhy⟩

lemma deadChild_kill (h : (t.kill v).DeadChild w i) :
    t.DeadChild w i ∨ (∃ p, i = v ∧ t.tasks v = some p ∧ p.IsChild w (t.generations w)) ∨
      w = t.initPid ∧ ∃ q, t.tasks i = some q ∧ q.parentPid = some v.val ∧
        (q.state = .zombie ∨ i = v) := by
  obtain ⟨q', hq', hch, hzom⟩ := h
  obtain ⟨q, hq, rfl⟩ := exists_of_kill hq'
  have hdead : q.state = .zombie ∨ i = v := by
    split at hzom
    · exact .inr ‹_›
    · exact .inl (adopted_state v q ▸ hzom)
  have had : (t.adopted v q).IsChild w (t.generations w) := by
    split at hch <;> exact hch
  by_cases hpar : q.parentPid = some v.val
  · have hw : w.val = t.initPid.val :=
      some.inj (had.1.symm.trans (adopted_of_child hpar).1)
    exact .inr (.inr ⟨Fin.ext hw, q, hq, hpar, hdead⟩)
  rw [adopted_of_ne hpar] at had
  rcases hdead with hz | rfl
  · exact .inl ⟨q, hq, had, hz⟩
  · exact .inr (.inl ⟨q, rfl, hq, had⟩)

lemma parent_kill (hw : w ≠ v) (hq : t.tasks i = some q) (hpar : q.parentPid = some w.val) :
    ∃ q', (t.kill v).tasks i = some q' ∧ q'.parentPid = some w.val := by
  have hne : q.parentPid ≠ some v.val := by
    rw [hpar]
    exact fun heq => hw (Fin.ext (some.inj heq))
  rw [kill_tasks, hq, map_some, adopted_of_ne hne]
  split
  · exact ⟨q.dead, rfl, hpar⟩
  · exact ⟨q, rfl, hpar⟩

/-- An exiting process wakes the parent that waits for it. -/
lemma Prompt.exit (h : t.Prompt) (hsnd : t.Sound) (v : Pid) : (t.exit v).Prompt := by
  have hwait : ∀ w c, (t.exit v).Waiting w c → w ≠ v ∧ t.Waiting w c :=
    fun w c hw => waiting_kill (waiting_wake hw).2
  refine h.transfer (fun w c hw => (hwait w c hw).2) (fun w i q hw hq hpar => ?_)
    fun w c i hw hc hch => ?_
  · obtain ⟨q', hq', hpar'⟩ := parent_kill (hwait w _ hw).1 hq hpar
    exact (bred_wake (D := fun _ => False) _).parent hq' hpar'
  obtain ⟨hnot, hkilled⟩ := waiting_wake hw
  -- nobody is left who waits for the dead process or for any child
  have hsleeps : ¬(c = 0 ∨ c = v.val) := by
    intro hcv
    rw [isBlocked_of_waiting hkilled, waitsFor_of_waiting hkilled hcv, Bool.and_true,
      Bool.and_true] at hnot
    exact hsnd.waiting_ne_idle (hwait w c hw).2 (bne_eq_false_iff_eq.mp hnot)
  have hdead := ((bred_wake (D := fun _ => False) _).deadChild rfl hch).resolve_right fun hi => hi.1
  rcases deadChild_kill hdead with hold | ⟨-, rfl, -, -⟩ | ⟨-, q, hq, hpar, -⟩
  · exact hold
  · exact absurd hc hsleeps
  -- init waits for this very child, whose parent it was not
  rcases hc with rfl | rfl
  · exact absurd (.inl rfl) hsleeps
  obtain ⟨p, hp, hw'⟩ := h.known w i (hwait w _ hw).2 fun h0 => hsleeps (.inl h0)
  cases hq.symm.trans hp
  exact absurd (Fin.ext (some.inj (hw'.symm.trans hpar))) (hwait w _ hw).1

end Table

/-! ## Permitted hazards -/

/-- No task is blocked in a wait that the death of the current one ends and that the code
forgets. -/
def Heeds (t : Table) : Hazard → Prop
  | .fault => ∀ v p, t.current = some (v, p) →
      (∀ w c, t.Waiting w c → c = 0 ∨ c = v.val → ¬p.IsChild w (t.generations w)) ∧
        (t.Waiting t.initPid 0 → ∀ i q, t.tasks i = some q → q.parentPid = some v.val →
          q.state ≠ .zombie ∧ i ≠ v)
  | .die death => ∀ v p w pw c, t.current = some (v, p) → t.tasks w = some pw →
      pw.state = .blocked → pw.wakeReason = .waitForChild c → c = 0 ∨ c = v.val →
        p.IsChild w (t.generations w) →
          death = .default ∧ c = v.val ∧ pw.generation = t.generations w
  | _ => True

namespace Table

variable {t t' : Table} {v w i : Pid} {c : Nat}

variable {p : Task} {slot : Pid}

section

variable {p : Task} (h : t.Prompt) (hcur : t.current = some (v, p))

include h hcur

lemma Prompt.fault (hhee : Heeds t .fault) : (t.kill v).Prompt := by
  obtain ⟨hpar, hinit⟩ := hhee v p hcur
  refine h.transfer (fun w c hw => (waiting_kill hw).2)
    (fun w i q hw hq hpq => parent_kill (waiting_kill hw).1 hq hpq) fun w c i hw hc hch => ?_
  obtain ⟨hne, hwait⟩ := waiting_kill hw
  rcases deadChild_kill hch with hold | ⟨q, rfl, hq, hch⟩ | ⟨rfl, q, hq, hpq, hdead⟩
  · exact hold
  · cases (current_eq_some.mp hcur).2.symm.trans hq
    exact absurd hch (hpar w c hwait hc)
  by_cases hzero : c = 0
  · subst hzero
    obtain ⟨hlive, hiv⟩ := hinit hwait i q hq hpq
    rcases hdead with hz | hi
    · exact absurd hz hlive
    · exact absurd hi hiv
  -- init waits for this very child, whose parent it was not
  obtain rfl := hc.resolve_left hzero
  obtain ⟨q', hq', hw'⟩ := h.known _ i hwait hzero
  cases hq.symm.trans hq'
  exact absurd (Fin.ext (some.inj (hw'.symm.trans hpq))) hne

lemma Prompt.killed (hhee : Heeds t (.die .default)) :
    ((t.update v Task.dead).wakeParent v p).Prompt := by
  refine h.bred ((bred_dead (D := (· = v)) rfl).trans (bred_wake _)) rfl
    (fun w c hw => waiting_die (waiting_wake hw).2) fun w c i q hw hc hi hq hch => ?_
  subst hi
  cases (current_eq_some.mp hcur).2.symm.trans hq
  -- the parent waits for this very child, and then it has been woken
  obtain ⟨hnot, q', hq', hblk, hwhy⟩ := waiting_wake hw
  obtain ⟨q, hq, ⟨-, rfl⟩ | ⟨-, rfl⟩⟩ := exists_of_where hq'
  · obtain ⟨-, rfl, hgen⟩ := hhee i p w q' c hcur hq hblk hwhy hc hch
    simp only [hq', hch.1, hch.2, hgen, hwhy, beq_self_eq_true, Bool.and_self] at hnot
    cases hnot
  · cases hblk

lemma Prompt.badStack (hhee : Heeds t (.die .badStack)) : (t.update v Task.dead).Prompt := by
  refine h.bred (bred_dead (D := (· = v)) rfl) rfl (fun w c hw => waiting_die hw)
    fun w c i q hw hc hi hq hch => ?_
  subst hi
  cases (current_eq_some.mp hcur).2.symm.trans hq
  obtain ⟨q, hq, hblk, hwhy⟩ := waiting_die hw
  cases (hhee i p w q c hcur hq hblk hwhy hc hch).1

end

/-! ## Moves -/

lemma Prompt.reap (h : t.Prompt) (hcur : t.CurrentAwake) {slot cur : Pid} {p : Task}
    (hp : t.tasks slot = some p) (hc : t.currentPid = some cur)
    (hpar : p.parentPid = some cur.val) (htsk : t'.tasks = Function.update t.tasks slot none)
    (hgens : t'.generations = t.generations) : t'.Prompt := by
  have hkeep : ∀ i q, t'.tasks i = some q → t.tasks i = some q := by
    intro i q hq
    rw [htsk, Function.update_apply] at hq
    split at hq
    · cases hq
    · exact hq
  have hwait : ∀ w c, t'.Waiting w c → t.Waiting w c :=
    fun w c ⟨p, hp, hb, hr⟩ => ⟨p, hkeep w p hp, hb, hr⟩
  refine h.transfer hwait (fun w i q hw hq hpq => ⟨q, ?_, hpq⟩) fun w c i hw hc hch => ?_
  · -- the parent that waits is not the one that reaps, which is running
    rw [htsk, Function.update_of_ne, hq]
    rintro rfl
    cases hq.symm.trans hp
    have hwc : w = cur := Fin.ext (some.inj (hpq.symm.trans hpar))
    exact hcur.not_waiting hc (hwc ▸ hwait w _ hw)
  · obtain ⟨q, hq, hch, hz⟩ := hch
    exact ⟨q, hkeep i q hq, hgens ▸ hch, hz⟩

lemma Prompt.insert (h : t.Prompt) {task : Task} (hfree : t.tasks slot = none)
    (hrdy : task.state = .ready) (htsk : t'.tasks = Function.update t.tasks slot (some task))
    (hgens : ∀ i, i ≠ slot → t'.generations i = t.generations i) : t'.Prompt := by
  have hkeep : ∀ i q, t'.tasks i = some q → q.state ≠ .ready → t.tasks i = some q := by
    intro i q hq hsta
    rw [htsk, Function.update_apply] at hq
    split at hq
    · exact absurd (some.inj hq ▸ hrdy) hsta
    · exact hq
  have hwait : ∀ w c, t'.Waiting w c → t.Waiting w c :=
    fun w c ⟨p, hp, hb, hr⟩ => ⟨p, hkeep w p hp (by rw [hb]; rintro ⟨⟩), hb, hr⟩
  refine h.transfer hwait (fun w i q _ hq hpar => ⟨q, ?_, hpar⟩) fun w c i hw hc hch => ?_
  · rw [htsk, Function.update_of_ne, hq]
    rintro rfl
    rw [hfree] at hq
    cases hq
  obtain ⟨q, hq, hch, hz⟩ := hch
  have hw : w ≠ slot := by
    rintro rfl
    obtain ⟨p, hp, -, -⟩ := hwait w c hw
    rw [hfree] at hp
    cases hp
  rw [hgens w hw] at hch
  exact ⟨q, hkeep i q hq (by rw [hz]; rintro ⟨⟩), hch, hz⟩

lemma Prompt.bump (h : t.Prompt) (hfree : t.tasks slot = none) (htsk : t'.tasks = t.tasks)
    (hgens : ∀ i, i ≠ slot → t'.generations i = t.generations i) : t'.Prompt := by
  have hwait : ∀ w c, t'.Waiting w c → t.Waiting w c := by
    intro w c hw
    rwa [Waiting, htsk] at hw
  refine h.transfer hwait (fun w i q _ hq hpar => ⟨q, htsk ▸ hq, hpar⟩) ?_
  rintro w c i hw - ⟨q, hq, hch, hz⟩
  have hw : w ≠ slot := by
    rintro rfl
    obtain ⟨p, hp, -, -⟩ := hwait w c hw
    rw [hfree] at hp
    cases hp
  exact ⟨q, htsk ▸ hq, hgens w hw ▸ hch, hz⟩

lemma bumped_of_ne (hne : i ≠ slot) : t.bumped slot i = t.generations i :=
  Function.update_of_ne hne _ _

lemma BlocksOn.child (h : t.BlocksOn v (.waitForChild c)) :
    (c ≠ 0 → ∃ i q, i.val = c ∧ t.tasks i = some q ∧ q.parentPid = some v.val) ∧
      ∀ i, c = 0 ∨ c = i.val → ¬t.DeadChild v i := by
  cases c with
  | zero =>
    refine ⟨fun h0 => absurd rfl h0, ?_⟩
    rintro i - ⟨q, hq, hch, hz⟩
    exact h i q hq hch hz
  | succ n =>
    obtain ⟨j, p, hj, hp, hch, hlive⟩ := h
    refine ⟨fun _ => ⟨j, p, hj, hp, hch.1⟩, ?_⟩
    rintro i (h0 | hi) ⟨q, hq, -, hz⟩
    · cases h0
    obtain rfl : i = j := Fin.ext (hi.symm.trans hj.symm)
    cases hp.symm.trans hq
    exact hlive hz

section

variable (h : t.Prompt)

include h

lemma Prompt.block {reason : WakeReason} (hwhy : t.BlocksOn v reason) :
    (t.update v (Task.blockedOn reason)).Prompt := by
  -- the waiting tasks are the old ones and the one that blocks
  have hwait : ∀ w c, (t.update v (Task.blockedOn reason)).Waiting w c →
      w = v ∧ reason = .waitForChild c ∨ t.Waiting w c := by
    rintro w c ⟨p', hp', hblk, hwhy⟩
    obtain ⟨p, hp, ⟨-, rfl⟩ | ⟨hw, rfl⟩⟩ := exists_of_where hp'
    · exact .inr ⟨p', hp, hblk, hwhy⟩
    · exact .inl ⟨hw, hwhy⟩
  have hbred : t.Bred (fun _ => False) (t.update v (Task.blockedOn reason)) := bred_blocked reason v
  constructor
  · intro w i hw hi
    have hpar : ∃ q, t.tasks i = some q ∧ q.parentPid = some w.val := by
      rcases hwait w _ hw with ⟨rfl, rfl⟩ | hold
      · obtain ⟨j, q, hj, hq, hpq⟩ := hwhy.child.1 hi
        exact ⟨q, Fin.ext hj ▸ hq, hpq⟩
      · exact h.known w i hold hi
    obtain ⟨q, hq, hpq⟩ := hpar
    exact hbred.parent hq hpq
  intro w c i hw hc hch
  have hdead := (hbred.deadChild rfl hch).resolve_right fun hi => hi.1
  rcases hwait w c hw with ⟨rfl, rfl⟩ | hold
  · exact hwhy.child.2 i hc hdead
  · exact h.prompt w c i hold hc hdead

lemma Prompt.calm (hsnd : t.Sound) (hcur : t.CurrentAwake) (hstep : Calm Heeds t t') :
    t'.Prompt := by
  cases hstep with
  | wake pipes who =>
    exact .wake (t := { t with pipes := pipes }) (h.congr rfl rfl) who
  | openPipe | setInit | exec | drain | save | lose => exact h.congr rfl rfl
  | load => exact h.congr t.sameLife_load.tasks t.sameLife_load.generations
  | foreground targets => exact h.foregroundKill hsnd targets
  | stop targets =>
    exact h.eased (bred_stop targets) rfl fun w c hw =>
      (waiting_where (fun _ _ _ => by rintro ⟨⟩) hw).1
  | reap pipes hp _ hc hpar => exact h.reap hcur hp hc hpar rfl rfl
  | create hfree hnew =>
    refine h.insert hfree (by cases hnew <;> rfl) rfl fun i hi => ?_
    cases hnew with
    | idle | fork => rfl
    | kernel | user => exact bumped_of_ne hi
  | bump hfree => exact h.bump hfree rfl fun i hi => bumped_of_ne hi

lemma Prompt.givesUp (hsnd : t.Sound) (hstep : GivesUp Heeds t t') : t'.Prompt := by
  cases hstep with
  | nothing => exact h
  | block _ _ hwhy => exact h.block hwhy
  | exit => exact h.exit hsnd _
  | fault hcur _ hhee => exact h.fault hcur hhee

lemma Prompt.suspend : t.suspend.Prompt :=
  h.eased bred_suspend rfl fun _ _ hw => (waiting_where (fun _ _ hblk => by cases hblk) hw).1

lemma Prompt.run (next : Pid) : (t.run next).Prompt := by
  refine h.eased (bred_run next) rfl fun w c hw => ?_
  have hnext : (t.update next fun p => { p with state := .running }).Waiting w c := hw
  exact (waiting_where (fun _ _ hblk => by cases hblk) hnext).1

lemma Prompt.signalled (hstep : Signalled Heeds t t') : t'.Prompt := by
  cases hstep with
  | nothing => exact h
  | killed hcur _ hhee => exact h.killed hcur hhee
  | badStack hcur _ hhee => exact h.badStack hcur hhee
  | stopped =>
    apply Prompt.wakeParent
    exact h.eased (bred_stopped _) rfl fun _ _ hw =>
      (waiting_where (fun _ _ _ => by rintro ⟨⟩) hw).1
  | ignored => exact h.wakeParent _ _

lemma Prompt.switch (hstep : Switch Heeds t t') : t'.Prompt := by
  obtain ⟨t0, t1, next, hs, -, hsig, hs'⟩ := hstep.life
  have hrun := (h.congr hs.tasks hs.generations).suspend.run next
  exact (hrun.signalled hsig).congr hs'.tasks hs'.generations

end

end Table

/-! ## Runs -/

namespace Kernel

variable {M : Mapper} {k : Kernel} {ev : Event}

/-- The process `q` of slot `w` is blocked in `sys_waitpid` until the process `p` of slot `v`, its
child, has ended. -/
def Awaits (k : Kernel) (w v : Pid) (q p : Process) : Prop :=
  q.state = .blocked ∧ (q.wakeReason = .waitForChild 0 ∨ q.wakeReason = .waitForChild v.val) ∧
    hasParent p w (k.getGeneration w) = true

instance (k : Kernel) (w v : Pid) (q p : Process) : Decidable (k.Awaits w v q p) :=
  inferInstanceAs (Decidable (_ ∧ _))

/-- The running process is not awaited, and init does not wait for any child if it has a dead
one. -/
def FaultUnnoticed (k : Kernel) : Prop :=
  ∀ x ∈ k.current, (∀ w, ∀ q ∈ k.procs w, ¬k.Awaits w x.1 q x.2) ∧
    ∀ q ∈ k.procs k.initPid, q.state = .blocked → q.wakeReason = .waitForChild 0 →
      ∀ i, ∀ p ∈ k.procs i, p.parentPid = some x.1.val → p.state ≠ .zombie ∧ i ≠ x.1

instance (k : Kernel) : Decidable k.FaultUnnoticed :=
  inferInstanceAs (Decidable (∀ x ∈ k.current, _))

/-- A signal that kills the running process while its parent awaits it does so by default, and the
parent waits for this child. -/
def SignalNoticed (k : Kernel) : Prop :=
  ∀ x ∈ k.current, ∀ death ∈ x.2.signalDeath, ∀ w, ∀ q ∈ k.procs w, k.Awaits w x.1 q x.2 →
    death = .default ∧ q.wakeReason = .waitForChild x.1.val ∧ q.generation = k.getGeneration w

instance (k : Kernel) : Decidable k.SignalNoticed :=
  inferInstanceAs (Decidable (∀ x ∈ k.current, _))

/-- No forgotten wake-up is needed when a fault kills the running process or a signal the picked
one. -/
def HeedsParents (M : Mapper) (k : Kernel) (ev : Event) : Prop :=
  (k.faults ev = true → k.FaultUnnoticed) ∧
    ∀ k1 ∈ k.decision M ev, k1.switchNext.2.SignalNoticed

instance (M : Mapper) (k : Kernel) (ev : Event) : Decidable (k.HeedsParents M ev) :=
  inferInstanceAs (Decidable (_ ∧ _))

lemma awaits_of_waiting {w v : Pid} {p : Process} {c : Nat} {q : Task}
    (hq : k.table.tasks w = some q) (hblk : q.state = .blocked)
    (hwhy : q.wakeReason = .waitForChild c) (hc : c = 0 ∨ c = v.val)
    (hch : p.task.IsChild w (k.table.generations w)) :
    ∃ q', k.procs w = some q' ∧ q'.task = q ∧ k.Awaits w v q' p := by
  obtain ⟨q', hq', rfl⟩ := exists_of_table_tasks hq
  refine ⟨q', hq', rfl, hblk, ?_, hasParent_iff.mpr hch⟩
  rcases hc with rfl | rfl
  · exact .inl hwhy
  · exact .inr hwhy

lemma HeedsParents.permits (h : k.HeedsParents M ev) {t : Table} {hz : Hazard}
    (hocc : Occurs M k ev t hz) : Heeds t hz := by
  cases hocc with
  | fault hev =>
    intro v p hcur
    obtain ⟨p, hp, rfl⟩ := exists_of_table_current hcur
    obtain ⟨hpar, hinit⟩ := h.1 hev (v, p) hp
    refine ⟨?_, ?_⟩
    · rintro w c ⟨q, hq, hblk, hwhy⟩ hc hch
      obtain ⟨q', hq', -, hawaits⟩ := awaits_of_waiting hq hblk hwhy hc hch
      exact hpar w q' hq' hawaits
    rintro ⟨q, hq, hblk, hwhy⟩ i child hch hpp
    obtain ⟨q', hq', rfl⟩ := exists_of_table_tasks hq
    obtain ⟨p', hp', rfl⟩ := exists_of_table_tasks hch
    exact hinit q' hq' hblk hwhy i p' hp' hpp
  | die hdcn hcur _ hdeath =>
    intro v p w q c hpicked hq hblk hwhy hc hch
    obtain ⟨p, hp, rfl⟩ := exists_of_table_current hpicked
    cases hcur.symm.trans hp
    obtain ⟨q', hq', rfl, hawaits⟩ := awaits_of_waiting hq hblk hwhy hc hch
    obtain ⟨hdfl, hwhy', hgen⟩ := h.2 _ hdcn (_, _) hcur _ hdeath w q' hq' hawaits
    have hwts : WakeReason.waitForChild c = .waitForChild _ := hwhy.symm.trans hwhy'
    exact ⟨hdfl, WakeReason.waitForChild.inj hwts, hgen⟩
  | _ => trivial

/-- In every run in which the forgotten wake-ups are not needed, no process is blocked in a wait for
a child that is a zombie. -/
theorem Runs.no_lost_child (M : Mapper) (k0 k : Kernel) (hblank : k0.Blank)
    (h : Runs M (HeedsParents M) k0 k) :
    ∀ w i q p c, k.procs w = some q → q.state = .blocked → q.wakeReason = .waitForChild c →
      k.procs i = some p → hasParent p w (k.getGeneration w) = true → c = 0 ∨ c = i.val →
        p.state ≠ .zombie := by
  have hst : k0.table.Prompt := by
    constructor
    · rintro w i ⟨p, hp, -⟩
      rw [hblank.tasks] at hp
      cases hp
    rintro w c i ⟨p, hp, -⟩
    rw [hblank.tasks] at hp
    cases hp
  obtain ⟨-, -, hprompt⟩ := Runs.table_invariant (J := Table.Prompt)
    (fun _ _ _ _ _ _ hcond hocc => hcond.permits hocc)
    (fun _ _ hsnd hcur hI hmove => hI.calm hsnd hcur hmove)
    (fun _ _ hsnd _ hI hmove => hI.givesUp hsnd hmove)
    (fun _ _ _ hI hmove => hI.switch hmove) hblank hst h
  intro w i q p c hq hblk hwhy hp hpar hc hzom
  exact hprompt.prompt w c i ⟨q.task, table_tasks hq, hblk, hwhy⟩ hc
    ⟨p.task, table_tasks hp, hasParent_iff.mp hpar, hzom⟩

/-- Init forks and waits for its child, which exits: the child is a zombie and nobody waits for
it. -/
theorem Runs.no_lost_child_exit : ∃ k p, Runs referenceMapper (HeedsParents referenceMapper)
    emptyKernel k ∧ k.procs childSlot = some p ∧ p.state = .zombie ∧
    ∀ w q c, k.procs w = some q → q.state = .blocked → q.wakeReason = .waitForChild c →
      hasParent p w (k.getGeneration w) = true → ¬(c = 0 ∨ c = childSlot.val) := by
  have hplay : plays referenceMapper (HeedsParents referenceMapper)
      (bootEvents ++ [call (.fork (some 0x40000) (some 0x50000)), call (.waitpid 3 0),
        call (.exit 0)]) emptyKernel
      (fun k => (k.procs childSlot).map Process.state == some .zombie) = true := by
    decide +kernel
  obtain ⟨k, hruns, htest⟩ := runs_of_plays hplay
  obtain ⟨p, hp, hzom⟩ := map_eq_some_iff.mp (beq_iff_eq.mp htest)
  refine ⟨k, p, hruns, hp, hzom, fun w q c hq hblk hwhy hpar hc => ?_⟩
  exact no_lost_child _ _ k emptyKernel_blank hruns w childSlot q p c hq hblk hwhy hp hpar
    hc hzom

/-- Init forks and waits for its child, which dies from a fault: init stays blocked. -/
theorem Runs.child_lost : ∃ k q p, Runs referenceMapper (fun _ _ => True) emptyKernel k ∧
    k.procs initSlot = some q ∧ q.state = .blocked ∧ q.wakeReason = .waitForChild childSlot.val ∧
    k.procs childSlot = some p ∧ hasParent p initSlot (k.getGeneration initSlot) = true ∧
    p.state = .zombie := by
  have hplay : plays referenceMapper (fun _ _ => True)
      (bootEvents ++ [call (.fork (some 0x40000) (some 0x50000)), call (.waitpid 3 0), .fault])
      emptyKernel
      (fun k => (k.procs initSlot).any (fun q => q.state == .blocked &&
          q.wakeReason == .waitForChild childSlot.val) &&
        (k.procs childSlot).any fun p => hasParent p initSlot (k.getGeneration initSlot) &&
          p.state == .zombie) = true := by
    decide +kernel
  obtain ⟨k, hruns, htest⟩ := runs_of_plays hplay
  simp only [Bool.and_eq_true, any_eq_true, beq_iff_eq] at htest
  obtain ⟨⟨q, hq, hblk, hwhy⟩, p, hp, hpar, hzom⟩ := htest
  exact ⟨k, q, p, hruns, hq, hblk, hwhy, hp, hpar, hzom⟩

end Kernel

end Indominus.Sys
