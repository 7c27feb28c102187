import Indominus.Sched.Calls

/-!
# The kernel refines the table machine

`Occurs` lists the hazards of each entry to the kernel.
-/

namespace Indominus.Sys

open Memory Table

/-! ## The hazards of an entry to the kernel -/

def Event.origin : Event → Option Origin
  | .spawnIdle _ => some .idle
  | .spawnKernel _ => some .kernel
  | .spawnUser _ _ _ | .spawnInit _ _ => some .user
  | .syscall _ _ (.fork _ _) => some .fork
  | _ => none

namespace Kernel

/-- Does a process created by the event get this parent, this stack and this page table? -/
def Supplies (k : Kernel) (ev : Event) (task : Task) (h : Holding) : Prop :=
  match ev with
  | .spawnIdle stack | .spawnKernel stack => stack = some h.kernelStackBase
  | .spawnUser _ parent stack => stack = some h.kernelStackBase ∧ task.parentPid = parent ∧
      ∃ s, createUserPml4 k.machine k.cr3 = .ok (h.pml4Phys, s)
  | .spawnInit _ stack => stack = some h.kernelStackBase ∧ task.parentPid = none ∧
      ∃ s, createUserPml4 k.machine k.cr3 = .ok (h.pml4Phys, s)
  | .syscall _ _ (.fork stack _) => stack = some h.kernelStackBase ∧
      ∃ s, createUserPml4 k.machine k.kernelPml4 = .ok (h.pml4Phys, s)
  | _ => False

/-- The hazards that an entry to the kernel brings, with the table in which each of them happens. -/
inductive Occurs (M : Mapper) (k : Kernel) : Event → Table → Hazard → Prop
  | foreground {signal : Nat} (hsignal : signal = 2 ∨ signal = 3) :
      Occurs M k (.key signal) k.table (.foreground (k.slotsWhere (k.isForegroundTarget signal)))
  | create {ev : Event} {origin : Origin} {slot : Pid} {task : Task} {holding : Holding}
      {generations : Pid → Nat} (hev : ev.origin = some origin)
      (hslot : origin = .idle ∧ slot = IDLE_PID ∨ k.freeSlot = some slot)
      (hnew : Creates k.table origin slot task holding generations)
      (hheld : k.Supplies ev task holding) :
          Occurs M k ev k.table (.create origin slot task holding)
  | bump {ev : Event} {slot : Pid} (hev : ev.origin = some .kernel ∨ ev.origin = some .user)
      (hslot : k.freeSlot = some slot) : Occurs M k ev k.table (.bump slot)
  /-- `sys_waitpid` reaps. -/
  | reap {savedRsp childPid flags : Nat} {frame : Frame} {slot : Pid} {p : Process}
      (hreap : (k.enter frame).WouldReap childPid slot) (hp : (k.enter frame).procs slot = some p) :
      Occurs M k (.syscall savedRsp frame (.waitpid childPid flags)) k.table
        (.reap slot ((k.enter frame).pipesWithout p))
  | reapInit {done rest : List Nat} {slot : Pid} {p : Process} {k1 : Kernel}
      (hzombies : k.initZombies = done ++ slot.val :: rest) (hdone : reapAll done k = .ok k1)
      (hp : k1.procs slot = some p) :
      Occurs M k .initRound k1.table (.reap slot (k1.pipesWithout p))
  /-- `sys_pipe`. -/
  | openPipe {savedRsp : Nat} {frame : Frame} {i : PipeIdx}
      (hfree : (List.finRange MAX_PIPES).find? (fun i => (k.pipes i).isNone) = some i) :
      Occurs M k (.syscall savedRsp frame .pipe) k.table (.openPipe i)
  | exec {savedRsp : Nat} {frame : Frame} {file : BytesResult} :
      Occurs M k (.syscall savedRsp frame (.exec file)) k.table .exec
  | execve {savedRsp : Nat} {frame : Frame} {file : BytesResult}
      {argv : List (List Byte)} :
      Occurs M k (.syscall savedRsp frame (.execve file argv)) k.table .exec
  | drain {savedRsp : Nat} {frame : Frame} : Occurs M k (.timer savedRsp frame) k.table .drain
  | block {savedRsp : Nat} {frame : Frame} {call : Syscall} :
      Occurs M k (.syscall savedRsp frame call) k.table .block
  | exit {savedRsp code : Nat} {frame : Frame} :
      Occurs M k (.syscall savedRsp frame (.exit code)) k.table .exit
  | fault {ev : Event} (hev : k.faults ev = true) : Occurs M k ev k.table .fault
  | die {ev : Event} {k1 : Kernel} {v : Pid} {p : Process} {death : Death}
      (hdecision : k.decision M ev = some k1) (hcur : k1.switchNext.2.current = some (v, p))
      (hidle : v ≠ IDLE_PID) (hdeath : p.signalDeath = some death) :
      Occurs M k ev k1.switchNext.2.table (.die death)

variable {M : Mapper} {k k' : Kernel} {pid v : Pid} {p : Process} {H : Permits}

/-! ## Context switches -/

lemma findNextReady_cases {after next : Pid} (h : k.findNextReady after = some next) :
    k.isReady next = true := by
  rw [findNextReady] at h
  split at h
  · rename_i c hc
    cases h
    have := List.find?_some hc
    rw [Bool.and_eq_true] at this
    exact this.2
  split at h
  · rename_i hidle
    exact Option.some.inj h ▸ hidle
  · cases h

lemma canRun_of_isReady (h : k.isReady v = true) : k.table.CanRun v := by
  rw [isReady] at h
  split at h
  · rename_i q hq
    exact .inl ⟨q.task, table_tasks hq, beq_iff_eq.mp h⟩
  · cases h

lemma canRun_nextPid (k : Kernel) : k.table.CanRun k.nextPid := by
  rw [nextPid]
  cases h : k.findNextReady (k.currentPid.getD IDLE_PID) with
  | none => exact .inr rfl
  | some next => exact canRun_of_isReady (findNextReady_cases h)

lemma table_switchNext (k : Kernel) :
    k.switchNext.2.table = k.table.suspend.run k.suspendCurrent.nextPid := by
  rw [switchNext_eq, table_setRunning, table_suspendCurrent]

variable {sp savedRsp : Nat} {t : Table}

lemma orIdle_cases {sp' : Nat} (h : k.orIdle sp = .ok (sp', k')) : k' = k := by
  rw [orIdle] at h
  split at h
  · split at h
    · exact (ok_snd_inj h).symm
    · cases h
  · exact (ok_snd_inj h).symm

lemma signalled_switchNextForce
    (hH : ∀ v p death, k.switchNext.2.current = some (v, p) → v ≠ IDLE_PID →
      p.signalDeath = some death → H k.switchNext.2.table (.die death))
    (h : k.switchNextForce = .ok (sp, k')) : k.table.suspend.CanRun k.suspendCurrent.nextPid ∧
      Signalled H (k.table.suspend.run k.suspendCurrent.nextPid) k'.table := by
  obtain ⟨-, hdel⟩ := switchNextForce_cases h
  refine ⟨table_suspendCurrent k ▸ canRun_nextPid k.suspendCurrent, ?_⟩
  rw [← table_switchNext]
  exact signalled_deliverToCurrent hH hdel

lemma saveCurrentSp_current (hcur : k.current = some (pid, p)) (sp : Nat) :
    (k.saveCurrentSp sp).current =
      some (pid, { p with stackPointer := sp, savedCr3 := k.cr3 }) := by
  rw [current_eq_some]
  simp [saveCurrentSp, hcur, (current_eq_some.mp hcur).1]

lemma switch_forcedSwitch
    (hH : ∀ v p death, (k.saveCurrentSp savedRsp).switchNext.2.current = some (v, p) →
      v ≠ IDLE_PID → p.signalDeath = some death →
      H (k.saveCurrentSp savedRsp).switchNext.2.table (.die death))
    (h : k.forcedSwitch savedRsp = .ok (sp, k')) : Switch H k.table k'.table := by
  rw [forcedSwitch] at h
  dsimp only at h
  split at h
  · cases h
  rename_i sp1 k1 hfor
  obtain ⟨hcan, hsig⟩ := signalled_switchNextForce hH hfor
  rw [table_saveCurrentSp] at hcan hsig
  -- the switch with or without the burial of the old process
  have hsw : ∀ t3, (t3 = k1.table.load ∨ ∃ v p h, k.table.current = some (v, p) ∧
      p.state = .zombie ∧ k.table.holdings v = some h ∧ t3 = k1.table.load.bury v p.isUser h) →
      Switch H k.table t3 :=
    fun t3 hbury => .mk _ (.inr rfl) hcan hsig (.inl rfl) hbury
  split at h
  · obtain rfl := orIdle_cases h
    rw [table_loadCr3]
    exact hsw _ (.inl rfl)
  rename_i pid p hcur'
  cases hcur : k.current with
  | none => simp [saveCurrentSp, hcur] at hcur'
  | some r =>
    obtain ⟨old, q⟩ := r
    rw [saveCurrentSp_current hcur, Option.some.injEq, Prod.mk.injEq] at hcur'
    obtain ⟨rfl, rfl⟩ := hcur'
    split at h
    · rename_i hzom
      split at h
      · cases h
      rename_i k2 htake
      obtain rfl := orIdle_cases h
      rw [table_takeDead htake, table_loadCr3]
      exact hsw _ (.inr ⟨old, q.task, q.holding, table_current hcur, hzom,
        table_holdings (procs_of_current hcur), rfl⟩)
    obtain rfl := orIdle_cases h
    rw [table_loadCr3]
    exact hsw _ (.inl rfl)

lemma suspend_eq_self (h : ∀ i p, t.currentPid = some i → t.tasks i = some p → p.state ≠ .running) :
    t.suspend = t := by
  apply Table.ext
  case tasks =>
    funext i
    rw [Table.suspend, Table.mapTasks_tasks]
    cases hp : t.tasks i with
    | none => rfl
    | some p =>
      have : ¬ (t.currentPid = some i ∧ p.state = .running) := fun hrun => h i p hrun.1 hp hrun.2
      simp [this]
  all_goals rfl

lemma kill_tasks_self {q : Task} (hq : t.tasks pid = some q) :
    ∃ q', (t.kill pid).tasks pid = some q' ∧ q'.state = .zombie ∧ q'.isUser = q.isUser := by
  rw [kill, update_tasks, adopt, mapTasks_tasks, hq]
  simp only [Option.map_some]
  refine ⟨_, rfl, rfl, ?_⟩
  change (if _ then _ else _ : Task).isUser = _
  split <;> rfl

lemma step_fatalFault (hcur : k.current = some (pid, p)) (huser : p.isUser = true)
    (hH : H k.table .fault) (h : k.fatalFault = .ok k') : Table.Step H k.table k'.table := by
  have hp := procs_of_current hcur
  rw [fatalFault] at h
  split at h
  · cases h
  rename_i sp k2 hkill
  split at h
  · cases h
  cases h
  simp only [faultKill, hcur] at hkill
  split at hkill
  · cases hkill
  rename_i k1 htake
  cases hkill
  obtain ⟨q, hq, hzom, hquser⟩ := kill_tasks_self (table_tasks hp)
  have hpid : (k.table.kill pid).currentPid = some pid := (current_eq_some.mp hcur).1
  -- the old process is dead, so it is not suspended
  have hsus : (k.table.kill pid).suspend = k.table.kill pid := by
    apply suspend_eq_self
    intro i q' hi hq'
    cases hpid.symm.trans hi
    rw [hq, Option.some.injEq] at hq'
    rw [← hq', hzom]
    decide
  refine ⟨k.table, .refl, .inr ⟨_, .fault (table_current hcur) huser hH, ?_⟩⟩
  have hcan : (k.table.kill pid).suspend.CanRun k.killCurrent.nextPid := by
    rw [hsus, ← table_killCurrent hcur]
    exact canRun_nextPid _
  refine .mk _ (.inl rfl) hcan .nothing (.inl rfl) (.inr ⟨pid, q, p.holding, ?_, hzom, ?_, ?_⟩)
  · exact Table.current_eq_some.mpr ⟨hpid, hq⟩
  · exact table_holdings hp
  rw [hsus, hquser, table_takeDead htake, table_loadCr3, switchKilled_eq, table_setRunning,
    table_killCurrent hcur]
  rfl

/-! ## Ticks -/

lemma table_enter (frame : Frame) : (k.enter frame).table = k.table := by
  rw [enter]
  split
  · rfl
  rename_i hcur
  split
  · exact table_setProc (procs_of_current hcur) rfl rfl
  · rfl

lemma calms_beginTick (hdr : H k.table .drain) (h : k.beginTick = .ok k') :
    Calms H k.table k'.table := by
  rw [beginTick] at h
  split at h
  · cases h
  rename_i k1 hdrained
  rw [drainDeferredFree] at hdrained
  split at hdrained
  · cases hdrained
  cases hdrained
  cases h
  refine .head (.drain hdr) ?_
  rw [wakeIfPending]
  split
  · exact .single (calm_keyboardWake rfl)
  · exact .refl

lemma calms_countTick (k : Kernel) : Calms H k.table k.countTick.table := by
  refine .single ?_
  refine calm_wakeWhere (k := { k with tickCounter := k.tickCounter + 1 }) ?_
  intro i p htest
  rw [Bool.and_eq_true, beq_iff_eq] at htest
  refine ⟨htest.1, fun hnone => ?_⟩
  rw [hnone] at htest
  exact Bool.noConfusion htest.2

lemma step_firstDispatch (hnone : k.currentPid = none) :
    Table.Step H k.table (k.firstDispatch savedRsp).2.table := by
  rw [firstDispatch]
  split
  · exact ⟨k.table, .refl, .inl rfl⟩
  rename_i first hfst
  have hrdy := findNextReady_cases hfst
  have hsus : k.table.suspend = k.table :=
    suspend_eq_self fun i p hi => by
      have : k.currentPid = some i := hi
      rw [hnone] at this
      cases this
  have hcan : k.table.suspend.CanRun first := by
    rw [hsus]
    exact canRun_of_isReady hrdy
  refine ⟨k.table, .refl, .inr ⟨k.table, .nothing, ?_⟩⟩
  refine .mk first (.inl rfl) hcan .nothing (.inr ⟨hnone, rfl⟩) (.inl ?_)
  rw [hsus, ← table_setRunning, loadFirst]
  dsimp only [dispatchFirst]
  obtain ⟨q, hq⟩ : ∃ q, (k.setRunning first).procs first = some q := by
    rw [isReady] at hrdy
    split at hrdy
    · rename_i q hq
      simp only [setRunning, hq]
      exact ⟨_, setProc_procs_self _⟩
    · cases hrdy
  have hcur : ({ k.setRunning first with tickCounter := 0 } : Kernel).current = some (first, q) :=
    current_eq_some.mpr ⟨setRunning_currentPid first, hq⟩
  have hload : (k.setRunning first).table.currentPid.bind (k.setRunning first).table.holdings =
      some q.holding := by
    change (k.setRunning first).currentPid.bind _ = _
    rw [setRunning_currentPid, Option.bind_some, table_holdings hq]
  rw [hcur, hload]
  rfl

lemma step_currentStackPointer (hsome : k.currentPid ≠ none) :
    Table.Step H k.table k.currentStackPointer.2.loadCr3.table := by
  rw [table_loadCr3, currentStackPointer]
  split
  · rename_i hnone
    exact absurd hnone hsome
  rename_i cur hcur
  split
  · exact ⟨_, .single .load, .inl rfl⟩
  rename_i hemp
  split
  · refine ⟨_, .tail (.single (.lose hcur (table_tasks_eq_none.mpr hemp))) .load, .inl rfl⟩
  rename_i next hnext
  have hsus : k.table.suspend = k.table := suspend_eq_self fun i p hi hp => by
    cases hcur.symm.trans hi
    rw [table_tasks_eq_none.mpr hemp] at hp
    cases hp
  have hcan : k.table.suspend.CanRun next := by
    rw [hsus]
    exact canRun_of_isReady (findNextReady_cases hnext)
  refine ⟨k.table, .refl, .inr ⟨k.table, .nothing, ?_⟩⟩
  refine .mk next (.inl rfl) hcan .nothing (.inl rfl) (.inl ?_)
  rw [hsus, table_setRunning]

end Kernel

lemma Table.Step.of_calms {H : Permits} {t t1 t' : Table} (hclm : Calms H t t1)
    (h : Table.Step H t1 t') : Table.Step H t t' := by
  obtain ⟨t2, hclm', hrest⟩ := h
  exact ⟨t2, hclm.trans hclm', hrest⟩

namespace Kernel

variable {M : Mapper} {k k' : Kernel} {pid v : Pid} {p : Process} {H : Permits}

variable {savedRsp signal z : Nat} {i : Pid} {done : List Nat} {k1 : Kernel}

lemma step_timerTick {sp : Nat} (hdr : H k.table .drain)
    (hH : ∀ k1, k.beginTick = .ok k1 → k1.currentPid ≠ none →
      DEFAULT_QUANTUM ≤ (k1.saveCurrentSp savedRsp).countTick.tickCounter →
      ∀ v p death,
        let k₂ : Kernel := { (k1.saveCurrentSp savedRsp).countTick with tickCounter := 0 }
        k₂.switchNext.2.current = some (v, p) → v ≠ IDLE_PID → p.signalDeath = some death →
          H k₂.switchNext.2.table (.die death))
    (h : k.timerTick savedRsp = .ok (sp, k')) : Table.Step H k.table k'.table := by
  rw [timerTick] at h
  split at h
  · cases h
  rename_i k1 hbeg
  refine .of_calms (calms_beginTick hdr hbeg) ?_
  split at h
  · rename_i hnone
    have hk : (k1.firstDispatch savedRsp).2 = k' := congrArg Prod.snd (Except.ok.inj h)
    rw [← hk]
    exact step_firstDispatch hnone
  rename_i cur hcur
  split at h
  · cases h
  rename_i sp1 k2 htick
  obtain rfl := orIdle_cases h
  have hsave : Calms H k1.table (k1.saveCurrentSp savedRsp).table := by
    rw [table_saveCurrentSp]
    exact .single .save
  refine .of_calms (hsave.trans (calms_countTick _)) ?_
  have hcur' : (k1.saveCurrentSp savedRsp).countTick.currentPid = some cur := by
    rw [saveCurrentSp]
    split <;> exact hcur
  rw [onTick] at htick
  split at htick
  · rename_i hexpired
    obtain ⟨hcan, hsig⟩ := signalled_switchNextForce
      (hH k1 hbeg (by rw [hcur]; simp) hexpired) htick
    refine ⟨_, .refl, .inr ⟨_, .nothing, ?_⟩⟩
    rw [table_loadCr3]
    exact .mk _ (.inl rfl) hcan hsig (.inl rfl) (.inl rfl)
  have hk : (k1.saveCurrentSp savedRsp).countTick.currentStackPointer.2 = k2 :=
    congrArg Prod.snd (Except.ok.inj htick)
  rw [← hk]
  exact step_currentStackPointer (by rw [hcur']; simp)

/-! ## Keyboard signals -/

lemma foreground_targets (h : k.slotsWhere (k.isForegroundTarget signal) i = true) :
    i ≠ IDLE_PID ∧ ∃ q, k.table.tasks i = some q ∧ q.isUser = true ∧ q.state ≠ .zombie := by
  obtain ⟨q, hq, htest⟩ := slotsWhere_eq_true.mp h
  simp only [isForegroundTarget, Bool.and_eq_true, idle_bne, bne_iff_ne] at htest
  exact ⟨htest.1.1.1.1, q.task, table_tasks hq, htest.1.1.1.2, htest.1.2⟩

lemma table_signalForeground {f : Task → Task}
    (hf : ∀ q, (foregroundAction signal q).task = f q.task ∧
      (foregroundAction signal q).holding = q.holding) :
    (k.signalForeground signal).table = k.table.mapTasks fun i q =>
      if k.slotsWhere (k.isForegroundTarget signal) i then f q else q := by
  apply Table.ext
  case tasks =>
    funext i
    change ((k.procs i).map _).map Process.task = ((k.procs i).map Process.task).map _
    cases hq : k.procs i with
    | none => rfl
    | some q =>
      have hslot : k.slotsWhere (k.isForegroundTarget signal) i =
        k.isForegroundTarget signal i q := by
        simp [slotsWhere, hq]
      cases htest : k.isForegroundTarget signal i q <;> simp [hslot, htest, hf]
  case holdings =>
    funext i
    change ((k.procs i).map _).map Process.holding = (k.procs i).map Process.holding
    cases hq : k.procs i with
    | none => rfl
    | some q => cases htest : k.isForegroundTarget signal i q <;> simp [htest, hf]
  all_goals rfl

lemma calm_inlineWake (k : Kernel) :
    Calm H k.table (k.wakeWhere fun _ p => k.inlineWake p).table := by
  apply calm_wakeWhere
  intro i p htest
  rw [inlineWake, Bool.and_eq_true, beq_iff_eq] at htest
  refine ⟨htest.1, fun hnone => ?_⟩
  rw [hnone] at htest
  exact Bool.noConfusion htest.2

lemma foregroundKilled_iff (htidy : k.table.Tidy) (hsig : signal = 2 ∨ signal = 3) :
    z ∈ k.foregroundKilled signal ↔
      ∃ i : Pid, i.val = z ∧ k.slotsWhere (k.isForegroundTarget signal) i = true := by
  rw [foregroundKilled, if_pos hsig, List.mem_filterMap]
  constructor
  · rintro ⟨i, -, hi⟩
    cases hq : k.procs i with
    | none => simp [hq] at hi
    | some q =>
      simp only [hq] at hi
      split at hi
      · rename_i htest
        cases hi
        exact ⟨i, (htidy.pid i q.task (table_tasks hq)).symm, slotsWhere_eq_true.mpr ⟨q, hq, htest⟩⟩
      · cases hi
  rintro ⟨i, rfl, hi⟩
  obtain ⟨q, hq, htest⟩ := slotsWhere_eq_true.mp hi
  refine ⟨i, List.mem_finRange i, ?_⟩
  have hpid : q.pid = i.val := htidy.pid i q.task (table_tasks hq)
  simp [hq, htest, hpid]

lemma table_foregroundKill (htidy : k.table.Tidy) (hsig : signal = 2 ∨ signal = 3) :
    ((k.signalForeground signal).wakeKilledParents (k.foregroundKilled signal)).table =
      k.table.foregroundKill (k.slotsWhere (k.isForegroundTarget signal)) := by
  have hf : ∀ q, (foregroundAction signal q).task = q.task.dead ∧
      (foregroundAction signal q).holding = q.holding := by
    intro q
    rw [foregroundAction, if_pos hsig]
    exact ⟨rfl, rfl⟩
  rw [wakeKilledParents, table_wakeWhere, table_signalForeground hf]
  congr 1
  funext i
  -- who waits is the same before and after the deaths
  cases hq : k.procs i with
  | none =>
    have hnone : (k.signalForeground signal).procs i = none := by simp [signalForeground, hq]
    simp [slotsWhere, hnone, waitsFor, table_tasks_eq_none.mpr hq]
  | some q =>
    obtain ⟨q', hq', hwhy⟩ : ∃ q', (k.signalForeground signal).procs i = some q' ∧
        q'.wakeReason = q.wakeReason := by
      simp only [signalForeground, hq, Option.map_some]
      refine ⟨_, rfl, ?_⟩
      split
      · rw [foregroundAction, if_pos hsig]
        rfl
      · rfl
    have hslot : ∀ test, (k.signalForeground signal).slotsWhere test i = test i q' := by
      intro test
      rw [slotsWhere, hq']
    rw [hslot, idle_bne, hwhy]
    congr 1
    rw [Bool.eq_iff_iff, decide_eq_true_iff]
    have hwts : ∀ z, k.table.waitsFor i z = true ↔
        q.wakeReason = .waitForChild z ∨ q.wakeReason = .waitForChild 0 := by
      intro z
      simp [waitsFor, table_tasks hq, Process.task]
    simp only [hwts]
    cases hr : q.wakeReason with
    | waitForChild c =>
      simp only [List.any_eq_true, Bool.or_eq_true, beq_iff_eq, WakeReason.waitForChild.injEq]
      constructor
      · rintro ⟨z, hz, heq⟩
        obtain ⟨j, rfl, hj⟩ := (foregroundKilled_iff htidy hsig).mp hz
        exact ⟨j, hj, heq⟩
      · rintro ⟨j, hj, heq⟩
        exact ⟨j.val, (foregroundKilled_iff htidy hsig).mpr ⟨j, rfl, hj⟩, heq⟩
    | _ => simp

lemma step_sendSignalToFg (htidy : k.table.Tidy) (hsig : signal = 2 ∨ signal = 3 ∨ signal = 20)
    (hH : signal = 2 ∨ signal = 3 →
      H k.table (.foreground (k.slotsWhere (k.isForegroundTarget signal)))) :
    Table.Step H k.table (k.sendSignalToFg signal).table := by
  refine ⟨_, ?_, .inl rfl⟩
  refine .tail (.single ?_) (calm_inlineWake _)
  rcases or_assoc.mpr hsig with hkill | rfl
  · rw [table_foregroundKill htidy hkill]
    exact .foreground _ (fun i => foreground_targets) (hH hkill)
  -- nobody is killed, so nobody is woken
  have hkilled : k.foregroundKilled 20 = [] := by
    rw [foregroundKilled, if_neg (by decide)]
  have hf : ∀ q, (foregroundAction 20 q).task = q.task.stopped ∧
      (foregroundAction 20 q).holding = q.holding := by
    intro q
    exact ⟨rfl, rfl⟩
  have hwake : ((k.signalForeground 20).wakeKilledParents []).table =
      (k.signalForeground 20).table := by
    rw [wakeKilledParents, table_wakeWhere]
    apply wake_nobody
    intro i
    rw [slotsWhere]
    split
    · rename_i q _
      cases q.wakeReason <;> simp
    · rfl
  rw [hkilled, hwake, table_signalForeground hf]
  exact .stop _ (fun i => foreground_targets)

/-! ## The reaper -/

lemma reapAll_snoc {slot : Pid} {k2 : Kernel} (hdone : reapAll done k = .ok k1)
    (hreap : k1.reapZombie slot = .ok k2) : reapAll (done ++ [slot.val]) k = .ok k2 := by
  induction done generalizing k with
  | nil =>
    cases hdone
    simp [reapAll, hreap]
  | cons z done ih =>
    rw [reapAll] at hdone
    rw [List.cons_append, reapAll]
    split at hdone
    · cases hdone
    split at hdone
    · cases hdone
    exact ih hdone

lemma procs_of_reapAll {pids : List Nat} (h : reapAll pids k = .ok k') (hp : k'.procs i = some p) :
    k.procs i = some p := by
  induction pids generalizing k with
  | nil =>
    cases h
    exact hp
  | cons pid pids ih =>
    rw [reapAll] at h
    split at h
    · cases h
    rename_i slot _
    split at h
    · cases h
    rename_i k1 hreap
    have hp1 := ih h
    cases hq : k.procs slot with
    | none =>
      simp only [reapZombie, hq] at hreap
      cases hreap
      exact hp1
    | some q =>
      obtain ⟨s, rfl⟩ := reapZombie_eq hq hreap
      rw [setProc_procs] at hp1
      split at hp1
      · cases hp1
      · exact hp1

lemma mem_initZombies (htidy : k.table.Tidy) (h : z ∈ k.initZombies) :
    ∃ (slot : Pid) (q : Task), slot.val = z ∧ k.table.tasks slot = some q ∧ q.state = .zombie ∧
      q.parentPid = some 1 := by
  rw [initZombies, List.mem_filterMap] at h
  obtain ⟨i, -, hi⟩ := h
  cases hq : k.procs i with
  | none => simp [hq] at hi
  | some q =>
    simp only [hq] at hi
    split at hi
    · rename_i htest
      refine ⟨i, q.task, ?_, table_tasks hq, htest.2, htest.1⟩
      cases hi
      exact (htidy.pid i q.task (table_tasks hq)).symm
    · cases hi

lemma calms_reapAll {rest : List Nat} {cur : Pid} (hone : cur.val = 1)
    (hH : ∀ t h, Occurs M k .initRound t h → H t h) (hlist : k.initZombies = done ++ rest)
    (hdone : reapAll done k = .ok k1) (hcur : k1.currentPid = some cur)
    (hzombies : ∀ z ∈ rest, ∃ slot : Pid, slot.val = z ∧ ∀ q, k1.table.tasks slot = some q →
      q.state = .zombie ∧ q.parentPid = some 1) (h : reapAll rest k1 = .ok k') :
    Calms H k1.table k'.table := by
  induction rest generalizing done k1 with
  | nil =>
    cases h
    exact .refl
  | cons z rest ih =>
    obtain ⟨slot, rfl, hslot⟩ := hzombies z (by simp)
    rw [reapAll, pidSlot_val] at h
    dsimp only at h
    split at h
    · cases h
    rename_i k2 hreap
    have hlist' : k.initZombies = (done ++ [slot.val]) ++ rest := by simp [hlist]
    cases hq : k1.procs slot with
    | none =>
      have hsame : k2 = k1 := by
        simp only [reapZombie, hq] at hreap
        exact (Except.ok.inj hreap).symm
      subst hsame
      exact ih hlist' (reapAll_snoc hdone hreap) hcur (fun z hz => hzombies z (by simp [hz])) h
    | some q =>
      have htab := table_reapZombie hq hreap
      obtain ⟨hzom, hpar⟩ := hslot q.task (table_tasks hq)
      refine .head ?_ (ih hlist' (reapAll_snoc hdone hreap) ?_ ?_ h)
      · rw [htab]
        refine .reap _ (table_tasks hq) hzom hcur (by rw [hone]; exact hpar) (hH _ _ ?_)
        exact .reapInit hlist hdone hq
      · have := congrArg Table.currentPid htab
        exact this.trans hcur
      intro z hz
      obtain ⟨slot', rfl, hslot'⟩ := hzombies z (by simp [hz])
      refine ⟨slot', rfl, fun q' hq' => hslot' q' ?_⟩
      rw [htab] at hq'
      dsimp only at hq'
      rw [Function.update_apply] at hq'
      split at hq'
      · cases hq'
      · exact hq'

/-! ## The refinement -/

lemma enter_current (hcur : k.current = some (pid, p)) (frame : Frame) :
    ∃ p', (k.enter frame).current = some (pid, p') ∧ p'.task = p.task := by
  simp only [enter, hcur]
  split
  · exact ⟨_, current_eq_some.mpr ⟨(current_eq_some.mp hcur).1, setProc_procs_self _⟩, rfl⟩
  · exact ⟨p, hcur, rfl⟩

lemma enter_freeSlot (frame : Frame) : (k.enter frame).freeSlot = k.freeSlot := by
  have hnone : ∀ i, ((k.enter frame).procs i).isNone = (k.procs i).isNone := by
    intro i
    have := congrArg (fun t : Table => (t.tasks i).isNone) (table_enter (k := k) frame)
    simpa [table] using this
  simp only [freeSlot, hnone]

lemma enter_other (frame : Frame) : (k.enter frame).machine = k.machine ∧
    (k.enter frame).kernelPml4 = k.kernelPml4 ∧ (k.enter frame).pipes = k.pipes := by
  rw [enter]
  split
  · exact ⟨rfl, rfl, rfl⟩
  · split <;> exact ⟨rfl, rfl, rfl⟩

lemma step_syscall {frame : Frame} {call : Syscall} (htidy : k.table.Tidy)
    (hcur : k.current = some (pid, p)) (huser : p.isUser = true)
    (hH : ∀ t h, Occurs M k (.syscall savedRsp frame call) t h → H t h)
    (h : k.syscall M savedRsp frame call = .ok k') : Table.Step H k.table k'.table := by
  rw [syscall] at h
  split at h
  · cases h
  rename_i r k1 hhdl
  obtain ⟨p', hcur', htask⟩ := enter_current hcur frame
  have htab := table_enter (k := k) frame
  obtain ⟨hmac, hpml4, hpip⟩ := enter_other (k := k) frame
  have huser' : p'.isUser = true := by
    rw [← huser]
    exact congrArg Task.isUser htask
  have hhandled : Handled H (k.enter frame) k1 := by
    refine handled_handle (htab.symm ▸ htidy) hcur' huser' ?_ ?_ ?_ ?_ ?_ ?_ hhdl
    · rw [htab]
      exact hH _ _ .block
    · rintro ⟨code, rfl⟩
      rw [htab]
      exact hH _ _ .exit
    · rintro (⟨file, rfl⟩ | ⟨file, argv, rfl⟩)
      · rw [htab]
        exact hH _ _ .exec
      · rw [htab]
        exact hH _ _ .execve
    · rintro rfl i hi
      rw [htab]
      rw [hpip] at hi
      exact hH _ _ (.openPipe hi)
    · rintro stack extraStack slot task holding gens rfl hslot hnew hstk hcr
      rw [enter_freeSlot] at hslot
      rw [htab] at hnew ⊢
      rw [hmac, hpml4] at hcr
      exact hH _ _ (.create rfl (.inr hslot) hnew ⟨hstk, hcr⟩)
    rintro childPid flags slot q rfl hreap hq
    rw [htab]
    exact hH _ _ (.reap hreap hq)
  rw [Handled, htab] at hhandled
  rw [finishCall] at h
  split at h
  · rename_i hfor
    obtain ⟨sp, hswitch⟩ := map_snd_eq_ok.mp h
    have hdcn : k.decision M (.syscall savedRsp frame call) =
        some (({ k1 with forceSwitch := false } : Kernel).saveCurrentSp savedRsp) := by
      simp [decision, hhdl, hfor]
    have hsw : Switch H k1.table k'.table :=
      switch_forcedSwitch (k := { k1 with forceSwitch := false })
        (fun v p death hv hidle hdeath => hH _ _ (.die hdcn hv hidle hdeath)) hswitch
    rcases hhandled with hclm | ⟨hgive, -⟩
    · exact ⟨_, hclm, .inr ⟨_, .nothing, hsw⟩⟩
    · exact ⟨_, .refl, .inr ⟨_, hgive, hsw⟩⟩
  rename_i hfor
  cases h
  rcases hhandled with hclm | ⟨-, hset⟩
  · exact ⟨_, hclm, .inl rfl⟩
  · exact absurd hset hfor

lemma step_storeByte {va : Nat} {b : Byte} (hcur : k.current = some (pid, p))
    (huser : p.isUser = true) (hH : k.storeFatal va = true → H k.table .fault)
    (h : k.storeByte va b = .ok k') : Table.Step H k.table k'.table := by
  rw [storeByte] at h
  split at h
  · cases h
    exact ⟨_, .refl, .inl rfl⟩
  rename_i hmiss
  split at h
  · rename_i hva
    split at h
    · cases h
    · cases h
      exact ⟨_, .refl, .inl rfl⟩
    rename_i s hcow
    have hfatal : k.storeFatal va = true := by
      simp only [storeFatal, hmiss, if_pos hva, hcow, Bool.not_false]
    exact step_fatalFault (k := { k with machine := s }) hcur huser (hH hfatal) h
  rename_i hva
  have hfatal : k.storeFatal va = true := by
    simp only [storeFatal, hmiss, if_neg hva]
  exact step_fatalFault hcur huser (hH hfatal) h

/-- Every event of the kernel is a step of the table, with hazards that occur in it. -/
lemma Steps.refines {ev : Event} (htidy : k.table.Tidy)
    (hH : ∀ t h, Occurs M k ev t h → H t h) (h : k.Steps M ev k') :
    Table.Step H k.table k'.table := by
  obtain ⟨hcan, hre⟩ := h
  have hcalm : Calms H k.table k'.table → Table.Step H k.table k'.table :=
    fun hclm => ⟨_, hclm, .inl rfl⟩
  -- spawns, input and init's round are calm; the other events may give up the CPU
  cases ev with
  | spawnIdle stack =>
    have hfree : k.procs IDLE_PID = none := by
      simp only [canHappen, Bool.and_eq_true, Option.isNone_iff_eq_none] at hcan
      exact hcan.2
    refine hcalm (.single (calm_spawnIdle hfree ?_ hre))
    intro task holding hnew hstk
    exact hH _ _ (.create rfl (.inl ⟨rfl, rfl⟩) hnew hstk)
  | spawnKernel stack =>
    cases hre
    refine hcalm (calms_spawnKernel ?_ fun slot hslot => hH _ _ (.bump (.inl rfl) hslot))
    intro slot task holding gens hslot hnew hstk
    exact hH _ _ (.create rfl (.inr hslot) hnew hstk)
  | spawnUser elf parent stack =>
    obtain ⟨r, hsp⟩ := map_snd_eq_ok.mp hre
    refine hcalm (calms_spawnUser ?_ (fun slot hslot => hH _ _ (.bump (.inr rfl) hslot)) hsp).1
    intro slot task holding gens hslot hnew hstk hpml4 hpar
    exact hH _ _ (.create rfl (.inr hslot) hnew ⟨hstk, hpar, hpml4⟩)
  | spawnInit elf stack =>
    simp only [react, spawnInit] at hre
    have hspawned : ∀ r k1, k.spawnUser M elf none stack = .ok (r, k1) →
        Calms H k.table k1.table ∧ ∀ slot, r = some slot →
          ∃ p, k1.procs slot = some p ∧ p.parentPid = none ∧
            p.generation = k1.generations slot := by
      intro r k1 hsp
      refine calms_spawnUser ?_ (fun slot hslot => hH _ _ (.bump (.inr rfl) hslot)) hsp
      intro slot task holding gens hslot hnew hstk hpml4 hpar
      exact hH _ _ (.create rfl (.inr hslot) hnew ⟨hstk, hpar, hpml4⟩)
    split at hre
    · cases hre
    · rename_i slot k1 hsp
      obtain ⟨hclm, hnew⟩ := hspawned _ _ hsp
      obtain ⟨p, hp, hpar, hgen⟩ := hnew slot rfl
      cases hre
      exact hcalm (hclm.tail (.setInit (table_tasks hp) hpar hgen))
    rename_i k1 hsp
    cases hre
    exact hcalm (hspawned _ _ hsp).1
  | timer savedRsp frame =>
    obtain ⟨sp, htick⟩ := map_snd_eq_ok.mp hre
    have hdr : H (k.enter frame).table .drain := by
      rw [table_enter]
      exact hH _ _ .drain
    rw [← table_enter (k := k) frame]
    refine step_timerTick hdr ?_ htick
    intro k1 hbeg hsome hexpired v p death _ hv hidle hdeath
    refine hH _ _ (.die ?_ hv hidle hdeath)
    obtain ⟨cur, hcur⟩ := Option.ne_none_iff_exists'.mp hsome
    simp only [decision, hbeg, hcur, if_pos hexpired]
    rfl
  | key signal =>
    cases hre
    have hsig : signal = 2 ∨ signal = 3 ∨ signal = 20 := by
      simpa [canHappen, or_assoc] using hcan
    exact step_sendSignalToFg htidy hsig fun hkill => hH _ _ (.foreground hkill)
  | line =>
    cases hre
    exact hcalm .refl
  | syscall savedRsp frame call =>
    obtain ⟨pid, p, hcur, huser⟩ := userRunning_iff.mp hcan
    exact step_syscall htidy hcur huser hH hre
  | fault =>
    obtain ⟨pid, p, hcur, huser⟩ := userRunning_iff.mp hcan
    exact step_fatalFault hcur huser (hH _ _ (.fault rfl)) hre
  | store va b =>
    obtain ⟨pid, p, hcur, huser⟩ := userRunning_iff.mp hcan
    exact step_storeByte hcur huser (fun hfatal => hH _ _ (.fault hfatal)) hre
  | initRound =>
    simp only [canHappen, reaperRunning] at hcan
    split at hcan
    swap
    · cases hcan
    rename_i cur p hcur
    rw [Bool.and_eq_true, beq_iff_eq] at hcan
    refine hcalm (calms_reapAll hcan.1 hH (List.nil_append _).symm rfl (current_eq_some.mp hcur).1
      ?_ hre)
    intro z hz
    obtain ⟨slot, q, hslot, hq, hzom, hpar⟩ := mem_initZombies htidy hz
    refine ⟨slot, hslot, fun q' hq' => ?_⟩
    rw [hq, Option.some.injEq] at hq'
    exact hq' ▸ ⟨hzom, hpar⟩

end Kernel

end Indominus.Sys
