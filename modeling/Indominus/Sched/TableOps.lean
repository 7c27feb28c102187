import Indominus.Sched.Delivery
import Indominus.Sched.Table

/-! # Kernel operations on the table, as equations -/

namespace Indominus.Sys

open Option Process Table

open Memory (Machine Panic)

namespace Table

variable {t : Table} {pid : Pid}

@[simp] lemma mapTasks_tasks (f : Pid → Task → Task) (i : Pid) :
    (t.mapTasks f).tasks i = (t.tasks i).map (f i) :=
  rfl

lemma update_tasks (f : Task → Task) (i : Pid) :
    (t.update pid f).tasks i = if i = pid then (t.tasks i).map f else t.tasks i := by
  rw [update, mapTasks_tasks]
  split
  · rfl
  · cases t.tasks i <;> rfl

lemma wake_nobody {who : Pid → Bool} (h : ∀ i, who i = false) : t.wake who = t := by
  apply Table.ext
  case tasks =>
    funext i
    rw [wake, mapTasks_tasks, h]
    cases t.tasks i <;> rfl
  all_goals rfl

lemma current_eq_some {p : Task} :
    t.current = some (pid, p) ↔ t.currentPid = some pid ∧ t.tasks pid = some p := by
  rw [current]
  cases h : t.currentPid with
  | none => simp
  | some q =>
    simp only [map_eq_some_iff, Prod.mk.injEq, some.injEq]
    constructor
    · rintro ⟨p', hp', rfl, rfl⟩
      exact ⟨rfl, hp'⟩
    · rintro ⟨rfl, hp⟩
      exact ⟨p, hp, rfl, rfl⟩

end Table

namespace Kernel

variable {k k' : Kernel} {pid v : Pid} {p : Process}

lemma val_of_pidSlot {n : Nat} (h : pidSlot n = some pid) : pid.val = n := by
  rw [pidSlot] at h
  split at h
  · exact congrArg Fin.val (some.inj h).symm
  · cases h

lemma table_tasks (h : k.procs pid = some p) : k.table.tasks pid = some p.task := by
  simp [table, h]

lemma table_holdings (h : k.procs pid = some p) : k.table.holdings pid = some p.holding := by
  simp [table, h]

lemma table_tasks_eq_none : k.table.tasks pid = none ↔ k.procs pid = none := by
  simp [table]

lemma table_current (h : k.current = some (pid, p)) : k.table.current = some (pid, p.task) := by
  obtain ⟨hpid, hp⟩ := current_eq_some.mp h
  exact Table.current_eq_some.mpr ⟨hpid, table_tasks hp⟩

variable {q : Task} {p' : Process} {test : Pid → Process → Bool}

lemma exists_of_table_tasks (h : k.table.tasks pid = some q) :
    ∃ p, k.procs pid = some p ∧ p.task = q :=
  map_eq_some_iff.mp h

lemma exists_of_table_current (h : k.table.current = some (pid, q)) :
    ∃ p, k.current = some (pid, p) ∧ p.task = q := by
  obtain ⟨hpid, hq⟩ := Table.current_eq_some.mp h
  obtain ⟨p, hp, htask⟩ := exists_of_table_tasks hq
  exact ⟨p, current_eq_some.mpr ⟨hpid, hp⟩, htask⟩

/-! ## Writing one process -/

lemma table_update {f : Task → Task} (hp : k.procs pid = some p) (htask : p'.task = f p.task)
    (hhold : p'.holding = p.holding) : (k.setProc pid (some p')).table = k.table.update pid f := by
  apply Table.ext
  case tasks =>
    funext i
    rw [update_tasks]
    change ((k.setProc pid (some p')).procs i).map task = _
    rw [setProc_procs]
    by_cases hi : i = pid
    · simp [hi, table, hp, htask]
    · simp [hi, table]
  case holdings =>
    funext i
    change ((k.setProc pid (some p')).procs i).map holding = _
    rw [setProc_procs]
    by_cases hi : i = pid
    · simp [hi, table, update, mapTasks, hp, hhold]
    · simp [hi, table, update, mapTasks]
  all_goals rfl

lemma update_id (t : Table) : t.update pid id = t := by
  apply Table.ext
  case tasks =>
    funext i
    rw [update_tasks]
    split <;> simp
  all_goals rfl

lemma table_setProc (hp : k.procs pid = some p) (htask : p'.task = p.task)
    (hhold : p'.holding = p.holding) : (k.setProc pid (some p')).table = k.table := by
  rw [table_update (f := id) hp htask hhold, update_id]

lemma table_congr {k1 k2 : Kernel} (hprs : k1.procs = k2.procs)
    (hgens : k1.generations = k2.generations) (hcur : k1.currentPid = k2.currentPid)
    (hinit : k1.initPid = k2.initPid) (hpip : k1.table.pipes = k2.table.pipes)
    (hdef : k1.deferred = k2.deferred) (hcr3 : k1.cr3 = k2.cr3)
    (hpml4 : k1.kernelPml4 = k2.kernelPml4) : k1.table = k2.table := by
  apply Table.ext
  case tasks => simp [table, hprs]
  case holdings => simp [table, hprs]
  case pipes => exact hpip
  all_goals simpa [table]

/-! ## Wake-ups -/

@[simp] lemma task_woken (p : Process) : (woken p).task = p.task.woken := rfl

def slotsWhere (k : Kernel) (test : Pid → Process → Bool) (i : Pid) : Bool :=
  match k.procs i with
  | some p => test i p
  | none => false

lemma slotsWhere_eq_true {i : Pid} :
    k.slotsWhere test i = true ↔ ∃ p, k.procs i = some p ∧ test i p = true := by
  rw [slotsWhere]
  cases h : k.procs i <;> simp

lemma table_wakeWhere (test : Pid → Process → Bool) :
    (k.wakeWhere test).table = k.table.wake (k.slotsWhere test) := by
  apply Table.ext
  case tasks =>
    funext i
    change ((k.procs i).map _).map task = ((k.procs i).map task).map _
    cases hp : k.procs i with
    | none => rfl
    | some p =>
      have hslot : k.slotsWhere test i = test i p := by simp [slotsWhere, hp]
      cases htest : test i p <;> simp [hslot, htest]
  case holdings =>
    funext i
    change ((k.procs i).map _).map holding = (k.procs i).map holding
    cases hp : k.procs i with
    | none => rfl
    | some p => cases htest : test i p <;> simp [htest, woken, holding]
  all_goals rfl

variable {H : Permits}

lemma calm_wakeWhere (h : ∀ i p, test i p = true → p.state = .blocked ∧ p.wakeReason ≠ .none) :
    Calm H k.table (k.wakeWhere test).table := by
  rw [table_wakeWhere]
  refine .wake (t := k.table) k.table.pipes _ ?_ (.inl rfl)
  intro i q hi hq
  obtain ⟨p, hp, htest⟩ := slotsWhere_eq_true.mp hi
  rw [table_tasks hp, some.injEq] at hq
  rw [← hq]
  exact h i p htest

lemma bind_table_pipes (idx : Nat) :
    (pipeSlot idx).bind k.table.pipes = ((pipeSlot idx).bind k.pipes).map Pipe.view := by
  cases pipeSlot idx <;> rfl

lemma shouldWake_blocked (h : k.shouldWake p = true) :
    p.state = .blocked ∧ p.wakeReason ≠ .none := by
  rw [shouldWake, Bool.and_eq_true, beq_iff_eq] at h
  refine ⟨h.1, ?_⟩
  intro hnone
  rw [hnone] at h
  exact Bool.noConfusion h.2

lemma shouldWake_of_pipeReady (hblk : p.state = .blocked)
    (hrdy : p.task.pipeReady k.table.pipes = true) : k.shouldWake p = true := by
  rw [shouldWake]
  simp only [Task.pipeReady, task, bind_table_pipes] at hrdy
  cases hwhy : p.wakeReason with
  | pipeRead idx =>
    cases hq : (pipeSlot idx).bind k.pipes <;> simp_all [Pipe.view]
  | pipeWrite idx =>
    cases hq : (pipeSlot idx).bind k.pipes <;> simp_all [Pipe.view]
  | _ => simp [hwhy] at hrdy

lemma calm_keyboardWake {t : Table} (h : k.table = { t with pipes := k.table.pipes }) :
    Calm H t k.keyboardWake.table := by
  rw [keyboardWake, table_wakeWhere, h]
  have htsk : k.table.tasks = t.tasks := by rw [h]
  refine .wake (t := t) k.table.pipes _ ?_ (.inr ?_)
  · intro i q hi hq
    obtain ⟨p, hp, htest⟩ := slotsWhere_eq_true.mp hi
    rw [← htsk, table_tasks hp, some.injEq] at hq
    rw [← hq]
    exact shouldWake_blocked htest
  intro i q hq hblk hrdy
  rw [← htsk] at hq
  obtain ⟨p, hp, rfl⟩ := exists_of_table_tasks hq
  exact slotsWhere_eq_true.mpr ⟨p, hp, shouldWake_of_pipeReady hblk hrdy⟩

/-! ## Deaths -/

lemma table_reparentOrphansToInit (old : Pid) :
    (k.reparentOrphansToInit old).table = k.table.adopt old := by
  apply Table.ext
  case tasks =>
    funext i
    change ((k.procs i).map _).map task = ((k.procs i).map task).map _
    cases hp : k.procs i with
    | none => rfl
    | some p =>
      simp only [map_some, task, adopted]
      split <;> rfl
  case holdings =>
    funext i
    change ((k.procs i).map _).map holding = (k.procs i).map holding
    cases hp : k.procs i with
    | none => rfl
    | some p =>
      simp only [map_some, holding]
      split <;> rfl
  all_goals rfl

lemma reparentOrphansToInit_procs (hp : k.procs pid = some p) (old : Pid) :
    ∃ p', (k.reparentOrphansToInit old).procs pid = some p' := by
  simp [reparentOrphansToInit, hp]

lemma table_killCurrent (hcur : k.current = some (pid, p)) :
    k.killCurrent.table = k.table.kill pid := by
  obtain ⟨hpid, hp⟩ := current_eq_some.mp hcur
  obtain ⟨p', hp'⟩ := reparentOrphansToInit_procs hp pid
  simp only [killCurrent, hpid, hp']
  rw [kill, ← table_reparentOrphansToInit]
  apply table_update hp' <;> rfl

lemma table_exitCurrent (hcur : k.current = some (pid, p)) (code : Nat) :
    (k.exitCurrent code).table = k.table.kill pid := by
  obtain ⟨hpid, hp⟩ := current_eq_some.mp hcur
  obtain ⟨p', hp'⟩ := reparentOrphansToInit_procs hp pid
  simp only [exitCurrent, hpid, hp']
  rw [kill, ← table_reparentOrphansToInit]
  apply table_update hp' <;> rfl

lemma idle_bne (i : Pid) : (i.val != 0) = (i != IDLE_PID) := by
  rw [Bool.eq_iff_iff, bne_iff_ne, bne_iff_ne, Ne, Ne, Fin.ext_iff]
  rfl

lemma table_wakeWaitForChild (child : Nat) :
    (k.wakeWaitForChild child).table = k.table.wake fun i =>
      i != IDLE_PID && k.table.isBlocked i && k.table.waitsFor i child := by
  rw [wakeWaitForChild, table_wakeWhere]
  congr 1
  funext i
  rw [slotsWhere, isBlocked, waitsFor]
  cases hp : k.procs i with
  | none => simp [table, hp]
  | some p =>
    rw [table_tasks hp]
    simp only [task, idle_bne]
    congr 1
    cases p.wakeReason with
    | waitForChild c =>
      rw [Bool.eq_iff_iff]
      simp
    | _ => simp

lemma table_sysExitCall (hcur : k.current = some (pid, p)) (code : Nat) :
    (k.sysExitCall code).table = k.table.exit pid := by
  have hpid := (current_eq_some.mp hcur).1
  change ((k.exitCurrent code).wakeWaitForChild _).table = _
  rw [hpid, map_some, getD_some, table_wakeWaitForChild, table_exitCurrent hcur,
    exit]

/-! ## Reaping -/

/-- The pipes after the descriptors of a process have been closed. -/
def pipesWithout (k : Kernel) (p : Process) (i : PipeIdx) : Option PipeView :=
  (closePipes k.pipes ((List.finRange MAX_FDS).filterMap fun fd => pipeOp (p.fdTypes fd)) i).map
    Pipe.view

lemma reapZombie_eq (hp : k.procs pid = some p) (h : k.reapZombie pid = .ok k') :
    ∃ s, k' = ({ k with
      pipes :=
        closePipes k.pipes ((List.finRange MAX_FDS).filterMap fun fd => pipeOp (p.fdTypes fd))
      machine := s } : Kernel).setProc pid none := by
  simp only [reapZombie, hp, dropProcess] at h
  split at h
  · cases h
  rename_i k1 hk1
  split at hk1
  · split at hk1
    · cases hk1
    · rename_i s _
      exact ⟨s, by rw [← Except.ok.inj h, ← Except.ok.inj hk1]⟩
  · exact ⟨k.machine, by rw [← Except.ok.inj h, ← Except.ok.inj hk1]⟩

lemma table_reapZombie (hp : k.procs pid = some p) (h : k.reapZombie pid = .ok k') :
    k'.table = { k.table with
      tasks := Function.update k.table.tasks pid none
      holdings := Function.update k.table.holdings pid none
      pipes := k.pipesWithout p } := by
  obtain ⟨s, rfl⟩ := reapZombie_eq hp h
  apply Table.ext
  case tasks =>
    funext i
    simp only [table, setProc, Function.update_apply]
    split <;> rfl
  case holdings =>
    funext i
    simp only [table, setProc, Function.update_apply]
    split <;> rfl
  all_goals rfl

/-! ## The parts of a context switch -/

lemma table_suspendCurrent (k : Kernel) : k.suspendCurrent.table = k.table.suspend := by
  cases hcur : k.current with
  | none =>
    simp only [suspendCurrent, hcur]
    apply Table.ext
    case tasks =>
      funext i
      rw [suspend]
      cases hp : k.procs i with
      | none => simp [table, hp]
      | some p =>
        -- nobody is in the current slot
        have hne : k.table.currentPid ≠ some i := by
          intro heq
          rw [current_eq_some.mpr ⟨heq, hp⟩] at hcur
          cases hcur
        simp [table_tasks hp, hne]
    all_goals rfl
  | some r =>
    obtain ⟨pid, p⟩ := r
    obtain ⟨hpid, hp⟩ := current_eq_some.mp hcur
    simp only [suspendCurrent, hcur]
    have hsus : k.table.suspend = k.table.update pid fun q =>
        if q.state = .running then { q with state := .ready } else q := by
      apply Table.ext
      case tasks =>
        funext i
        rw [update_tasks, suspend]
        have hcur' : k.table.currentPid = some pid := hpid
        by_cases hi : i = pid
        · simp [hi, hcur']
        · have hne : pid ≠ i := fun heq => hi heq.symm
          simp [hi, hcur', hne]
      all_goals rfl
    rw [hsus]
    refine table_update hp ?_ ?_
    · by_cases hrun : p.state = .running <;> simp [task, hrun]
    · rfl

lemma table_setRunning (next : Pid) : (k.setRunning next).table = k.table.run next := by
  rw [setRunning]
  split
  · rename_i hnone
    apply Table.ext
    case tasks =>
      funext i
      change k.table.tasks i = (k.table.update next _).tasks i
      rw [update_tasks]
      split
      · rename_i hi
        rw [hi, table_tasks_eq_none.mpr hnone]
        rfl
      · rfl
    all_goals rfl
  rename_i p hp
  have hupd : (k.setProc next (some { p with state := .running })).table =
      k.table.update next fun q => { q with state := .running } := table_update hp rfl rfl
  exact congrArg (fun t : Table => { t with currentPid := some next }) hupd

lemma table_saveCurrentSp (sp : Nat) : (k.saveCurrentSp sp).table = k.table.save := by
  apply Table.ext
  case tasks =>
    funext i
    rw [saveCurrentSp]
    split
    · rfl
    rename_i pid p hcur
    change ((k.setProc pid _).procs i).map task = (k.procs i).map task
    rw [setProc_procs]
    split
    · rename_i hi
      rw [hi, procs_of_current hcur]
      rfl
    · rfl
  case holdings =>
    funext i
    change ((k.saveCurrentSp sp).procs i).map holding =
      ((k.procs i).map holding).map _
    rw [saveCurrentSp]
    cases hp : k.procs i with
    | none =>
      split
      · simp [hp]
      rename_i pid p hcur
      have hne : i ≠ pid := by
        rintro rfl
        rw [procs_of_current hcur] at hp
        cases hp
      simp [setProc_procs_of_ne hne, hp]
    | some q =>
      split
      · rename_i hcur
        have hne : k.currentPid ≠ some i := by
          intro heq
          rw [current_eq_some.mpr ⟨heq, hp⟩] at hcur
          cases hcur
        simp [hp, table, hne]
      rename_i pid p hcur
      obtain ⟨hpid, hp'⟩ := current_eq_some.mp hcur
      by_cases hi : i = pid
      · subst hi
        rw [hp, some.injEq] at hp'
        subst hp'
        simp [table, hpid, holding]
      · have hne : pid ≠ i := fun heq => hi heq.symm
        simp [setProc_procs_of_ne hi, hp, table, hpid, hne]
  all_goals
    rw [saveCurrentSp]
    split <;> rfl

lemma table_loadCr3 (k : Kernel) : k.loadCr3.table = k.table.load := by
  rw [loadCr3, load]
  cases hcur : k.current with
  | none =>
    have hnone : k.table.currentPid.bind k.table.holdings = none := by
      rw [current] at hcur
      split at hcur
      · rename_i hnone
        simp [table, hnone]
      · rename_i pid hpid
        simpa [table, hpid] using hcur
    rw [hnone]
  | some r =>
    obtain ⟨pid, p⟩ := r
    obtain ⟨hpid, hp⟩ := current_eq_some.mp hcur
    have hsome : k.table.currentPid.bind k.table.holdings = some p.holding := by
      simp [table, hpid, hp]
    rw [hsome]
    rfl

lemma table_takeDead (h : k.takeDead pid p = .ok k') :
    k'.table = k.table.bury pid p.isUser p.holding := by
  rw [takeDead] at h
  rw [bury]
  split at h
  · rename_i hheld
    rw [if_pos (show p.holding.kernelStackBase ≠ 0 ∨ p.holding.pml4Phys ≠ 0 from hheld)]
    split at h
    · cases h
    rename_i k1 hk1
    rw [deferFree] at hk1
    split at hk1
    swap
    · cases hk1
    cases hk1
    apply Table.ext
    case tasks =>
      funext i
      split at h
      · cases h
        rfl
      rename_i q hq
      cases h
      change (Option.map task ((setProc _ pid _).procs i)) = _
      rw [setProc_procs]
      split
      · rename_i hi
        rw [hi]
        exact (table_tasks hq).symm
      · rfl
    case holdings =>
      funext i
      change _ = ((k.procs i).map holding).map _
      split at h
      · rename_i hq
        cases h
        change (k.procs i).map holding = _
        by_cases hi : i = pid
        · subst hi
          change k.procs i = none at hq
          simp [hq]
        · cases k.procs i <;> simp [hi]
      rename_i q hq
      cases h
      change (Option.map holding ((setProc _ pid _).procs i)) = _
      change k.procs pid = some q at hq
      rw [setProc_procs]
      by_cases hi : i = pid
      · simp [hi, hq, holding]
      · cases k.procs i <;> simp [hi]
    all_goals
      split at h <;>
      · cases h
        rfl
  rename_i hheld
  rw [if_neg (show ¬ (p.holding.kernelStackBase ≠ 0 ∨ p.holding.pml4Phys ≠ 0) from hheld),
    ← Except.ok.inj h]

/-! ## Delivery of a signal -/

lemma table_wakeSignalledParent (h : k.wakeSignalledParent v p = .ok k') :
    k'.table = k.table.wakeParent v p.task := by
  have hidle : ∀ who : Pid → Bool, (∀ i q, who i = true → k.table.tasks i = some q → False) →
      k.table = k.table.wake who := by
    intro who hwho
    apply Table.ext
    case tasks =>
      funext i
      rw [wake, mapTasks_tasks]
      cases hq : k.table.tasks i with
      | none => rfl
      | some q =>
        have : who i ≠ true := fun hi => hwho i q hi hq
        simp [this]
    all_goals rfl
  rw [wakeParent]
  cases hpar : p.parentPid with
  | none =>
    simp only [wakeSignalledParent, hpar] at h
    cases h
    apply hidle
    intro i q hi
    simp [task, hpar] at hi
  | some parent =>
    cases hslot : pidSlot parent with
    | none => simp [wakeSignalledParent, hpar, hslot] at h
    | some slot =>
      have hval : parent = slot.val := by
        rw [pidSlot] at hslot
        split at hslot
        · rw [← some.inj hslot]
        · cases hslot
      subst hval
      -- only the slot of the parent can be meant
      have hwho : ∀ i : Pid, (p.task.parentPid == some i.val) = (slot == i) := by
        intro i
        simp [task, hpar, Fin.ext_iff]
      cases hq : k.procs slot with
      | none =>
        simp only [wakeSignalledParent, hpar, hslot, hq] at h
        cases h
        apply hidle
        intro i q hi hiq
        rw [hwho, Bool.and_eq_true, beq_iff_eq] at hi
        rw [← hi.1, table_tasks_eq_none.mpr hq] at hiq
        cases hiq
      | some q =>
        simp only [wakeSignalledParent, hpar, hslot, hq] at h
        split at h
        · rename_i hwait
          cases h
          have hupd : (k.setProc slot (some (woken q))).table = k.table.update slot Task.woken :=
            table_update hq rfl rfl
          rw [hupd]
          apply Table.ext
          case tasks =>
            funext i
            rw [update_tasks, wake, mapTasks_tasks, hwho]
            by_cases hi : i = slot
            · subst hi
              simp [table_tasks hq, task, hwait]
            · have : slot ≠ i := fun heq => hi heq.symm
              simp [hi, this]
          all_goals rfl
        rename_i hwait
        cases h
        apply hidle
        intro i r hi hir
        rw [hwho, Bool.and_eq_true, beq_iff_eq] at hi
        obtain ⟨rfl, hi⟩ := hi
        simp only [table_tasks hq, task, Bool.and_eq_true, beq_iff_eq] at hi
        exact hwait hi

end Kernel

/-- How the delivery of its pending signal kills a process, if it does. -/
def Process.signalDeath (p : Process) : Option Death :=
  if p.isUser then
    match p.hasPendingSignal with
    | none => none
    | some signum =>
      match p.signalHandler signum with
      | 0 => if signum = 18 ∨ signum = 19 ∨ signum = 20 then none else some .default
      | 1 => none
      | _ =>
        if p.stackPointer = 0 ∨ p.pml4Phys = 0 ∨ Kernel.pushable p.frame.rsp then none
        else some .badStack
  else none

namespace Kernel

variable {k k' : Kernel} {pid v : Pid} {p : Process} {H : Permits}

/-- Delivery does to the table what `Signalled` says. -/
lemma signalled_deliverSignal (hcur : k.current = some (v, p))
    (hH : ∀ death, p.signalDeath = some death → H k.table (.die death))
    (h : k.deliverSignal v = .ok k') : Signalled H k.table k'.table := by
  have hp := procs_of_current hcur
  have htcur := table_current hcur
  obtain ⟨rfl, -⟩ | ⟨p', signum, hp', huser, hpen, hdel⟩ := deliverSignal_cases h
  · exact .nothing
  rw [hp, some.injEq] at hp'
  subst hp'
  cases hdel with
  | default hdfl hwake =>
    -- the parent is looked up by fields that the default action leaves alone
    have hpar : ∀ t : Table, t.wakeParent v (p.defaultAction signum).task =
        t.wakeParent v p.task := by
      intro t
      rw [defaultAction]
      split_ifs <;> rfl
    rw [table_wakeSignalledParent hwake, hpar]
    by_cases hstop : signum = 20
    · have hupd : (k.setProc v (some (p.defaultAction signum))).table =
          k.table.update v Task.stopped := by
        rw [defaultAction, if_pos hstop]
        exact table_update hp rfl rfl
      rw [hupd]
      exact .stopped htcur huser
    by_cases hcont : signum = 18 ∨ signum = 19
    · have hsame : (k.setProc v (some (p.defaultAction signum))).table = k.table := by
        rw [defaultAction, if_neg hstop, if_pos hcont]
        exact table_setProc hp rfl rfl
      rw [hsame]
      exact .ignored htcur
    have hupd : (k.setProc v (some (p.defaultAction signum))).table =
        k.table.update v Task.dead := by
      rw [defaultAction, if_neg hstop, if_neg hcont]
      exact table_update hp rfl rfl
    rw [hupd]
    refine .killed htcur huser (hH _ ?_)
    have hne : ¬ (signum = 18 ∨ signum = 19 ∨ signum = 20) := by tauto
    simp [signalDeath, huser, hpen, hdfl, hne]
  | ignored =>
    have hsame : (k.setProc v (some (p.clearPending signum))).table = k.table :=
      table_setProc hp rfl rfl
    rw [hsame]
    exact .nothing
  | handler hhan hcall =>
    obtain ⟨-, rfl⟩ | ⟨hheld, hbad, rfl⟩ | ⟨-, s, frame, rfl⟩ := callHandler_cases hcall
    · exact .nothing
    · have hupd : (k.setProc v (some ((p.terminated 11).clearPending signum))).table =
          k.table.update v Task.dead := table_update hp rfl rfl
      rw [hupd]
      refine .badStack htcur huser (hH _ ?_)
      obtain ⟨n, hn⟩ : ∃ n, p.signalHandler signum = n + 2 := ⟨p.signalHandler signum - 2, by omega⟩
      have hne : ¬ (p.stackPointer = 0 ∨ p.pml4Phys = 0 ∨ pushable p.frame.rsp = true) := by
        rw [hbad]
        simpa using hheld
      simp [signalDeath, huser, hpen, hn, hne]
    have hsame : (({ k with machine := s } : Kernel).setProc v
        (some ({ p with frame := frame }.clearPending signum))).table = k.table :=
      table_setProc (k := { k with machine := s }) hp rfl rfl
    rw [hsame]
    exact .nothing

lemma signalled_deliverToCurrent
    (hH : ∀ v p death, k.current = some (v, p) → v ≠ IDLE_PID → p.signalDeath = some death →
      H k.table (.die death)) (h : k.deliverToCurrent = .ok k') : Signalled H k.table k'.table := by
  rw [deliverToCurrent] at h
  split at h
  · cases h
    exact .nothing
  rename_i next hnext
  split at h
  · cases h
    exact .nothing
  rename_i hidle
  cases hp : k.procs next with
  | none =>
    simp only [deliverSignal, hp] at h
    cases h
    exact .nothing
  | some p =>
    have hcur : k.current = some (next, p) := current_eq_some.mpr ⟨hnext, hp⟩
    exact signalled_deliverSignal hcur (fun death => hH next p death hcur hidle) h

end Kernel

end Indominus.Sys
