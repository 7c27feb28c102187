import Indominus.Sched.Delivery

/-! # What scheduling leaves alone -/

namespace Indominus.Sys

open Memory

/-- The fields of a process that only its own calls change. -/
structure Lasting where
  isUser : Bool
  fdTypes : Fd → FdType
  fdFlags : Fd → Nat
  fileHandles : Fin MAX_FILE_HANDLES → Option Nat
  /-- `heap_start` and `heap_end`. -/
  heap : Nat × Nat
  regions : List (Nat × Nat)

def Process.lasting (p : Process) : Lasting :=
  ⟨p.isUser, p.fdTypes, p.fdFlags, p.fileHandles, (p.heapStart, p.heapEnd), p.mmapRegions⟩

namespace Kernel

def lasting (k : Kernel) (i : Pid) : Option Lasting := (k.procs i).map Process.lasting

/-- Every process keeps what it has made for itself, and the pipes are as they were. -/
structure Undisturbed (k k' : Kernel) : Prop where
  lasting : k'.lasting = k.lasting
  pipes : k'.pipes = k.pipes

variable {k k' k1 k2 : Kernel} {pid : Pid} {p q : Process}

/-! ## Rules -/

lemma Undisturbed.refl (k : Kernel) : Undisturbed k k := ⟨rfl, rfl⟩

lemma Undisturbed.trans (h1 : Undisturbed k k1) (h2 : Undisturbed k1 k2) : Undisturbed k k2 :=
  ⟨h2.lasting.trans h1.lasting, h2.pipes.trans h1.pipes⟩

lemma Undisturbed.of_tables (hprs : k'.procs = k.procs) (hpip : k'.pipes = k.pipes) :
    Undisturbed k k' := by
  refine ⟨?_, hpip⟩
  funext i
  unfold Kernel.lasting
  rw [hprs]

lemma Undisturbed.setProc (h : Undisturbed k k1) (hp : k1.procs pid = some p)
    (hq : q.lasting = p.lasting) : Undisturbed k (k1.setProc pid (some q)) := by
  refine h.trans ⟨?_, rfl⟩
  funext i
  unfold Kernel.lasting
  rw [setProc_procs]
  split
  · rename_i hi
    rw [hi, hp, Option.map_some, Option.map_some, hq]
  · rfl

lemma Undisturbed.mapProcs (h : Undisturbed k k1) {f : Pid → Process → Process}
    (hf : ∀ i p, (f i p).lasting = p.lasting) :
    Undisturbed k { k1 with procs := fun i => (k1.procs i).map (f i) } := by
  refine h.trans ⟨?_, rfl⟩
  funext i
  unfold Kernel.lasting
  rw [Option.map_map]
  congr 1
  funext p
  exact hf i p

lemma Undisturbed.wakeWhere (h : Undisturbed k k1) (wake : Pid → Process → Bool) :
    Undisturbed k (k1.wakeWhere wake) := by
  apply h.mapProcs
  intro i p
  split <;> rfl

lemma Undisturbed.reparentOrphansToInit (h : Undisturbed k k1) (old : Pid) :
    Undisturbed k (k1.reparentOrphansToInit old) := by
  apply h.mapProcs
  intro i p
  split <;> rfl

/-! ## Signals -/

lemma lasting_defaultAction (p : Process) (signum : Nat) :
    (p.defaultAction signum).lasting = p.lasting := by
  unfold Process.defaultAction
  split
  · rfl
  split <;> rfl

lemma undisturbed_deliverSignal (h : k.deliverSignal pid = .ok k') : Undisturbed k k' := by
  obtain ⟨rfl, -⟩ | ⟨p, signum, hp, -, -, hdelivers⟩ := deliverSignal_cases h
  · exact .refl k'
  cases hdelivers with
  | default _ hwake =>
    have haction := (Undisturbed.refl k).setProc hp (lasting_defaultAction p signum)
    obtain rfl | ⟨slot, q, -, hq, -, -, rfl⟩ := wakeSignalledParent_cases hwake
    · exact haction
    · exact haction.setProc hq rfl
  | ignored => exact (Undisturbed.refl k).setProc hp rfl
  | handler _ hcall =>
    obtain ⟨-, rfl⟩ | ⟨-, -, rfl⟩ | ⟨-, s, frame, rfl⟩ := callHandler_cases hcall
    · exact .refl k'
    · exact (Undisturbed.refl k).setProc hp rfl
    · have hmac : Undisturbed k { k with machine := s } := .of_tables rfl rfl
      exact hmac.setProc hp rfl

lemma undisturbed_deliverToCurrent (h : k.deliverToCurrent = .ok k') : Undisturbed k k' := by
  unfold deliverToCurrent at h
  split at h
  · rw [Except.ok.inj h]
    exact .refl k'
  split at h
  · rw [Except.ok.inj h]
    exact .refl k'
  · exact undisturbed_deliverSignal h

lemma lasting_foregroundAction (signal : Nat) (p : Process) :
    (foregroundAction signal p).lasting = p.lasting := by
  unfold foregroundAction
  repeat' split
  all_goals rfl

lemma undisturbed_sendSignalToFg (k : Kernel) (signal : Nat) :
    Undisturbed k (k.sendSignalToFg signal) := by
  refine .wakeWhere (Undisturbed.wakeWhere ?_ _) _
  refine (Undisturbed.refl k).mapProcs ?_
  intro i p
  split
  · exact lasting_foregroundAction signal p
  · rfl

/-! ## Context switches -/

lemma undisturbed_saveCurrentSp (k : Kernel) (sp : Nat) : Undisturbed k (k.saveCurrentSp sp) := by
  unfold saveCurrentSp
  split
  · exact .refl k
  · rename_i pid p hcur
    exact (Undisturbed.refl k).setProc (procs_of_current hcur) rfl

lemma undisturbed_suspendCurrent (k : Kernel) : Undisturbed k k.suspendCurrent := by
  unfold suspendCurrent
  split
  · exact .refl k
  · rename_i pid p hcur
    exact (Undisturbed.refl k).setProc (procs_of_current hcur) rfl

lemma undisturbed_setRunning (k : Kernel) (next : Pid) : Undisturbed k (k.setRunning next) := by
  unfold setRunning
  split
  · exact .of_tables rfl rfl
  rename_i p hp
  have hrun : Undisturbed k (k.setProc next (some { p with state := .running })) :=
    (Undisturbed.refl k).setProc hp rfl
  exact hrun.trans (.of_tables rfl rfl)

variable {sp savedRsp : Nat}

lemma undisturbed_switchNextForce (h : k.switchNextForce = .ok (sp, k')) : Undisturbed k k' := by
  obtain ⟨-, hdlv⟩ := switchNextForce_cases h
  exact ((undisturbed_suspendCurrent k).trans (undisturbed_setRunning _ _)).trans
    (undisturbed_deliverToCurrent hdlv)

lemma undisturbed_loadCr3 (k : Kernel) : Undisturbed k k.loadCr3 := by
  unfold loadCr3
  split
  · exact .refl k
  · exact .of_tables rfl rfl

lemma undisturbed_takeDead (h : k.takeDead pid p = .ok k') : Undisturbed k k' := by
  unfold takeDead at h
  split at h
  · split at h
    · cases h
    rename_i k1 hdef
    have hlist : Undisturbed k k1 := by
      unfold deferFree at hdef
      split at hdef
      · cases hdef
        exact .of_tables rfl rfl
      · cases hdef
    split at h
    · cases h
      exact hlist
    rename_i q hq
    cases h
    exact hlist.setProc hq rfl
  · rw [Except.ok.inj h]
    exact .refl k'

lemma undisturbed_orIdle {sp' : Nat} (h : k.orIdle sp = .ok (sp', k')) : Undisturbed k k' := by
  unfold orIdle at h
  split at h
  · split at h
    · rw [ok_snd_inj h]
      exact .refl k'
    · cases h
  · rw [ok_snd_inj h]
    exact .refl k'

lemma undisturbed_forcedSwitch (h : k.forcedSwitch savedRsp = .ok (sp, k')) : Undisturbed k k' := by
  unfold forcedSwitch at h
  dsimp only at h
  split at h
  · cases h
  rename_i sp1 k1 hsw
  have hld : Undisturbed k k1.loadCr3 :=
    ((undisturbed_saveCurrentSp k savedRsp).trans (undisturbed_switchNextForce hsw)).trans
      (undisturbed_loadCr3 k1)
  split at h
  · exact hld.trans (undisturbed_orIdle h)
  split at h
  · split at h
    · cases h
    rename_i k2 htake
    exact (hld.trans (undisturbed_takeDead htake)).trans (undisturbed_orIdle h)
  · exact hld.trans (undisturbed_orIdle h)

lemma undisturbed_finishCall (h : k.finishCall savedRsp = .ok k') : Undisturbed k k' := by
  unfold finishCall at h
  split at h
  · obtain ⟨sp, hsw⟩ := map_snd_eq_ok.mp h
    have hflag : Undisturbed k { k with forceSwitch := false } := .of_tables rfl rfl
    exact hflag.trans (undisturbed_forcedSwitch hsw)
  · rw [Except.ok.inj h]
    exact .refl k'

lemma undisturbed_killCurrent (k : Kernel) : Undisturbed k k.killCurrent := by
  unfold killCurrent
  split
  · exact .refl k
  rename_i old _
  have horp := (Undisturbed.refl k).reparentOrphansToInit old
  dsimp only
  split
  · exact horp
  · rename_i p hp
    exact horp.setProc hp rfl

lemma undisturbed_fatalFault (h : k.fatalFault = .ok k') : Undisturbed k k' := by
  unfold fatalFault at h
  split at h
  · cases h
  rename_i sp k1 hkill
  split at h
  · cases h
  cases h
  unfold faultKill at hkill
  dsimp only at hkill
  have hld : Undisturbed k k.switchKilled.2.loadCr3 :=
    ((undisturbed_killCurrent k).trans (undisturbed_setRunning _ _)).trans (undisturbed_loadCr3 _)
  split at hkill
  · cases hkill
    exact hld
  split at hkill
  · cases hkill
  rename_i k2 htake
  cases hkill
  exact hld.trans (undisturbed_takeDead htake)

lemma undisturbed_storeByte {va : Nat} {b : Byte} (h : k.storeByte va b = .ok k') :
    Undisturbed k k' := by
  have hmac : ∀ s, Undisturbed k { k with machine := s } := fun s => .of_tables rfl rfl
  unfold storeByte at h
  split at h
  · cases h
    exact hmac _
  split at h
  · split at h
    · cases h
    · cases h
      exact hmac _
    · exact (hmac _).trans (undisturbed_fatalFault h)
  · exact undisturbed_fatalFault h

/-! ## The timer -/

lemma undisturbed_drainDeferredFree (h : k.drainDeferredFree = .ok k') : Undisturbed k k' := by
  unfold drainDeferredFree at h
  split at h
  · cases h
  · cases h
    exact .of_tables rfl rfl

lemma undisturbed_beginTick (h : k.beginTick = .ok k') : Undisturbed k k' := by
  unfold beginTick at h
  split at h
  · cases h
  rename_i k1 hdr
  have hdrained := undisturbed_drainDeferredFree hdr
  have hwoken : Undisturbed k k1.wakeIfPending := by
    unfold wakeIfPending
    split
    · have hflag : Undisturbed k { k1 with keyboardWakePending := false } :=
        hdrained.trans (.of_tables rfl rfl)
      exact hflag.wakeWhere _
    · exact hdrained
  cases h
  exact hwoken.trans (.of_tables rfl rfl)

lemma undisturbed_countTick (k : Kernel) : Undisturbed k k.countTick := by
  have hcnt : Undisturbed k { k with tickCounter := k.tickCounter + 1 } := .of_tables rfl rfl
  exact hcnt.wakeWhere _

lemma undisturbed_currentStackPointer (k : Kernel) : Undisturbed k k.currentStackPointer.2 := by
  unfold currentStackPointer
  split
  · exact .refl k
  split
  · exact .refl k
  split
  · exact .of_tables rfl rfl
  · exact undisturbed_setRunning k _

lemma undisturbed_onTick (h : k.onTick = .ok (sp, k')) : Undisturbed k k' := by
  unfold onTick at h
  dsimp only at h
  split at h
  · have hreset : Undisturbed k { k.countTick with tickCounter := 0 } :=
      (undisturbed_countTick k).trans (.of_tables rfl rfl)
    exact hreset.trans (undisturbed_switchNextForce h)
  have hkeep := (undisturbed_countTick k).trans (undisturbed_currentStackPointer k.countTick)
  rw [Except.ok.inj h] at hkeep
  exact hkeep

lemma undisturbed_firstDispatch (k : Kernel) (savedRsp : Nat) :
    Undisturbed k (k.firstDispatch savedRsp).2 := by
  unfold firstDispatch
  split
  · exact .refl k
  rename_i first _
  have hrun : Undisturbed k (k.dispatchFirst first).2 :=
    (undisturbed_setRunning k first).trans (.of_tables rfl rfl)
  dsimp only
  split
  · exact hrun
  · exact hrun.trans (.of_tables rfl rfl)

lemma undisturbed_timerTick (h : k.timerTick savedRsp = .ok (sp, k')) : Undisturbed k k' := by
  unfold timerTick at h
  split at h
  · cases h
  rename_i k1 hbeg
  have hbegun := undisturbed_beginTick hbeg
  split at h
  · have hfst := hbegun.trans (undisturbed_firstDispatch k1 savedRsp)
    rw [Except.ok.inj h] at hfst
    exact hfst
  split at h
  · cases h
  rename_i sp1 k2 htick
  exact
    (((hbegun.trans (undisturbed_saveCurrentSp k1 savedRsp)).trans (undisturbed_onTick htick)).trans
    (undisturbed_loadCr3 k2)).trans (undisturbed_orIdle h)

/-! ## System calls -/

lemma undisturbed_enter (k : Kernel) (frame : Frame) : Undisturbed k (k.enter frame) := by
  unfold enter
  split
  · exact .refl k
  rename_i pid p hcur
  split
  · exact (Undisturbed.refl k).setProc (procs_of_current hcur) rfl
  · exact .refl k

lemma undisturbed_block (k : Kernel) (reason : WakeReason) : Undisturbed k (k.block reason) := by
  unfold block
  split
  · exact .of_tables rfl rfl
  rename_i pid p hcur
  have hset :
      Undisturbed k (k.setProc pid (some { p with state := .blocked, wakeReason := reason })) :=
    (Undisturbed.refl k).setProc (procs_of_current hcur) rfl
  exact hset.trans (.of_tables rfl rfl)

lemma undisturbed_exitCurrent (k : Kernel) (code : Nat) : Undisturbed k (k.exitCurrent code) := by
  unfold exitCurrent
  split
  · exact .refl k
  rename_i pid _
  have horp := (Undisturbed.refl k).reparentOrphansToInit pid
  dsimp only
  split
  · exact horp
  · rename_i p hp
    exact horp.setProc hp rfl

lemma undisturbed_sysExitCall (k : Kernel) (code : Nat) : Undisturbed k (k.sysExitCall code) :=
  ((undisturbed_exitCurrent k code).wakeWhere _).trans (.of_tables rfl rfl)

lemma undisturbed_sysKill (k : Kernel) (target signum : Nat) :
    Undisturbed k (k.sysKill target signum).2 := by
  unfold sysKill
  split
  · exact .refl k
  split
  · exact .refl k
  split
  · exact .refl k
  rename_i p hp
  split
  · exact .refl k
  refine (Undisturbed.refl k).setProc hp ?_
  unfold Process.sendSignal
  split <;> rfl

lemma undisturbed_sysSetpgid (k : Kernel) (target pgid : Nat) :
    Undisturbed k (k.sysSetpgid target pgid).2 := by
  unfold sysSetpgid
  dsimp only
  split
  · exact .refl k
  split
  · exact .refl k
  · rename_i p hp
    exact (Undisturbed.refl k).setProc hp rfl

/-! ## Runs without system calls -/

/-- Interrupts, fatal faults and the stores of user code. -/
def isAsync : Event → Bool
  | .timer _ _ | .key _ | .line | .fault | .store _ _ => true
  | _ => false

/-- **Preemption, signals and faults leave files, heaps, regions and pipes alone**, in every
slot. -/
theorem Runs.undisturbed {M : Mapper} (h : Runs M (fun _ ev => isAsync ev = true) k k') :
    Undisturbed k k' := by
  induction h with
  | refl => exact .refl k
  | tail _ hlast ih =>
    obtain ⟨ev, hasync, -, hre⟩ := hlast
    refine ih.trans ?_
    cases ev with
    | timer savedRsp frame =>
      obtain ⟨sp, htick⟩ := map_snd_eq_ok.mp hre
      exact (undisturbed_enter _ frame).trans (undisturbed_timerTick htick)
    | key signal =>
      cases hre
      exact undisturbed_sendSignalToFg _ signal
    | line =>
      cases hre
      exact .of_tables rfl rfl
    | fault => exact undisturbed_fatalFault hre
    | store va b => exact undisturbed_storeByte hre
    | _ => cases hasync

/-- From the three spawned processes to init as the running one. -/
theorem Runs.undisturbed_quantum :
    ∃ k k', Runs referenceMapper (fun _ ev => isAsync ev = true) k k' ∧
    k'.currentPid = some initSlot ∧ Undisturbed k k' := by
  have hplay : plays referenceMapper (fun _ _ => True) (bootEvents.take 3) emptyKernel (fun k =>
      plays referenceMapper (fun _ ev => isAsync ev = true) (bootEvents.drop 3) k
        fun k' => k'.currentPid == some initSlot) = true := by
    decide +kernel
  obtain ⟨k, -, hplay⟩ := runs_of_plays hplay
  obtain ⟨k', hrun, htest⟩ := runs_of_plays hplay
  exact ⟨k, k', hrun, beq_iff_eq.mp htest, hrun.undisturbed⟩

end Kernel

end Indominus.Sys
