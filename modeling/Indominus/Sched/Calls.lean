import Indominus.Sched.TableOps

/-!
# System calls on the table

Up to the switch at its end, a call is a sequence of `Calm` changes or a `GivesUp`.
-/

namespace Indominus.Sys

open Memory Function Process

/-- What the refinement has to know about the table: processes know their slot, and no descriptor is
marked close-on-exec. -/
structure Table.Tidy (t : Table) : Prop where
  pid : ∀ i p, t.tasks i = some p → p.pid = i.val
  flags : ∀ i p fd, t.tasks i = some p → p.fdFlags fd = 0

/-- A sequence of changes that leave the CPU where it is. -/
abbrev Calms (H : Permits) : Table → Table → Prop := Relation.ReflTransGen (Calm H)

namespace Kernel

/-- The slot that `sys_waitpid` would reap. -/
def WouldReap (k : Kernel) (childPid : Nat) (slot : Pid) : Prop :=
  ∃ cur p, k.currentPid = some cur ∧ k.procs slot = some p ∧ p.state = .zombie ∧
    hasParent p cur (k.getGeneration cur) = true ∧
    (childPid = slot.val ∨ childPid = 0 ∧ k.findAnyZombieChild cur = some p)

variable {M : Mapper} {k k' : Kernel} {pid v : Pid} {p : Process} {H : Permits}

/-! ## Creation -/

lemma table_insert (slot : Pid) (p : Process) :
    (k.setProc slot (some p)).table = { k.table with
      tasks := update k.table.tasks slot (some p.task)
      holdings := update k.table.holdings slot (some p.holding) } := by
  apply Table.ext
  case tasks =>
    funext i
    simp only [table, setProc, update_apply]
    split <;> rfl
  case holdings =>
    funext i
    simp only [table, setProc, update_apply]
    split <;> rfl
  all_goals rfl

variable {slot cur : Pid} {stack parent : Option Nat}

lemma freeSlot_ne_idle (h : k.freeSlot = some slot) : slot ≠ IDLE_PID := by
  intro heq
  exact (freeSlot_cases h).2 (congrArg Fin.val heq)

lemma calm_spawnIdle (hfree : k.procs IDLE_PID = none)
    (hH : ∀ task holding, Creates k.table .idle IDLE_PID task holding k.table.generations →
      stack = some holding.kernelStackBase → H k.table (.create .idle IDLE_PID task holding))
    (h : k.spawnIdle stack = .ok k') : Calm H k.table k'.table := by
  cases stack with
  | none => simp [spawnIdle] at h
  | some base =>
  rw [← Except.ok.inj h, table_insert]
  have hnew : Creates k.table .idle IDLE_PID _ _ _ := .idle base
  exact .create (table_tasks_eq_none.mpr hfree) hnew (hH _ _ hnew rfl)

lemma calms_spawnKernel (hH : ∀ slot task holding gens, k.freeSlot = some slot →
      Creates k.table .kernel slot task holding gens → stack = some holding.kernelStackBase →
      H k.table (.create .kernel slot task holding))
    (hbump : ∀ slot, k.freeSlot = some slot → H k.table (.bump slot)) :
    Calms H k.table (k.spawnKernel stack).2.table := by
  rw [spawnKernel]
  split
  · exact .refl
  rename_i slot hslot
  have hfree := table_tasks_eq_none.mpr (freeSlot_cases hslot).1
  have hidle := freeSlot_ne_idle hslot
  split
  · exact .single (.bump hfree hidle (hbump slot hslot))
  rename_i base
  have hnew : Creates k.table .kernel slot _ _ _ := .kernel hidle base
  rw [table_insert]
  exact .single (.create hfree hnew (hH _ _ _ _ hslot hnew rfl))

lemma generationOf_table (parent : Option Nat) :
    (match parent with
      | none => 0
      | some p => if h : p < MAX_PROCESSES then
          match k.procs ⟨p, h⟩ with
          | some q => q.generation
          | none => 0
        else 0) = k.table.generationOf parent := by
  cases parent with
  | none => rfl
  | some p =>
    by_cases hp : p < MAX_PROCESSES
    · simp only [Table.generationOf, Option.bind_some, pidSlot, hp, dif_pos]
      cases hq : k.procs ⟨p, hp⟩ <;> simp [table, hq, task]
    · simp [Table.generationOf, pidSlot, hp]

lemma calms_spawnUserSlot {rip rsp pml4 : Nat} {r : Option Pid}
    (hH : ∀ slot task holding gens, k.freeSlot = some slot →
      Creates k.table .user slot task holding gens → stack = some holding.kernelStackBase →
      holding.pml4Phys = pml4 → task.parentPid = parent →
      H k.table (.create .user slot task holding))
    (hbump : ∀ slot, k.freeSlot = some slot → H k.table (.bump slot))
    (h : k.spawnUserSlot rip rsp pml4 parent stack = (r, k')) :
    Calms H k.table k'.table ∧ k'.initPid = k.initPid ∧
      ∀ slot, r = some slot → ∃ p, k'.procs slot = some p ∧ p.parentPid = parent ∧
        p.generation = k'.generations slot := by
  unfold spawnUserSlot at h
  split at h
  · cases h
    exact ⟨.refl, rfl, fun slot hslot => by cases hslot⟩
  rename_i slot hslot
  have hfree := table_tasks_eq_none.mpr (freeSlot_cases hslot).1
  have hidle := freeSlot_ne_idle hslot
  dsimp only at h
  split at h
  · cases h
    exact ⟨.single (.bump hfree hidle (hbump slot hslot)), rfl, fun slot hslot => by cases hslot⟩
  rename_i base
  cases h
  refine ⟨.single ?_, rfl, ?_⟩
  · have hnew : Creates k.table .user slot _ _ _ := .user hidle parent pml4 base
    have hcr := Calm.create (H := H) hfree hnew (hH _ _ _ _ hslot hnew rfl rfl rfl)
    rw [← generationOf_table] at hcr
    rw [table_insert]
    exact hcr
  · rintro slot' ⟨⟩
    exact ⟨_, setProc_procs_self _, rfl, (update_self slot _ k.generations).symm⟩

lemma calms_spawnUser {elf : List Byte} {r : Option Pid}
    (hH : ∀ slot task holding gens, k.freeSlot = some slot →
      Creates k.table .user slot task holding gens → stack = some holding.kernelStackBase →
      (∃ s, createUserPml4 k.machine k.cr3 = .ok (holding.pml4Phys, s)) →
      task.parentPid = parent → H k.table (.create .user slot task holding))
    (hbump : ∀ slot, k.freeSlot = some slot → H k.table (.bump slot))
    (h : k.spawnUser M elf parent stack = .ok (r, k')) :
    Calms H k.table k'.table ∧ ∀ slot, r = some slot →
      ∃ p, k'.procs slot = some p ∧ p.parentPid = parent ∧ p.generation = k'.generations slot := by
  obtain ⟨pml4, s1, b, s2, prng, hcr, -, -, h⟩ := spawnUser_cases h
  rcases h with ⟨-, rfl, s3, -, rfl⟩ | ⟨-, rip, rsp, hslot⟩
  · exact ⟨.refl, fun slot hslot => by cases hslot⟩
  obtain ⟨hclm, -, hpar⟩ := calms_spawnUserSlot (k := { k with machine := s2, prng := prng })
    (H := H) (fun slot task holding gens hfree hnew hstk hpml4 hpar =>
      hH slot task holding gens hfree hnew hstk ⟨s1, hpml4 ▸ hcr⟩ hpar) hbump hslot
  exact ⟨hclm, hpar⟩

/-! ## System calls -/

variable {k1 : Kernel} {r : SysResult} {p' q : Process} {dev : Devices} {flags : Nat}

/-- The CPU stays where it is, or the running process gives it up and asks for the switch. -/
def Handled (H : Permits) (k k' : Kernel) : Prop :=
  Calms H k.table k'.table ∨ GivesUp H k.table k'.table ∧ k'.forceSwitch = true

lemma handled_same (h : k'.table = k.table) : Handled H k k' := by
  left
  rw [h]

lemma Handled.of_calm (h : Calm H k.table k'.table) : Handled H k k' := .inl (.single h)

lemma Handled.of_ok {x : SysResult × Kernel} (hx : Handled H k x.2)
    (h : (Except.ok x : CallOutcome) = .ok (r, k')) : Handled H k k' := by
  rw [Except.ok.inj h] at hx
  exact hx

lemma handled_block {reason : WakeReason} (hcur : k.current = some (pid, p))
    (huser : p.isUser = true) (hwhy : k.table.BlocksOn pid reason) (hH : H k.table .block) :
    Handled H k (k.block reason) := by
  right
  have htab : (k.block reason).table = k.table.update pid (Task.blockedOn reason) := by
    simp only [block, hcur]
    exact table_update (procs_of_current hcur) rfl rfl
  refine ⟨?_, by simp [block, hcur]⟩
  rw [htab]
  exact .block (table_current hcur) huser hwhy hH

lemma handled_keyboardWake (h : k1.table = { k.table with pipes := k1.table.pipes }) :
    Handled H k k1.keyboardWake :=
  .of_calm (calm_keyboardWake h)

lemma handled_pipes (pipes : PipeSlots) (h : k1.table = k.table) :
    Handled H k ({ k1 with pipes := pipes } : Kernel).keyboardWake := by
  apply handled_keyboardWake
  rw [← h]
  rfl

/-! ### Pipes -/

variable {fd pipeIdx bufPtr count : Nat} {writable : Bool} {buf : List Byte}

lemma view_retainPipe (pipes : PipeSlots) (i j : PipeIdx) :
    (retainPipe pipes i j).map Pipe.view = (pipes j).map Pipe.view := by
  rw [retainPipe]
  cases hp : pipes i with
  | none => rfl
  | some p =>
    change (update pipes i _ j).map Pipe.view = _
    rw [update_apply]
    split
    · rename_i hj
      rw [hj, hp]
      rfl
    · rfl

lemma view_retainAll (pipes : PipeSlots) (fds : Fd → FdType) (j : PipeIdx) :
    (retainAll pipes fds j).map Pipe.view = (pipes j).map Pipe.view := by
  rw [retainAll]
  generalize (List.finRange MAX_FDS).filterMap (fun fd => pipeOp (fds fd)) = ops
  induction ops generalizing pipes with
  | nil => rfl
  | cons op ops ih =>
    rw [List.foldl_cons, ih, view_retainPipe]

lemma readLoop_nil_iff {data : Lib.Store Byte} {nread nwrite fuel : Nat} (hcnt : 0 < count)
    (hfuel : nwrite - nread ≤ fuel) :
    (Pipe.readLoop data count nread nwrite fuel 0).length = 0 ↔ nwrite ≤ nread := by
  cases fuel with
  | zero =>
    simp only [Pipe.readLoop, List.length_nil, true_iff]
    omega
  | succ fuel =>
    simp only [Pipe.readLoop, Nat.add_zero]
    split <;> simp <;> omega

lemma writeLoop_stopped {q q' : Pipe} {start written : Nat}
    (h : q.writeLoop start buf = (q', written, true)) (hnone : written ≤ start) :
    q' = q ∧ q.isFull = true := by
  induction buf generalizing q start with
  | nil => simp [Pipe.writeLoop] at h
  | cons b bs ih =>
    rw [Pipe.writeLoop] at h
    split at h
    · rename_i hfull
      cases h
      exact ⟨rfl, hfull⟩
    -- a byte has been written, and the count does not go down again
    have hgrow : ∀ (bs : List Byte) (q : Pipe) (n : Nat), n ≤ (q.writeLoop n bs).2.1 := by
      intro bs
      induction bs with
      | nil => intro q n; exact le_rfl
      | cons b bs ih =>
        intro q n
        rw [Pipe.writeLoop]
        split
        · exact le_rfl
        · exact (Nat.le_succ n).trans (ih _ _)
    have := hgrow bs (q.push b) (start + 1)
    rw [h] at this
    dsimp only at this
    omega

section

variable (hcur : k.current = some (pid, p)) (huser : p.isUser = true) (hH : H k.table .block)

include hcur huser hH

lemma handled_readPipe (hcnt : 0 < count) :
    Handled H k (k.readPipe pipeIdx writable count).kernel := by
  rw [readPipe]
  split
  · exact handled_same rfl
  split
  · exact handled_same rfl
  rename_i i hi
  split
  · exact handled_keyboardWake rfl
  rename_i q hq
  split
  · exact handled_keyboardWake rfl
  · exact handled_same rfl
  rename_i hblk
  refine handled_block hcur huser ?_ hH
  -- an empty pipe with a writer
  simp only [Pipe.read] at hblk
  split at hblk
  · cases hblk
  rename_i hemp
  split at hblk
  · cases hblk
  rename_i hopen
  have hle : q.nwrite ≤ q.nread :=
    (readLoop_nil_iff hcnt le_rfl).mp (Nat.eq_zero_of_not_pos hemp)
  refine ⟨q.view, ?_, hle, by simpa [Pipe.view] using hopen⟩
  rw [bind_table_pipes, hi, Option.bind_some, hq, Option.map_some]

lemma handled_sysRead : Handled H k (sysRead dev k fd bufPtr count).kernel := by
  simp only [sysRead, hcur]
  split
  swap
  · exact handled_same rfl
  split
  · exact handled_same rfl
  rename_i hcnt
  split
  · exact handled_same rfl
  split
  · exact handled_same rfl
  split
  case h_1 | h_2 =>
    split
    · exact handled_block hcur huser trivial hH
    · exact handled_same rfl
  case h_6 => exact handled_readPipe hcur huser hH (Nat.pos_of_ne_zero hcnt)
  case h_7 =>
    split
    · exact handled_same rfl
    · split <;> exact handled_same rfl
  all_goals exact handled_same rfl

lemma handled_writePipe : Handled H k (k.writePipe pipeIdx writable buf).2 := by
  rw [writePipe]
  split
  · exact handled_same rfl
  split
  · exact handled_same rfl
  rename_i i hi
  split
  · exact handled_same rfl
  rename_i q hq
  -- without a byte written the pipe is as it was
  have hsame : ∀ q', q' = q → (k.setPipe i (some q')) = k := by
    intro q' heq
    rw [heq, setPipe, ← hq, update_eq_self]
  split
  · exact handled_keyboardWake rfl
  rename_i q' written hloop
  split
  · split
    · exact handled_keyboardWake rfl
    rw [hsame q' (writeLoop_stopped hloop (by omega)).1]
    exact handled_same rfl
  split
  · exact handled_keyboardWake rfl
  rename_i hopen hzero
  obtain ⟨rfl, hfull⟩ := writeLoop_stopped hloop (by omega)
  rw [hsame q' rfl]
  refine handled_block hcur huser ⟨q'.view, ?_, ?_, by simpa [Pipe.view] using hopen⟩ hH
  · rw [bind_table_pipes, hi, Option.bind_some, hq, Option.map_some]
  · simpa [Pipe.isFull, Pipe.view] using hfull

lemma handled_sysWrite : Handled H k (sysWrite dev k fd bufPtr count).2 := by
  simp only [sysWrite, hcur]
  split
  swap
  · exact handled_same rfl
  split
  · exact handled_same rfl
  split
  · exact handled_same rfl
  split
  · exact handled_same rfl
  split
  case h_6 => exact handled_writePipe hcur huser hH
  case h_7 => split <;> exact handled_same rfl
  all_goals exact handled_same rfl

end

/-! ### Descriptors -/

lemma fdFlags_eq_zero (htidy : k.table.Tidy) (hp : k.procs pid = some p) (fd : Fd) :
    p.fdFlags fd = 0 :=
  htidy.flags pid p.task fd (table_tasks hp)

lemma task_clearFlag (fd : Fd) (hfl : ∀ fd, p.fdFlags fd = 0)
    (h : p'.task = { p.task with fdFlags := update p.fdFlags fd 0 }) : p'.task = p.task := by
  have hsame : update p.fdFlags fd 0 = p.fdFlags := by
    rw [← hfl fd, update_eq_self]
  rw [h, hsame]
  rfl

lemma handled_sysOpen {file : Except Errno Nat} (hcur : k.current = some (pid, p)) :
    Handled H k (k.sysOpen file flags).2 := by
  simp only [sysOpen, hcur]
  split
  · exact handled_same rfl
  split
  · exact handled_same rfl
  rename_i hval
  -- the flag for close-on-exec is not a valid one
  have hflag : flags &&& O_CLOEXEC = 0 := by
    have hlt : flags < 2 ^ 8 := by
      simp only [VALID_FLAGS] at hval
      omega
    apply Nat.eq_of_testBit_eq
    intro i
    rw [Nat.testBit_and, Nat.zero_testBit, Bool.and_eq_false_iff]
    by_cases hi : i < 8
    · have hbits : ∀ i < 8, O_CLOEXEC.testBit i = false := by decide
      exact .inr (hbits i hi)
    · left
      exact Nat.testBit_lt_two_pow (hlt.trans_le (Nat.pow_le_pow_right (by decide) (by omega)))
  split
  · exact handled_same rfl
  split
  · apply handled_same
    refine table_setProc (procs_of_current hcur) ?_ rfl
    simp [task, hflag]
  · exact handled_same rfl

lemma handled_retained {pipes : PipeSlots}
    (hview : ∀ j, (pipes j).map Pipe.view = (k1.pipes j).map Pipe.view) (h : k1.table = k.table) :
    Handled H k ({ k1 with pipes := pipes } : Kernel) := by
  apply handled_same
  rw [← h]
  exact table_congr rfl rfl rfl rfl (funext hview) rfl rfl rfl

section

variable (htidy : k.table.Tidy) (hcur : k.current = some (pid, p))

include htidy hcur

lemma handled_sysClose : Handled H k (k.sysClose fd).2 := by
  have hp := procs_of_current hcur
  have hfl := fdFlags_eq_zero htidy hp
  simp only [sysClose, hcur]
  split
  swap
  · exact handled_same rfl
  rename_i hfd
  split
  · exact handled_same rfl
  -- clearing the flags of the descriptor changes nothing
  have hsame : ∀ fds count, (k.setProc pid (some { p with
      fdTypes := fds
      fdFlags := update p.fdFlags ⟨fd, hfd⟩ 0
      pipeCount := count })).table = k.table :=
    fun fds count => table_setProc hp (task_clearFlag ⟨fd, hfd⟩ hfl rfl) rfl
  split
  · exact handled_same (hsame _ _)
  · exact handled_pipes _ (hsame _ _)

lemma handled_dupInto {fdType : FdType} (hprs : k1.procs pid = some p) (h : k1.table = k.table) :
    Handled H k (k1.dupInto pid p fdType).2 := by
  have hfl := fdFlags_eq_zero htidy (procs_of_current hcur)
  rw [dupInto]
  split
  · exact handled_same h
  rename_i fd _
  apply handled_same
  rw [← h]
  exact table_setProc hprs (task_clearFlag fd hfl rfl) rfl

lemma handled_sysDup : Handled H k (k.sysDup fd).2 := by
  have hp := procs_of_current hcur
  simp only [sysDup, hcur]
  split
  swap
  · exact handled_same rfl
  split
  · exact handled_same rfl
  · split
    · exact handled_same rfl
    split
    · exact handled_same rfl
    · exact handled_dupInto htidy hcur hp rfl
  · split
    · exact handled_dupInto htidy hcur hp rfl
    rename_i i _
    refine handled_dupInto htidy hcur hp ?_
    exact table_congr rfl rfl rfl rfl (funext fun j => view_retainPipe k.pipes i j) rfl rfl rfl
  · exact handled_dupInto htidy hcur hp rfl

lemma handled_sysDup2 {oldfd newfd : Nat} : Handled H k (k.sysDup2 oldfd newfd).2 := by
  have hp := procs_of_current hcur
  have hfl := fdFlags_eq_zero htidy hp
  unfold sysDup2
  split
  swap
  · exact handled_same rfl
  split
  swap
  · exact handled_same rfl
  rename_i hnew
  rw [hcur]
  dsimp only
  split
  · exact handled_same rfl
  split
  · exact handled_same rfl
  -- the process is the same up to its descriptors
  have hsame : ∀ fds handles, (k.setProc pid (some { p with
      fdTypes := fds
      fdFlags := update p.fdFlags ⟨newfd, hnew⟩ 0
      fileHandles := handles })).table = k.table :=
    fun fds handles => table_setProc hp (task_clearFlag ⟨newfd, hnew⟩ hfl rfl) rfl
  split
  · rename_i hsome
    exact handled_pipes _ (hsame _ _)
  rename_i hnone
  have hop : pipeOp (p.fdTypes ⟨newfd, hnew⟩) = none := by simpa using hnone
  refine handled_retained ?_ (hsame _ _)
  intro j
  rw [hop]
  cases pipeOp (p.fdTypes ⟨oldfd, _⟩) with
  | none => rfl
  | some op => exact view_retainPipe k.pipes op.1 j

end

lemma handled_sysPipe (hcur : k.current = some (pid, p))
    (hH : ∀ i, (List.finRange MAX_PIPES).find? (fun i => (k.pipes i).isNone) = some i →
      H k.table (.openPipe i)) : Handled H k k.sysPipe.2 := by
  have hp := procs_of_current hcur
  simp only [sysPipe, hcur, allocPipe]
  split
  · exact handled_same rfl
  split
  · exact handled_same rfl
  rename_i i k1 hall
  split at hall
  · cases hall
  rename_i j hj
  obtain ⟨rfl, rfl⟩ := Prod.mk.inj (Option.some.inj hall)
  have hfree : k.pipes j = none := by simpa using List.find?_some hj
  have hcur1 : (k.setPipe j (some Pipe.new)).current = some (pid, p) := hcur
  rw [hcur1]
  dsimp only
  split
  · -- the slot is given back
    apply handled_same
    refine table_congr rfl rfl rfl rfl ?_ rfl rfl rfl
    simp [freePipe, setPipe, table, ← hfree]
  rename_i r w _
  have htab : ((k.setPipe j (some Pipe.new)).setProc pid (some { p with
      fdTypes := update (update p.fdTypes r (.pipe j.val false)) w
        (.pipe j.val true)
      pipeCount := (p.pipeCount + 2) % 256 })).table =
      { k.table with pipes := update k.table.pipes j (some Pipe.new.view) } := by
    refine Eq.trans (table_setProc (k := k.setPipe j (some Pipe.new)) hp rfl rfl) ?_
    apply Table.ext
    case pipes =>
      funext i
      simp only [table, setPipe, update_apply]
      split <;> rfl
    all_goals rfl
  refine .of_calm ?_
  rw [htab]
  exact .openPipe j (by simp [table, hfree]) (hH j hj)

/-! ### Processes -/

variable {file : BytesResult}

lemma handled_sysFork {extraStack : Option Nat} (hcur : k.current = some (pid, p))
    (hH : ∀ slot task holding gens, k.freeSlot = some slot →
      Creates k.table .fork slot task holding gens → stack = some holding.kernelStackBase →
      (∃ s, createUserPml4 k.machine k.kernelPml4 = .ok (holding.pml4Phys, s)) →
      H k.table (.create .fork slot task holding)) (h : k.sysFork stack extraStack = .ok (r, k')) :
    Handled H k k' := by
  obtain ⟨child, s1, b, s2, hcr, -, rfl | ⟨-, slot, base, hslot, hstk, rfl⟩⟩ :=
    sysFork_cases hcur h
  · exact handled_same rfl
  have hnew : Creates k.table .fork slot _ _ _ :=
    .fork (freeSlot_ne_idle hslot) (table_current hcur) child base
  refine .of_calm ?_
  have htab : ({ k with machine := s2, pipes := retainAll k.pipes p.fdTypes } : Kernel).table =
      k.table :=
        table_congr rfl rfl rfl rfl (funext fun j => view_retainAll k.pipes _ j) rfl rfl rfl
  rw [table_insert, htab]
  exact .create (table_tasks_eq_none.mpr (freeSlot_cases hslot).1) hnew
    (hH _ _ _ _ hslot hnew hstk ⟨s1, hcr⟩)

lemma closeOnExec_of_tidy (htidy : k.table.Tidy) (hcur : k.current = some (pid, p)) :
    k.closeOnExec = k ∧ afterCloexec p = p := by
  have hp := procs_of_current hcur
  have hfl := fdFlags_eq_zero htidy hp
  refine closeOnExec_of_none hcur fun fd => ?_
  simp [closesOnExec, hfl fd]

lemma table_exec {cr3 : Nat} (hp : k.procs pid = some p) (htask : p'.task = p.task)
    (hstk : p'.kernelStackBase = p.kernelStackBase) :
    ({ k.setProc pid (some p') with cr3 := cr3 } : Kernel).table = { k.table with
      holdings := fun i => (k.table.holdings i).map fun q =>
        if i = pid then { q with pml4Phys := p'.pml4Phys, savedCr3 := p'.savedCr3 } else q
      cr3 := cr3 } := by
  apply Table.ext
  case tasks =>
    funext i
    change ((k.setProc pid (some p')).procs i).map task = (k.procs i).map task
    rw [setProc_procs]
    split
    · rename_i hi
      simp [hi, hp, htask]
    · rfl
  case holdings =>
    funext i
    change ((k.setProc pid (some p')).procs i).map holding =
      ((k.procs i).map holding).map _
    rw [setProc_procs]
    by_cases hi : i = pid
    · simp [hi, hp, holding, hstk]
    · cases k.procs i <;> simp [hi]
  all_goals rfl

lemma handled_exec (k1 : Kernel) (cr3 : Nat) (hcur : k.current = some (pid, p))
    (hH : H k.table .exec) (hprs : k1.procs = k.procs) (htab : k1.table = k.table)
    (htask : p'.task = p.task) (hstk : p'.kernelStackBase = p.kernelStackBase) :
    Handled H k ({ k1.setProc pid (some p') with cr3 := cr3 } : Kernel) := by
  have hp : k1.procs pid = some p := by rw [hprs, procs_of_current hcur]
  refine .of_calm ?_
  rw [table_exec hp htask hstk, htab]
  exact .exec _ _ _ (table_current hcur) hH

section

variable (htidy : k.table.Tidy) (hcur : k.current = some (pid, p)) (huser : p.isUser = true)
  (hH : H k.table .exec)

include htidy hcur huser hH

lemma handled_sysExec (h : k.sysExec M file = .ok (r, k')) : Handled H k k' := by
  have hp := procs_of_current hcur
  obtain ⟨hcl, haft⟩ := closeOnExec_of_tidy htidy hcur
  obtain ⟨k0, p0, s, prng, hk0, hp0, -, hcas⟩ := sysExec_result hcur h
  obtain rfl : k = k0 := (hk0.trans hcl).symm
  obtain rfl : p = p0 := (hp0.trans haft).symm
  rcases hcas with ⟨-, -, rfl⟩ | ⟨elf, pml4, entry, top, -, -, -, rfl⟩
  · have hself : ({ k with machine := s, prng := prng, cr3 := p.pml4Phys } : Kernel) =
        { ({ k with machine := s, prng := prng } : Kernel).setProc pid (some p) with
          cr3 := p.pml4Phys } := by
      rw [setProc_self (k := { k with machine := s, prng := prng }) hp]
    rw [hself]
    exact handled_exec _ _ hcur hH rfl rfl rfl rfl
  refine handled_exec { k with machine := s, prng := prng } _ hcur hH rfl rfl ?_ rfl
  simp [task, huser]

lemma handled_sysExecve {argv : List (List Byte)} (h : k.sysExecve M file argv = .ok (r, k')) :
    Handled H k k' := by
  obtain ⟨hcl, haft⟩ := closeOnExec_of_tidy htidy hcur
  obtain ⟨k0, p0, s, prng, hk0, hp0, -, hcas⟩ := sysExecve_result hcur h
  obtain rfl : k = k0 := (hk0.trans hcl).symm
  obtain rfl : p = p0 := (hp0.trans haft).symm
  rcases hcas with
    ⟨-, -, rfl⟩ | ⟨elf, pml4, entry, top, -, -, ⟨-, -, rfl⟩ | ⟨-, -, rfl⟩⟩
  · exact handled_same rfl
  · exact handled_same rfl
  refine handled_exec { k with machine := _, prng := prng } k.cr3 hcur hH rfl rfl ?_ rfl
  simp [task, huser]

end

/-! ### Waiting -/

variable {test : Process → Bool}

lemma firstProcess_eq_some (h : k.firstProcess test = some p) :
    ∃ i, k.procs i = some p ∧ test p = true := by
  obtain ⟨l, i, l', -, hi, -⟩ := List.findSome?_eq_some_iff.mp h
  refine ⟨i, ?_⟩
  cases hp : k.procs i with
  | none => simp [hp] at hi
  | some q =>
    simp only [hp] at hi
    split at hi
    · rename_i htest
      cases hi
      exact ⟨rfl, htest⟩
    · cases hi

lemma firstProcess_eq_none (h : k.firstProcess test = none) {i : Pid} (hp : k.procs i = some p) :
    test p = false := by
  have hi := List.findSome?_eq_none_iff.mp h i (List.mem_finRange i)
  simp only [hp] at hi
  split at hi
  · cases hi
  · rename_i htest
    simpa using htest

lemma hasParent_iff {parent : Pid} {gen : Nat} :
    hasParent p parent gen = true ↔ p.task.IsChild parent gen := by
  rw [hasParent, Bool.and_eq_true, beq_iff_eq, beq_iff_eq]
  rfl

lemma handled_reap (hpid : k.currentPid = some cur) (hq : k.procs slot = some q)
    (hzom : q.state = .zombie) (hch : hasParent q cur (k.getGeneration cur) = true)
    (hH : H k.table (.reap slot (k.pipesWithout q))) (h : k.reapZombie slot = .ok k') :
    Handled H k k' := by
  refine .of_calm ?_
  rw [table_reapZombie hq h]
  exact .reap _ (table_tasks hq) hzom hpid (hasParent_iff.mp hch).1 hH

lemma handled_waitFor (hcur : k.current = some (cur, p)) (huser : p.isUser = true)
    (hq : k.procs slot = some q) (hch : hasParent q cur (k.getGeneration cur) = true)
    (hwait : q.state ≠ .zombie → slot ≠ IDLE_PID) (hblk : H k.table .block)
    (hH : q.state = .zombie → H k.table (.reap slot (k.pipesWithout q)))
    (h : k.waitFor slot.val flags = .ok (r, k')) : Handled H k k' := by
  have hpid := (current_eq_some.mp hcur).1
  simp only [waitFor, pidSlot_val, hq] at h
  split at h
  · rename_i hzom
    rw [beq_iff_eq] at hzom
    split at h
    · cases h
    rename_i k1 hreap
    cases h
    exact handled_reap hpid hq hzom hch (hH hzom) hreap
  rename_i hali
  rw [beq_iff_eq] at hali
  split at h
  · cases h
    exact handled_same rfl
  cases h
  refine handled_block hcur huser ?_ hblk
  have hne : slot.val ≠ 0 := fun heq => hwait hali (Fin.ext heq)
  obtain ⟨n, hn⟩ := Nat.exists_eq_succ_of_ne_zero hne
  rw [hn]
  exact ⟨slot, q.task, hn, table_tasks hq, hasParent_iff.mp hch, hali⟩

lemma handled_waitAny (hcur : k.current = some (cur, p)) (huser : p.isUser = true)
    (hnone : k.findAnyZombieChild cur = none) (hblk : H k.table .block) :
    Handled H k (k.waitAny cur flags).2 := by
  rw [waitAny]
  split
  · exact handled_same rfl
  split
  · exact handled_same rfl
  split
  · exact handled_same rfl
  refine handled_block hcur huser ?_ hblk
  intro i q hq hch hzom
  obtain ⟨q, hq', rfl⟩ := exists_of_table_tasks hq
  have htest := firstProcess_eq_none hnone hq'
  rw [Bool.and_eq_false_iff] at htest
  rcases htest with hne | hne
  · have hch' : hasParent q cur (k.getGeneration cur) = true := hasParent_iff.mpr hch
    rw [hch'] at hne
    cases hne
  · have hzom' : q.state = .zombie := hzom
    simp [hzom'] at hne

lemma handled_sysWaitpid {childPid : Nat} (htidy : k.table.Tidy) (hcur : k.current = some (pid, p))
    (huser : p.isUser = true) (hblk : H k.table .block)
    (hH : ∀ slot q, k.WouldReap childPid slot → k.procs slot = some q →
      H k.table (.reap slot (k.pipesWithout q))) (h : k.sysWaitpid childPid flags = .ok (r, k')) :
    Handled H k k' := by
  have hpid := (current_eq_some.mp hcur).1
  simp only [sysWaitpid, hpid] at h
  split at h
  · rename_i hany
    split at h
    · rename_i c hc
      -- any zombie child
      obtain ⟨slot, hslot, htest⟩ := firstProcess_eq_some hc
      rw [Bool.and_eq_true, beq_iff_eq] at htest
      have hval : c.pid = slot.val := htidy.pid slot c.task (table_tasks hslot)
      rw [hval] at h
      refine handled_waitFor hcur huser hslot htest.1 (fun hali => absurd htest.2 hali) hblk ?_ h
      intro _
      exact hH slot c ⟨pid, c, hpid, hslot, htest.2, htest.1, .inr ⟨hany, hc⟩⟩ hslot
    rename_i hnone
    obtain ⟨-, hk⟩ := Prod.mk.inj (Except.ok.inj h)
    rw [← hk]
    exact handled_waitAny hcur huser hnone hblk
  rename_i hsome
  split at h
  · cases h
    exact handled_same rfl
  rename_i hch
  simp only [isChildOf, Bool.not_eq_true, Bool.not_eq_false] at hch
  split at hch
  · rename_i q hbind
    obtain ⟨slot, hslot, hq⟩ := Option.bind_eq_some_iff.mp hbind
    have hval : childPid = slot.val := by
      rw [pidSlot] at hslot
      split at hslot
      · rw [← Option.some.inj hslot]
      · cases hslot
    subst hval
    refine handled_waitFor hcur huser hq hch ?_ hblk ?_ h
    · intro _ hidle
      exact hsome (congrArg Fin.val hidle)
    · intro hzom
      exact hH slot q ⟨pid, q, hpid, hq, hzom, hch, .inl rfl⟩ hq
  · cases hch

/-! ### Signals and memory -/

lemma handled_sysKill {target signum : Nat} : Handled H k (k.sysKill target signum).2 := by
  rw [sysKill]
  split
  · exact handled_same rfl
  split
  · exact handled_same rfl
  split
  · exact handled_same rfl
  rename_i q hq
  split
  · exact handled_same rfl
  apply handled_same
  refine table_setProc hq ?_ ?_ <;>
  · rw [sendSignal]
    split <;> rfl

lemma handled_sysSigaction {handler oldHandlerPtr : Nat}
    (h : k.sysSigaction signum handler oldHandlerPtr = .ok (r, k')) : Handled H k k' := by
  rw [sysSigaction] at h
  have hkeep : ∀ r', (Except.ok (r', k) : CallOutcome) = .ok (r, k') →
      Handled H k k' := fun r' hr => handled_same (by rw [ok_snd_inj hr])
  split at h
  · exact hkeep _ h
  split at h
  · exact hkeep _ h
  dsimp only at h
  split at h
  · exact hkeep _ h
  rename_i q hq
  split at h
  · cases h
    exact handled_same (table_setProc hq rfl rfl)
  split at h
  · exact hkeep _ h
  split at h
  · exact hkeep _ h
  split at h
  · cases h
  rename_i s _
  cases h
  exact handled_same (table_setProc (k := { k with machine := s }) hq rfl rfl)

lemma handled_sysSetpgid {pgid : Nat} : Handled H k (k.sysSetpgid target pgid).2 := by
  simp only [sysSetpgid]
  split
  · exact handled_same rfl
  split
  · exact handled_same rfl
  · rename_i q hq
    exact handled_same (table_setProc hq rfl rfl)

lemma handled_remapped {R : Machine → Nat → List (Nat × Nat) → Prop}
    (hcur : k.current = some (pid, p)) (h : Remapped k pid p R k') : Handled H k k' := by
  obtain ⟨s, prng, a, b, regions, -, rfl⟩ := h
  exact handled_same (table_setProc (k := { k with machine := s, prng := prng })
    (procs_of_current hcur) rfl rfl)

/-- Every system call, with the hazards it needs to be permitted. -/
lemma handled_handle {call : Syscall} (htidy : k.table.Tidy) (hcur : k.current = some (pid, p))
    (huser : p.isUser = true) (hblk : H k.table .block)
    (hexit : (∃ code, call = .exit code) → H k.table .exit)
    (hexec : (∃ file, call = .exec file) ∨ (∃ file argv, call = .execve file argv) →
      H k.table .exec)
    (hpipe : call = .pipe →
      ∀ i, (List.finRange MAX_PIPES).find? (fun i => (k.pipes i).isNone) = some i →
      H k.table (.openPipe i))
    (hfork : ∀ stack extraStack slot task holding gens, call = .fork stack extraStack →
      k.freeSlot = some slot → Creates k.table .fork slot task holding gens →
      stack = some holding.kernelStackBase →
      (∃ s, createUserPml4 k.machine k.kernelPml4 = .ok (holding.pml4Phys, s)) →
      H k.table (.create .fork slot task holding))
    (hreap : ∀ childPid flags slot q, call = .waitpid childPid flags → k.WouldReap childPid slot →
      k.procs slot = some q → H k.table (.reap slot (k.pipesWithout q)))
    (h : k.handle M call = .ok (r, k')) : Handled H k k' := by
  cases call with
  | read dev fd bufPtr count => exact .of_ok (handled_sysRead hcur huser hblk) h
  | write dev fd bufPtr count =>
    exact .of_ok (handled_sysWrite hcur huser hblk) h
  | openFile file flags => exact .of_ok (handled_sysOpen hcur) h
  | close fd => exact .of_ok (handled_sysClose htidy hcur) h
  | pipe => exact .of_ok (handled_sysPipe hcur (hpipe rfl)) h
  | dup fd => exact .of_ok (handled_sysDup htidy hcur) h
  | dup2 oldfd newfd => exact .of_ok (handled_sysDup2 htidy hcur) h
  | fork stack extraStack =>
    exact handled_sysFork hcur (fun slot task holding gens hslot hnew hstk hpml4 =>
      hfork _ _ slot task holding gens rfl hslot hnew hstk hpml4) h
  | exec file => exact handled_sysExec htidy hcur huser (hexec (.inl ⟨_, rfl⟩)) h
  | execve file argv => exact handled_sysExecve htidy hcur huser (hexec (.inr ⟨_, _, rfl⟩)) h
  | exit code =>
    cases h
    right
    rw [table_sysExitCall hcur]
    exact ⟨.exit (table_current hcur) huser (hexit ⟨_, rfl⟩), rfl⟩
  | waitpid childPid flags =>
    exact handled_sysWaitpid htidy hcur huser hblk
      (fun slot q hslot hq => hreap _ _ slot q rfl hslot hq) h
  | sleep ticks =>
    rw [← ok_snd_inj h]
    exact handled_block hcur huser trivial hblk
  | yield => exact .of_ok (handled_same rfl) h
  | kill target signum => exact .of_ok handled_sysKill h
  | sigaction signum handler oldHandlerPtr => exact handled_sysSigaction h
  | setpgid target pgid => exact .of_ok handled_sysSetpgid h
  | getpgid target => exact .of_ok (handled_same rfl) h
  | brk newBrk => exact handled_remapped hcur (sysBrk_cases hcur h)
  | mmap length => exact handled_remapped hcur (sysMmap_cases hcur h)
  | munmap addr length => exact handled_remapped hcur (sysMunmap_cases hcur h)

end Kernel

end Indominus.Sys
