import Indominus.Sched.Lasting
import Indominus.Sys.PipeTable

/-! # Reference counts and open ends of pipes -/

namespace Indominus.Sys.Kernel

open Lib Memory List Function

/-! ## The view of the kernel -/

/-- The ends that the descriptors of a process slot refer to. -/
def pipeRow (o : Option Process) : Fd → Option End :=
  fun fd => o.bind fun p => pipeOp (p.fdTypes fd)

def pipeWorld (k : Kernel) : PipeWorld := ⟨fun pid => pipeRow (k.procs pid), k.pipes⟩

variable {M : Mapper} {k k' : Kernel} {pid next : Pid} {p : Process} {stack : Option Nat}

variable {i : PipeIdx} {fds : Fd → FdType} {l : List Fd} {fd : Fd}

lemma pipeOp_eq_some {t : FdType} {w : Bool} : pipeOp t = some (i, w) ↔ t = .pipe i.val w := by
  cases t with
  | pipe idx b =>
    simp only [pipeOp, pipeSlot, FdType.pipe.injEq]
    split
    · simp [Fin.ext_iff]
    rename_i h
    simp only [Option.map_none, reduceCtorEq, false_iff, not_and]
    rintro rfl
    exact absurd i.isLt h
  | _ => simp [pipeOp]

@[simp] lemma pipeRow_none : pipeRow none = fun _ => none := rfl

lemma pipeRow_some (p : Process) : pipeRow (some p) = fun fd => pipeOp (p.fdTypes fd) := rfl

lemma pipeOp_update (fds : Fd → FdType) (fd : Fd) (t : FdType) :
    (fun fd' => pipeOp (update fds fd t fd')) =
      update (fun fd' => pipeOp (fds fd')) fd (pipeOp t) :=
  comp_update pipeOp fds fd t

lemma pipeWorld_setProc (k : Kernel) (pid : Pid) (o : Option Process) :
    (k.setProc pid o).pipeWorld = ⟨update k.pipeWorld.fds pid (pipeRow o), k.pipes⟩ := by
  simp only [pipeWorld, setProc, PipeWorld.mk.injEq, and_true]
  exact comp_update pipeRow k.procs pid o

lemma pipeWorld_setProc_pipes (k : Kernel) (pid : Pid) (o : Option Process)
    (pipes : PipeSlots) :
    pipeWorld { k.setProc pid o with pipes := pipes } =
      ⟨update k.pipeWorld.fds pid (pipeRow o), pipes⟩ := by
  have h : (k.setProc pid o).pipeWorld.fds = update k.pipeWorld.fds pid (pipeRow o) := by
    rw [pipeWorld_setProc]
  exact PipeWorld.ext h rfl

lemma pipeWorld_row (h : k.procs pid = some p) :
    k.pipeWorld.fds pid = fun fd => pipeOp (p.fdTypes fd) := by
  simp only [pipeWorld, h, pipeRow_some]

lemma pipeWorld_setProc_same {o : Option Process} (h : pipeRow o = pipeRow (k.procs pid)) :
    (k.setProc pid o).pipeWorld = k.pipeWorld := by
  rw [pipeWorld_setProc, h]
  exact PipeWorld.ext (update_eq_self _ _) rfl

/-! ## Operations that leave descriptors and pipes alone -/

lemma Undisturbed.pipeWorld (h : Undisturbed k k') : k'.pipeWorld = k.pipeWorld := by
  have hrow : ∀ (k : Kernel) pid, pipeRow (k.procs pid) =
      fun fd => (k.lasting pid).bind fun l => pipeOp (l.fdTypes fd) := by
    intro k pid
    unfold Kernel.lasting
    cases k.procs pid <;> rfl
  refine PipeWorld.ext (funext fun pid => ?_) h.pipes
  exact (hrow k' pid).trans (h.lasting ▸ (hrow k pid).symm)

@[simp] lemma pipeWorld_keyboardWake (k : Kernel) : k.keyboardWake.pipeWorld = k.pipeWorld :=
  ((Undisturbed.refl k).wakeWhere _).pipeWorld

lemma undisturbed_saveCurrent (k : Kernel) : Undisturbed k k.saveCurrent := by
  unfold saveCurrent
  split
  · exact .refl k
  · rename_i pid p hcur
    exact (Undisturbed.refl k).setProc (procs_of_current hcur) rfl

lemma undisturbed_switchTo (k : Kernel) (next : Pid) : Undisturbed k (k.switchTo next) := by
  refine (undisturbed_suspendCurrent k).trans ?_
  unfold switchTo resume
  split
  · exact .of_tables rfl rfl
  rename_i p hp
  have hrun := (Undisturbed.refl _).setProc (q := { p with state := .running }) hp rfl
  exact hrun.trans (.of_tables rfl rfl)

lemma undisturbed_schedule (h : k.schedule next = .ok k') : Undisturbed k k' := by
  unfold schedule at h
  split at h
  · cases h
  rename_i hdrain
  cases h
  exact ((undisturbed_drainDeferredFree hdrain).trans (undisturbed_saveCurrent _)).trans
    (undisturbed_switchTo _ next)

lemma undisturbed_scheduleForce (h : k.scheduleForce next = .ok k') : Undisturbed k k' := by
  have hswitch := (undisturbed_saveCurrent k).trans (undisturbed_switchTo _ next)
  simp only [scheduleForce] at h
  split at h
  · rwa [Except.ok.inj h] at hswitch
  split at h
  · exact hswitch.trans (undisturbed_takeDead h)
  · rwa [Except.ok.inj h] at hswitch

lemma undisturbed_killProcess (h : k.killProcess next = .ok k') : Undisturbed k k' := by
  simp only [killProcess] at h
  split at h
  · rw [← Except.ok.inj h]
    exact undisturbed_switchTo k next
  rename_i pid p hcur
  have horp := (Undisturbed.refl k).reparentOrphansToInit pid
  refine Undisturbed.trans ?_ ((undisturbed_switchTo _ next).trans (undisturbed_takeDead h))
  split
  · exact horp
  · rename_i q hq
    exact horp.setProc hq rfl

lemma undisturbed_sysExit {code : Nat} (h : k.sysExit code next = .ok k') : Undisturbed k k' :=
  ((undisturbed_exitCurrent k code).wakeWhere _).trans (undisturbed_scheduleForce h)

lemma undisturbed_userStore {va : Nat} {b : Byte} (h : k.userStore va b next = .ok k') :
    Undisturbed k k' := by
  have hmac : ∀ s, Undisturbed k { k with machine := s } := fun s => .of_tables rfl rfl
  unfold userStore at h
  split at h
  · cases h
    exact hmac _
  unfold writeFault at h
  split at h
  · split at h
    · cases h
    · cases h
      exact hmac _
    · exact (hmac _).trans (undisturbed_killProcess h)
  · exact undisturbed_killProcess h

lemma pipeWorld_remapped {R : Machine → Nat → List (Nat × Nat) → Prop}
    (hcur : k.current = some (pid, p)) (h : Remapped k pid p R k') :
    k'.pipeWorld = k.pipeWorld := by
  obtain ⟨s, prng, a, b, regions, -, rfl⟩ := h
  exact pipeWorld_setProc_same (k := { k with machine := s, prng := prng })
    (by rw [procs_of_current hcur]; rfl)

lemma pipeWorld_spawnUser {elf : List Byte} {parent : Option Nat} {r : Option Pid}
    (h : k.spawnUser M elf parent stack = .ok (r, k')) : k'.pipeWorld = k.pipeWorld := by
  obtain ⟨pml4, s1, b, s2, prng, -, -, -, h⟩ := spawnUser_cases h
  rcases h with ⟨-, -, s3, -, rfl⟩ | ⟨-, rip, rsp, hslot⟩
  · rfl
  obtain ⟨gens, hcas⟩ := spawnUserSlot_cases { k with machine := s2, prng := prng } rip rsp pml4
    parent stack
  rw [hslot] at hcas
  rcases hcas with rfl | ⟨slot, q, hnone, -, hq, rfl⟩
  · rfl
  refine pipeWorld_setProc_same
    (k := { k with machine := s2, prng := prng, generations := gens }) ?_
  rw [hnone]
  exact funext hq.noPipes

/-! ## Operations on descriptors -/

def closes (k : Kernel) (op : Op) (pid : Pid) (fd : Fd) : Bool :=
  match op with
  | .close n => k.currentPid == some pid && fd.val == n
  | .dup2 oldfd newfd =>
    k.currentPid == some pid && fd.val == newfd && oldfd != newfd &&
      (k.procs pid).any fun p => (List.finRange MAX_FDS).any fun fd' =>
        fd'.val == oldfd && p.fdTypes fd' != .none
  | .exec _ | .execve _ _ =>
    k.currentPid == some pid && (k.procs pid).any fun p => closesOnExec p fd
  | .reap q => pid == q
  | _ => false

/-- The operation is a `sys_dup` of a pipe descriptor by a process that has no free descriptor. -/
def losesRef (k : Kernel) (op : Op) : Prop :=
  match op with
  | .dup n => ∃ pid p fd i w, k.current = some (pid, p) ∧ fd.val = n ∧
      p.fdTypes fd = .pipe i w ∧ ∀ fd', p.fdTypes fd' ≠ .none
  | _ => False

lemma firstFree_cases (h : firstFree fds l = some fd) : fd ∈ l ∧ fds fd = .none := by
  refine ⟨mem_of_find?_eq_some h, ?_⟩
  simpa using find?_some h

lemma twoFree_cases {r w : Fd} (h : twoFree fds = some (r, w)) :
    r ≠ w ∧ fds r = .none ∧ fds w = .none := by
  rw [twoFree] at h
  split at h
  · simp at h
  rename_i r' hr
  split at h
  · simp at h
  rename_i w' hw
  obtain ⟨rfl, rfl⟩ : r' = r ∧ w' = w := by simpa using h
  obtain ⟨hmem, hwnone⟩ := firstFree_cases hw
  have hlt : r' < w' := by simpa using (mem_filter.mp hmem).2
  exact ⟨hlt.ne, (firstFree_cases hr).2, hwnone⟩

lemma allocPipe_cases (h : k.allocPipe = some (i, k')) :
    k.pipes i = none ∧ k' = k.setPipe i (some Pipe.new) := by
  rw [allocPipe] at h
  split at h
  · simp at h
  rename_i j hj
  obtain ⟨rfl, rfl⟩ : j = i ∧ k.setPipe j (some Pipe.new) = k' := by simpa using h
  exact ⟨by simpa using find?_some hj, rfl⟩

section Steps

variable {closed : Pid → Fd → Bool} {lost : Prop}

lemma sysPipe_pipeStep (hcur : k.current = some (pid, p)) :
    PipeWorld.Step closed lost k.pipeWorld k.sysPipe.2.pipeWorld := by
  have hprs := procs_of_current hcur
  simp only [sysPipe, hcur]
  split
  · exact .same _
  split
  · exact .same _
  rename_i i k1 hall
  obtain ⟨hnone, rfl⟩ := allocPipe_cases hall
  have hcur' : (k.setPipe i (some Pipe.new)).current = some (pid, p) := hcur
  simp only [hcur']
  split
  · -- without two free descriptors the new pipe is freed again
    have hback : ((k.setPipe i (some Pipe.new)).freePipe i).pipeWorld = k.pipeWorld :=
      PipeWorld.ext rfl (by simp [pipeWorld, freePipe, setPipe, ← hnone])
    rw [hback]
    exact .same _
  rename_i r w htwo
  obtain ⟨hne, hr, hw⟩ := twoFree_cases htwo
  have hstep : PipeWorld.Step closed lost k.pipeWorld _ := .create k.pipeWorld i pid r w
    hnone hne (by simp [pipeWorld, pipeRow, hprs, hr, pipeOp])
    (by simp [pipeWorld, pipeRow, hprs, hw, pipeOp])
  convert hstep using 1
  rw [pipeWorld_setProc, pipeRow_some, pipeOp_update, pipeOp_update]
  simp [pipeWorld, pipeRow_some, hprs, pipeOp, setPipe]

lemma ends_single (row : Fd → Option End) (fd : Fd) :
    PipeWorld.ends (fun fd' => if fd' = fd then row fd' else none) = (row fd).toList := by
  rw [← filterMap_single (nodup_finRange MAX_FDS) (mem_finRange fd)]
  congr 1
  funext fd'
  split
  · rename_i h
    rw [h]
  · rfl

lemma closes_close_iff {n : Nat} (hn : n < MAX_FDS) (hpid : k.currentPid = some pid) (pid' : Pid)
    (fd' : Fd) : k.closes (.close n) pid' fd' = true ↔ pid' = pid ∧ fd' = ⟨n, hn⟩ := by
  simp only [closes, hpid, Bool.and_eq_true, beq_iff_eq, Option.some.injEq, Fin.ext_iff]
  exact and_congr_left' eq_comm

lemma sysClose_pipeStep (n : Nat) (hcur : k.current = some (pid, p)) :
    PipeWorld.Step (k.closes (.close n)) lost k.pipeWorld (k.sysClose n).2.pipeWorld := by
  obtain ⟨hpid, hprs⟩ := current_eq_some.mp hcur
  rw [sysClose]
  split
  · rename_i hn
    simp only [hcur]
    split
    · exact .same _
    have hstep : PipeWorld.Step (k.closes (.close n)) lost k.pipeWorld _ := .close k.pipeWorld
      pid (fun fd => decide (fd = ⟨n, hn⟩))
      (fun pid' fd' => by rw [closes_close_iff hn hpid, decide_eq_true_eq])
    have hrow : (fun fd => if fd = ⟨n, hn⟩ then none else pipeOp (p.fdTypes fd)) =
        update (fun fd => pipeOp (p.fdTypes fd)) ⟨n, hn⟩ (pipeOp .none) := by
      funext fd
      rw [update_apply]
      rfl
    simp only [decide_eq_true_eq, ends_single, pipeWorld_row hprs, hrow] at hstep
    split
    · rename_i hnone
      rw [hnone] at hstep
      rwa [pipeWorld_setProc, pipeRow_some, pipeOp_update]
    rename_i i w hsome
    rw [hsome] at hstep
    rwa [pipeWorld_keyboardWake, pipeWorld_setProc_pipes, pipeRow_some, pipeOp_update]
  · exact .same _

lemma dupInto_cases (k : Kernel) (t : FdType) (hprs : k.procs pid = some p) :
    ((∀ fd, p.fdTypes fd ≠ .none) ∧ (k.dupInto pid p t).2 = k) ∨
      ∃ new, p.fdTypes new = .none ∧ (k.dupInto pid p t).2.pipeWorld =
        ⟨update k.pipeWorld.fds pid
          (update (k.pipeWorld.fds pid) new (pipeOp t)), k.pipes⟩ := by
  rw [dupInto]
  split
  · rename_i hnone
    refine .inl ⟨fun fd hfd => ?_, rfl⟩
    have := find?_eq_none.mp hnone fd (mem_finRange fd)
    simp [hfd] at this
  rename_i new hnew
  refine .inr ⟨new, (firstFree_cases hnew).2, ?_⟩
  rw [pipeWorld_setProc, pipeRow_some, pipeOp_update, pipeWorld_row hprs]

lemma dupInto_pipeStep (t : FdType) (ht : pipeOp t = none) (hprs : k.procs pid = some p) :
    PipeWorld.Step closed lost k.pipeWorld (k.dupInto pid p t).2.pipeWorld := by
  rcases dupInto_cases k t hprs with ⟨-, h⟩ | ⟨new, hnew, h⟩
  · rw [h]
    exact .same _
  have hnone : k.pipeWorld.fds pid new = none := by
    simp [pipeWorld_row hprs, hnew, pipeOp]
  rw [h, ht, ← hnone, update_eq_self, update_eq_self]
  exact .same _

lemma sysDup_pipeStep (n : Nat) (hcur : k.current = some (pid, p)) :
    PipeWorld.Step closed (k.losesRef (.dup n)) k.pipeWorld (k.sysDup n).2.pipeWorld := by
  obtain ⟨hpid, hprs⟩ := current_eq_some.mp hcur
  rw [sysDup]
  split
  · rename_i hn
    simp only [hcur]
    split
    · exact .same _
    · split
      · exact .same _
      split
      · exact .same _
      · exact dupInto_pipeStep _ rfl hprs
    · rename_i idx w hpipe
      split
      · rename_i hslot
        exact dupInto_pipeStep _ (by simp [pipeOp, hslot]) hprs
      rename_i i hslot
      have hold : k.pipeWorld.fds pid ⟨n, hn⟩ = some (i, w) := by
        simp [pipeWorld_row hprs, hpipe, pipeOp, hslot]
      rcases dupInto_cases { k with pipes := retainPipe k.pipes i } (.pipe idx w) hprs with
        ⟨hfull, h⟩ | ⟨new, hnew, h⟩
      · rw [h]
        exact .lose _ i ⟨pid, p, ⟨n, hn⟩, idx, w, hcur, rfl, hpipe, hfull⟩
      have hnone : k.pipeWorld.fds pid new = none := by
        simp [pipeWorld_row hprs, hnew, pipeOp]
      rw [h]
      have hop : pipeOp (.pipe idx w) = some (i, w) := by simp [pipeOp, hslot]
      rw [hop]
      exact .dup k.pipeWorld pid ⟨n, hn⟩ new (i, w) hold hnone
    rename_i h1 h2 h3
    refine dupInto_pipeStep _ ?_ hprs
    cases ht : p.fdTypes ⟨n, hn⟩ with
    | pipe idx w => exact absurd ht (h3 idx w)
    | _ => rfl
  · exact .same _

lemma closes_dup2_iff {oldfd newfd : Nat} (ho : oldfd < MAX_FDS) (hn : newfd < MAX_FDS)
    (hne : oldfd ≠ newfd) (hcur : k.current = some (pid, p))
    (hopen : p.fdTypes ⟨oldfd, ho⟩ ≠ .none) (pid' : Pid) (fd' : Fd) :
    k.closes (.dup2 oldfd newfd) pid' fd' = true ↔ pid' = pid ∧ fd' = ⟨newfd, hn⟩ := by
  obtain ⟨hpid, hprs⟩ := current_eq_some.mp hcur
  have hany : ((finRange MAX_FDS).any fun fd => fd.val == oldfd && p.fdTypes fd != .none) =
      true :=
    any_eq_true.mpr ⟨⟨oldfd, ho⟩, mem_finRange _, by simp [hopen]⟩
  simp only [closes, hpid, Bool.and_eq_true, beq_iff_eq, Option.some.injEq, bne_iff_ne]
  constructor
  · rintro ⟨⟨⟨rfl, hfd⟩, -⟩, -⟩
    exact ⟨rfl, Fin.ext hfd⟩
  · rintro ⟨rfl, rfl⟩
    exact ⟨⟨⟨rfl, rfl⟩, hne⟩, by simp [hprs, hany]⟩

lemma sysDup2_pipeStep (oldfd newfd : Nat) (hcur : k.current = some (pid, p)) :
    PipeWorld.Step (k.closes (.dup2 oldfd newfd)) lost k.pipeWorld
      (k.sysDup2 oldfd newfd).2.pipeWorld := by
  obtain ⟨hpid, hprs⟩ := current_eq_some.mp hcur
  rw [sysDup2]
  split
  · rename_i ho
    split
    · rename_i hn
      simp only [hcur]
      split
      · exact .same _
      rename_i hopen
      split
      · exact .same _
      rename_i hne
      have hstep : PipeWorld.Step (k.closes (.dup2 oldfd newfd)) lost k.pipeWorld _ :=
        .replace k.pipeWorld pid ⟨oldfd, ho⟩ ⟨newfd, hn⟩ (by simpa [Fin.ext_iff] using hne)
          (closes_dup2_iff ho hn hne hcur hopen)
      have hwake : ∀ (b : Bool) (k1 : Kernel),
          (if b then k1.keyboardWake else k1).pipeWorld = k1.pipeWorld := by
        intro b k1
        cases b <;> simp
      rw [hwake, pipeWorld_setProc_pipes, pipeRow_some, pipeOp_update]
      simp only [pipeWorld_row hprs] at hstep
      convert hstep using 2
      cases hold : pipeOp (p.fdTypes ⟨oldfd, ho⟩) <;> cases hnew :
          pipeOp (p.fdTypes ⟨newfd, hn⟩) <;>
        rfl
    · exact .same _
  · exact .same _

variable {r : SysResult} {file : BytesResult}

lemma sysFork_pipeStep {extraStack : Option Nat} (hcur : k.current = some (pid, p))
    (h : k.sysFork stack extraStack = .ok (r, k')) :
    PipeWorld.Step closed lost k.pipeWorld k'.pipeWorld := by
  obtain ⟨hpid, hprs⟩ := current_eq_some.mp hcur
  obtain ⟨child, s1, b, s2, -, -, rfl | ⟨-, slot, stackBase, hslot, -, rfl⟩⟩ := sysFork_cases hcur h
  · exact .same _
  have hstep : PipeWorld.Step closed lost k.pipeWorld _ := .inherit k.pipeWorld pid slot
    (fun fd => by simp [pipeWorld, (freeSlot_cases hslot).1])
  rw [pipeWorld_row hprs] at hstep
  rw [pipeWorld_setProc]
  exact hstep

/-! ### Close-on-exec -/

lemma cloexecStep_fdTypes (p : Process) (fd fd' : Fd) : (cloexecStep p fd).fdTypes fd' =
      if fd' = fd ∧ closesOnExec p fd = true then .none else p.fdTypes fd' := by
  rw [cloexecStep]
  split
  · rename_i h
    simp [update_apply, h]
  · rename_i h
    simp [h]

lemma closesOnExec_cloexecStep {fd' : Fd} (hne : fd' ≠ fd) :
    closesOnExec (cloexecStep p fd) fd' = closesOnExec p fd' := by
  have htype : (cloexecStep p fd).fdTypes fd' = p.fdTypes fd' := by
    simp [cloexecStep_fdTypes, hne]
  have hfl : (cloexecStep p fd).fdFlags = p.fdFlags := by
    rw [cloexecStep]
    split <;> rfl
  rw [closesOnExec, closesOnExec, htype, hfl]

lemma foldl_cloexecStep_fdTypes (hnd : l.Nodup) (p : Process) (fd : Fd) :
    (l.foldl cloexecStep p).fdTypes fd =
      if fd ∈ l ∧ closesOnExec p fd = true then .none else p.fdTypes fd := by
  induction l generalizing p with
  | nil => simp
  | cons a l ih =>
    obtain ⟨ha, hnd⟩ := nodup_cons.mp hnd
    rw [foldl_cons, ih hnd]
    rcases eq_or_ne fd a with rfl | hne
    · simp [ha, cloexecStep_fdTypes]
    · simp [closesOnExec_cloexecStep hne, cloexecStep_fdTypes, hne]

lemma pipeOp_afterCloexec (p : Process) : (fun fd => pipeOp ((afterCloexec p).fdTypes fd)) =
      fun fd => if closesOnExec p fd then none else pipeOp (p.fdTypes fd) := by
  funext fd
  rw [afterCloexec, foldl_cloexecStep_fdTypes (nodup_finRange _)]
  by_cases h : closesOnExec p fd = true <;> simp [h, pipeOp]

lemma closeOnExec_pipeStep (lost : Prop) (op : Op) (hcur : k.current = some (pid, p))
    (hop : ∀ pid' fd', k.closes op pid' fd' = true ↔ pid' = pid ∧ closesOnExec p fd' = true) :
    PipeWorld.Step (k.closes op) lost k.pipeWorld k.closeOnExec.pipeWorld := by
  obtain ⟨hpid, hprs⟩ := current_eq_some.mp hcur
  have hstep : PipeWorld.Step (k.closes op) lost k.pipeWorld _ :=
    .close k.pipeWorld pid (closesOnExec p) hop
  simp only [pipeWorld_row hprs, ← pipeOp_afterCloexec] at hstep
  rw [closeOnExec_eq hcur, pipeWorld_setProc_pipes, pipeRow_some]
  exact hstep

lemma closes_exec_iff (hcur : k.current = some (pid, p)) (pid' : Pid) (fd' : Fd) :
    (k.currentPid == some pid' && (k.procs pid').any fun p => closesOnExec p fd') = true ↔
      pid' = pid ∧ closesOnExec p fd' = true := by
  obtain ⟨hpid, hprs⟩ := current_eq_some.mp hcur
  simp only [hpid, Bool.and_eq_true, beq_iff_eq, Option.some.injEq]
  constructor
  · rintro ⟨rfl, h⟩
    simpa [hprs] using h
  · rintro ⟨rfl, h⟩
    simpa [hprs] using h

lemma sysExec_pipeStep (hcur : k.current = some (pid, p)) (h : k.sysExec M file = .ok (r, k')) :
    PipeWorld.Step (k.closes (.exec file)) lost k.pipeWorld k'.pipeWorld := by
  have hstep := closeOnExec_pipeStep lost (.exec file) hcur (closes_exec_iff hcur)
  obtain ⟨k0, p0, s, prng, hk0, -, hcur0, ⟨-, -, rfl⟩ | ⟨elf, pml4, entry, top, -, -, -, rfl⟩⟩ :=
    sysExec_result hcur h
  · rw [← hk0] at hstep
    exact hstep
  rw [pipeWorld_setProc_same (by rw [procs_of_current hcur0]; rfl)]
  rw [← hk0] at hstep
  exact hstep

lemma sysExecve_pipeStep {argv : List (List Byte)} (hcur : k.current = some (pid, p))
    (h : k.sysExecve M file argv = .ok (r, k')) :
    PipeWorld.Step (k.closes (.execve file argv)) lost k.pipeWorld k'.pipeWorld := by
  have hstep := closeOnExec_pipeStep lost (.execve file argv) hcur
    (closes_exec_iff hcur)
  obtain ⟨k0, p0, s, prng, hk0, -, hcur0,
    ⟨-, -, rfl⟩ | ⟨elf, pml4, entry, top, -, -, ⟨-, -, rfl⟩ | ⟨-, -, rfl⟩⟩⟩ :=
    sysExecve_result hcur h
  · rw [← hk0] at hstep
    exact hstep
  · rw [← hk0] at hstep
    exact hstep
  rw [pipeWorld_setProc_same (by rw [procs_of_current hcur0]; rfl)]
  rw [← hk0] at hstep
  exact hstep

lemma reapZombie_pipeStep (h : k.reapZombie pid = .ok k') :
    PipeWorld.Step (k.closes (.reap pid)) lost k.pipeWorld k'.pipeWorld := by
  rw [reapZombie] at h
  split at h
  · cases h
    exact .same _
  rename_i p hprs
  split at h
  · simp at h
  rename_i k1 hdrop
  cases h
  have hpip : k1.pipeWorld = ⟨k.pipeWorld.fds,
      closePipes k.pipes ((finRange MAX_FDS).filterMap fun fd => pipeOp (p.fdTypes fd))⟩ := by
    rw [dropProcess] at hdrop
    split at hdrop
    · split at hdrop
      · simp at hdrop
      · cases hdrop
        rfl
    · cases hdrop
      rfl
  have hstep : PipeWorld.Step (k.closes (.reap pid)) lost k.pipeWorld _ := .close k.pipeWorld pid
    (fun _ => true) (fun pid' fd' => by simp [closes])
  simp only [if_true, pipeWorld_row hprs] at hstep
  have hfds : k1.pipeWorld.fds = k.pipeWorld.fds := by rw [hpip]
  have hpip1 : k1.pipes = closePipes k.pipes
      ((finRange MAX_FDS).filterMap fun fd => pipeOp (p.fdTypes fd)) :=
    congrArg PipeWorld.pipes hpip
  rw [pipeWorld_setProc, hfds, hpip1]
  exact hstep

/-- Every operation is a step of the pipe table. -/
lemma perform_pipeStep {op : Op} (hen : k.enabled op = true) (h : k.perform M op = .ok k') :
    PipeWorld.Step (k.closes op) (k.losesRef op) k.pipeWorld k'.pipeWorld := by
  -- system calls are made by a running process
  have huser : k.userRunning = true → ∃ pid p, k.current = some (pid, p) := fun hu => by
    obtain ⟨pid, p, hcur, -⟩ := userRunning_iff.mp hu
    exact ⟨pid, p, hcur⟩
  have hsame : k'.pipeWorld = k.pipeWorld →
      PipeWorld.Step (k.closes op) (k.losesRef op) k.pipeWorld k'.pipeWorld := fun h => by
    rw [h]
    exact .same _
  cases op with
  | spawn elf parent stack =>
    obtain ⟨r, hr⟩ := map_snd_eq_ok.mp h
    exact hsame (pipeWorld_spawnUser hr)
  | fork stack extraStack =>
    obtain ⟨pid, p, hcur⟩ := huser hen
    obtain ⟨r, hr⟩ := map_snd_eq_ok.mp h
    exact sysFork_pipeStep hcur hr
  | exec file =>
    obtain ⟨pid, p, hcur⟩ := huser hen
    obtain ⟨r, hr⟩ := map_snd_eq_ok.mp h
    exact sysExec_pipeStep hcur hr
  | execve file argv =>
    obtain ⟨pid, p, hcur⟩ := huser hen
    obtain ⟨r, hr⟩ := map_snd_eq_ok.mp h
    exact sysExecve_pipeStep hcur hr
  | exit code next => exact hsame (undisturbed_sysExit h).pipeWorld
  | kill next => exact hsame (undisturbed_killProcess h).pipeWorld
  | tick next => exact hsame (undisturbed_schedule h).pipeWorld
  | yield next => exact hsame (undisturbed_scheduleForce h).pipeWorld
  | reap pid => exact reapZombie_pipeStep h
  | brk newBrk =>
    obtain ⟨pid, p, hcur⟩ := huser hen
    obtain ⟨r, hr⟩ := map_snd_eq_ok.mp h
    exact hsame (pipeWorld_remapped hcur (sysBrk_cases hcur hr))
  | mmap length =>
    obtain ⟨pid, p, hcur⟩ := huser hen
    obtain ⟨r, hr⟩ := map_snd_eq_ok.mp h
    exact hsame (pipeWorld_remapped hcur (sysMmap_cases hcur hr))
  | munmap addr length =>
    obtain ⟨pid, p, hcur⟩ := huser hen
    obtain ⟨r, hr⟩ := map_snd_eq_ok.mp h
    exact hsame (pipeWorld_remapped hcur (sysMunmap_cases hcur hr))
  | store va b next => exact hsame (undisturbed_userStore h).pipeWorld
  | pipe =>
    obtain ⟨pid, p, hcur⟩ := huser hen
    cases h
    exact sysPipe_pipeStep hcur
  | close fd =>
    obtain ⟨pid, p, hcur⟩ := huser hen
    cases h
    exact sysClose_pipeStep fd hcur
  | dup fd =>
    obtain ⟨pid, p, hcur⟩ := huser hen
    cases h
    exact sysDup_pipeStep fd hcur
  | dup2 oldfd newfd =>
    obtain ⟨pid, p, hcur⟩ := huser hen
    cases h
    exact sysDup2_pipeStep oldfd newfd hcur

end Steps

/-! ## Reference counts -/

/-- The type of a descriptor; `none` in an empty process slot. -/
def fdType (k : Kernel) (pid : Pid) (fd : Fd) : FdType :=
  match k.procs pid with
  | none => .none
  | some p => p.fdTypes fd

/-- Does the descriptor refer to the pipe in slot `i`? -/
def refersToPipe (i : PipeIdx) : FdType → Bool
  | .pipe idx _ => idx == i.val
  | _ => false

/-- The number of descriptors, over all process slots, that refer to the pipe in slot `i`. -/
def references (k : Kernel) (i : PipeIdx) : Nat :=
  (Finset.univ.filter fun x : Pid × Fd => refersToPipe i (k.fdType x.1 x.2) = true).card

/-- No pipe is allocated and no descriptor refers to one. -/
structure NoPipes (k : Kernel) : Prop where
  pipes : ∀ i, k.pipes i = none
  fds : ∀ pid fd idx w, k.fdType pid fd ≠ .pipe idx w

/-- Counts are the numbers of descriptors, and a slot is free exactly when there is none. -/
def PipesCounted (k : Kernel) : Prop :=
  ∀ i, (∀ q, k.pipes i = some q → q.refcount = k.references i) ∧
    (k.pipes i = none ↔ k.references i = 0)

lemma pipeWorld_fds (k : Kernel) (pid : Pid) (fd : Fd) :
    k.pipeWorld.fds pid fd = pipeOp (k.fdType pid fd) := by
  simp only [pipeWorld, pipeRow, fdType]
  cases k.procs pid <;> rfl

lemma refersTo_pipeOp (i : PipeIdx) (t : FdType) :
    PipeWorld.refersTo i (pipeOp t) = refersToPipe i t := by
  cases t with
  | pipe idx w =>
    simp only [pipeOp, pipeSlot, refersToPipe]
    split
    · simp [Fin.ext_iff]
    rename_i h
    simp only [Option.map_none, PipeWorld.refersTo_none]
    rw [eq_comm, beq_eq_false_iff_ne]
    rintro rfl
    exact h i.isLt
  | _ => rfl

lemma references_eq_refs (k : Kernel) (i : PipeIdx) : k.references i = k.pipeWorld.refs i := by
  simp only [references, PipeWorld.refs, tally, pipeWorld_fds, refersTo_pipeOp]

lemma NoPipes.counted (h : k.NoPipes) : k.pipeWorld.Counted where
  count i := by
    rw [← references_eq_refs, references]
    simp only [pipeWorld, h.pipes, refcountOf, eq_comm (a := 0), Finset.card_eq_zero,
      Finset.filter_eq_empty_iff]
    intro x _ hx
    cases ht : k.fdType x.1 x.2 with
    | pipe idx w => exact h.fds _ _ _ _ ht
    | _ => simp [ht, refersToPipe] at hx
  live i q hq := by simp [pipeWorld, h.pipes] at hq

lemma PipesCounted.of_counted (h : k.pipeWorld.Counted) : k.PipesCounted := by
  intro i
  have hcnt := h.count i
  rw [← references_eq_refs] at hcnt
  refine ⟨fun q hq => ?_, ?_⟩
  · rw [← hcnt]
    simp [pipeWorld, hq, refcountOf]
  · rw [← hcnt]
    exact h.live.refcountOf_pos

/-- A kernel with one user process, which is running, and no pipes. -/
def oneUser : Kernel :=
  { bootKernel with
    procs := fun pid =>
      if pid.val = 2 then some { Process.newUser 2 0 0 0 none 0 1 with state := .running }
      else bootKernel.procs pid
    currentPid := some ⟨2, two_lt_maxProcesses⟩ }

lemma oneUser_noPipes : oneUser.NoPipes where
  pipes _ := rfl
  fds pid fd idx w := by
    simp only [fdType, oneUser, bootKernel]
    split
    · simp
    rename_i p hp
    split_ifs at hp
    · cases hp
      simp only [Process.newUser]
      split_ifs <;> simp
    · cases hp
      simp [Process.newKernel]
    · cases hp
      simp [Process.newKernel]

/-- **Pipe lifetime.**  Counts are right in every run without a `sys_dup` of a pipe by a process
whose descriptors are all in use. -/
theorem reaches_pipesCounted (M : Mapper) {k k' : Kernel} (hk : k.NoPipes)
    (h : Reaches M (fun k op => ¬ k.losesRef op) k k') : k'.PipesCounted :=
  .of_counted <| h.invariant (P := fun k => k.pipeWorld.Counted)
    (fun _ _ _ hP hcond hen hop => hP.step hcond (perform_pipeStep hen hop)) hk.counted

/-- A pipe is created and one of its ends closed. -/
theorem reaches_pipesCounted_close :
    ∃ k' : Kernel, (k'.pipes (0 : Fin 16)).isSome = true ∧ k'.PipesCounted := by
  obtain ⟨k', hrch, hk'⟩ := reaches_of_runMeets referenceMapper [.pipe, .close 3] oneUser
    (fun k => (k.pipes (0 : Fin 16)).isSome) (fun k op => ¬ k.losesRef op) (by simp [losesRef])
      (by decide +kernel)
  exact ⟨k', hk', reaches_pipesCounted referenceMapper oneUser_noPipes hrch⟩

/-- A `sys_dup` of a pipe with a full table fails and leaves a reference behind. -/
theorem dup_full_table_not_counted :
    ∃ k', oneUser.NoPipes ∧ Reaches referenceMapper (fun _ _ => True) oneUser k' ∧
      ¬ k'.PipesCounted := by
  obtain ⟨k', hrch, hk'⟩ := reaches_of_runMeets referenceMapper
    (replicate 11 (.dup 0) ++ [.pipe, .dup 14]) oneUser
    (fun k => (k.pipes (0 : Fin 16)).any fun q => q.refcount != k.references (0 : Fin 16))
    (fun _ _ => True) (fun _ _ _ => trivial) (by decide +kernel)
  refine ⟨k', oneUser_noPipes, hrch, fun hcounted => ?_⟩
  cases hq : k'.pipes (0 : Fin 16) with
  | none => simp [hq] at hk'
  | some q =>
    have hcnt := (hcounted (0 : Fin 16)).1 q hq
    simp [hq, hcnt] at hk'

/-! ## Open ends -/

/-- An end of an allocated pipe is marked open exactly when a descriptor refers to it. -/
def EndsMarked (k : Kernel) : Prop :=
  ∀ i q, k.pipes i = some q →
    (q.writeOpen = true ↔ ∃ pid fd, k.fdType pid fd = .pipe i.val true) ∧
    (q.readOpen = true ↔ ∃ pid fd, k.fdType pid fd = .pipe i.val false)

/-- When the operation closes a descriptor of a pipe end, it closes every descriptor that refers
to this end. -/
def closesWholeEnds (k : Kernel) (op : Op) : Prop :=
  ∀ pid fd i w, k.closes op pid fd = true → k.fdType pid fd = .pipe i w →
    ∀ pid' fd', k.fdType pid' fd' = .pipe i w → k.closes op pid' fd' = true

lemma closesWholeEnds.wholeEnds {op : Op} (h : k.closesWholeEnds op) :
    k.pipeWorld.WholeEnds (k.closes op) := by
  intro pid fd e hc hfd pid' fd' hfd'
  rw [pipeWorld_fds, pipeOp_eq_some] at hfd hfd'
  exact h pid fd _ _ hc hfd pid' fd' hfd'

lemma NoPipes.endsOpen (h : k.NoPipes) : k.pipeWorld.EndsOpen := by
  intro i q b hq
  simp [pipeWorld, h.pipes] at hq

lemma EndsMarked.of_endsOpen (h : k.pipeWorld.EndsOpen) : k.EndsMarked := by
  intro i q hq
  have hend := fun b => h i q b hq
  simp only [pipeWorld_fds, pipeOp_eq_some] at hend
  exact ⟨hend true, hend false⟩

/-- **Pipe ends.**  In runs in which descriptors of a pipe end are closed all at once, an end is
marked open exactly when a descriptor refers to it. -/
theorem reaches_endsMarked (M : Mapper) {k k' : Kernel} (hk : k.NoPipes)
    (h : Reaches M closesWholeEnds k k') : k'.EndsMarked :=
  .of_endsOpen <| h.invariant (P := fun k => k.pipeWorld.EndsOpen)
    (fun _ _ _ hP hcond hen hop => hP.step hcond.wholeEnds (perform_pipeStep hen hop)) hk.endsOpen

/-- A pipe is created, and then the only descriptor of its read end is closed. -/
theorem reaches_endsMarked_close : ∃ k' : Kernel,
    (k'.pipes (0 : Fin 16)).any (fun q => !q.readOpen && q.writeOpen) = true ∧ k'.EndsMarked := by
  obtain ⟨k, hrch, hk⟩ := reaches_of_runMeets referenceMapper [.pipe] oneUser
    (fun k => decide (k.currentPid = some ⟨2, two_lt_maxProcesses⟩ ∧ ∀ pid fd,
        k.fdType pid fd = k.fdType (2 : Fin 32) (3 : Fin 16) → pid.val = 2 ∧ fd.val = 3) &&
      meets (k.step referenceMapper (.close 3)) fun k' =>
        (k'.pipes (0 : Fin 16)).any fun q => !q.readOpen && q.writeOpen)
    closesWholeEnds (by simp [closesWholeEnds, closes]) (by decide +kernel)
  rw [Bool.and_eq_true, decide_eq_true_eq] at hk
  obtain ⟨⟨hcur, hsole⟩, hclose⟩ := hk
  obtain ⟨k', hstep, hk'⟩ := exists_of_meets hclose
  have hwhole : k.closesWholeEnds (.close 3) := by
    intro pid fd i w hc hfd pid' fd' hfd'
    simp only [closes, hcur, Bool.and_eq_true, beq_iff_eq, Option.some.injEq] at hc ⊢
    obtain ⟨rfl, hthree⟩ := hc
    obtain rfl : fd = (3 : Fin 16) := Fin.ext hthree
    obtain ⟨htwo, hthree'⟩ := hsole pid' fd' (hfd'.trans hfd.symm)
    exact ⟨Fin.ext htwo.symm, hthree'⟩
  exact ⟨k', hk', reaches_endsMarked referenceMapper oneUser_noPipes (hrch.tail ⟨_, hwhole, hstep⟩)⟩

/-- One of two descriptors of the write end is closed: the end is marked closed. -/
theorem close_duplicate_not_marked :
    ∃ k', oneUser.NoPipes ∧ Reaches referenceMapper (fun _ _ => True) oneUser k' ∧
      ¬ k'.EndsMarked := by
  obtain ⟨k', hrch, hk'⟩ := reaches_of_runMeets referenceMapper
    [.pipe, .dup 4, .close 4] oneUser
    (fun k => ((k.pipes (0 : Fin 16)).any fun q => !q.writeOpen) &&
      decide (k.fdType (2 : Fin 32) (5 : Fin 16) = .pipe 0 true))
    (fun _ _ => True) (fun _ _ _ => trivial) (by decide +kernel)
  refine ⟨k', oneUser_noPipes, hrch, fun hmk => ?_⟩
  rw [Bool.and_eq_true, decide_eq_true_eq] at hk'
  cases hq : k'.pipes (0 : Fin 16) with
  | none => simp [hq] at hk'
  | some q =>
    have hopen := (hmk (0 : Fin 16) q hq).1.mpr ⟨_, _, hk'.2⟩
    simp [hq, hopen] at hk'

end Indominus.Sys.Kernel
