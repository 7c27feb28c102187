import Indominus.Files.World
import Indominus.Sched.Lasting
import Indominus.Sched.Invariants
import Indominus.Sys.ForkCopy
import Indominus.Sys.Quiet

/-!
# The kernel as a system of descriptors

What an entry to the kernel does to descriptors, open files and pipes is a sequence of steps of
`World`.
-/

namespace Indominus.Sys

open Lib Memory Function Option

namespace Kernel

/-! ## Notes -/

def pipeBehind (k : Kernel) (pid : Pid) (fd : Nat) : Option (PipeIdx × Pipe) :=
  if h : fd < MAX_FDS then
    match (k.procs pid).bind fun p => pipeOp (p.fdTypes ⟨fd, h⟩) with
    | some (i, true) => (k.pipes i).map fun q => (i, q)
    | _ => none
  else none

def nextPipe (k : Kernel) : Option PipeIdx := k.allocPipe.map Prod.fst

/-- What is written down when a system call of a process has returned. -/
def noteCall (k : Kernel) (g : Notes) (pid : Pid) : Syscall → SysResult → Notes
  | .openFile (.ok obj) _, .ok fd =>
    { g.setTag pid.val fd g.next with
      next := g.next + 1
      made := update g.made g.next obj }
  | .pipe, .ok fds =>
    { (g.setTag pid.val (fds / 2 ^ 32) g.next).setTag pid.val (fds % 2 ^ 32) g.next with
      next := g.next + 1
      shadow :=
        match k.nextPipe with
        | none => g.shadow
        | some i => update g.shadow i fun _ => none }
  | .dup old, .ok new | .dup2 old _, .ok new => g.setTag pid.val new (g.tag pid.val old)
  | .fork _ _, .ok child => { g with tag := update g.tag child (g.tag pid.val) }
  | .write _ fd _ _, .ok n =>
    match k.pipeBehind pid fd with
    | none => g
    | some (i, q) =>
      { g with
        shadow := update g.shadow i
          (Notes.taint (g.shadow i) q.nwrite n (g.tag pid.val fd)) }
  | _, _ => g

def note (M : Mapper) (k : Kernel) (g : Notes) : Event → Notes
  | .syscall _ frame call =>
    match k.currentPid, (k.enter frame).handle M call with
    | some pid, .ok (r, _) => (k.enter frame).noteCall g pid call r
    | _, _ => g
  | _ => g

/-- The states that the kernel can get to when each step meets a condition, with the notes. -/
def NotedRuns (M : Mapper) (cond : Kernel → Event → Prop) :
    Kernel × Notes → Kernel × Notes → Prop :=
  Relation.ReflTransGen fun x y =>
    ∃ ev, cond x.1 ev ∧ x.1.Steps M ev y.1 ∧ y.2 = x.1.note M x.2 ev

def world (k : Kernel) (g : Notes) : World :=
  { g with
    rows := fun i => (k.procs i).map Process.row
    pipes := k.pipes }

def callDoes (pid : Pid) : Syscall → Deed → Prop
  | .openFile file _, .opens obj => file = .ok obj
  | .close n, .closes pid' fd => pid' = pid ∧ fd.val = n
  | .dup _, .retains | .dup2 _ _, .retains | .fork _ _, .retains => True
  | _, _ => False

def does (k : Kernel) : Event → Deed → Prop
  | .syscall _ _ call, d => ∃ pid, k.currentPid = some pid ∧ callDoes pid call d
  | _, _ => False

variable {M : Mapper} {k k' k1 : Kernel} {g : Notes} {pid : Pid} {p : Process}
  {H : World → Deed → Prop}

/-! ## The view -/

lemma world_rows (hp : k.procs pid = some p) : (k.world g).rows pid = some p.row := by
  simp [world, hp]

variable {q : Option Process} {g' : Notes} {r : SysResult} {stack : Option Nat}

variable {n fd bufPtr count : Nat} {dev : Devices} {file : BytesResult}

lemma world_of_update (hprs : k1.procs = update k.procs pid q) :
    k1.world g = { g with
      rows := update (k.world g).rows pid (q.map Process.row)
      pipes := k1.pipes } := by
  unfold world
  rw [hprs]
  congr 1
  funext i
  rw [update_apply, update_apply]
  split <;> rfl

lemma Undisturbed.world (h : Undisturbed k k') : k'.world g = k.world g := by
  have hrows : ∀ i, (k'.procs i).map Process.row = (k.procs i).map Process.row := by
    intro i
    have hi := congrArg (Option.map fun l : Lasting => (⟨l.fdTypes, l.fileHandles⟩ : Row))
      (congrFun h.lasting i)
    unfold Kernel.lasting at hi
    rw [map_map, map_map] at hi
    exact hi
  unfold Kernel.world
  rw [h.pipes]
  congr 1
  funext i
  exact hrows i

lemma world_setProc_same {q : Process} (hp : k.procs pid = some p) (hq : q.row = p.row) :
    (k.setProc pid (some q)).world g = k.world g := by
  rw [world_of_update (k := k) (q := some q) rfl, map_some, hq, ← world_rows (g := g) hp,
    update_eq_self]
  rfl

lemma world_keyboardWake (k : Kernel) : k.keyboardWake.world g = k.world g :=
  ((Undisturbed.refl k).wakeWhere _).world

/-- What a system call does, for given notes before and after it. -/
def FileCall (H : World → Deed → Prop) (k : Kernel) (g : Notes) (k' : Kernel) (g' : Notes) : Prop :=
  World.Steps H (k.world g) (k'.world g')

lemma FileCall.of_eq (h : k'.world g = k.world g) : FileCall H k g k' g := by
  unfold FileCall
  rw [h]

lemma FileCall.same (k : Kernel) (g : Notes) : FileCall H k g k g := .of_eq rfl

lemma FileCall.keyboardWake (h : FileCall H k g k' g') : FileCall H k g k'.keyboardWake g' := by
  unfold FileCall
  rw [world_keyboardWake]
  exact h

lemma FileCall.of_step (hprs : k'.procs = update k.procs pid q)
    (hstep : World.Step H (k.world g) { g' with
      rows := update (k.world g).rows pid (q.map Process.row)
      pipes := k'.pipes }) : FileCall H k g k' g' := by
  refine .single ?_
  rw [world_of_update hprs]
  exact hstep

lemma FileCall.of_undisturbed (h : Undisturbed k k') : FileCall H k g k' g := .of_eq h.world

/-! ## Opening and closing -/

lemma files_sysOpen {file : Except Errno Nat} {flags : Nat} (hcur : k.current = some (pid, p))
    (hH : ∀ obj, file = .ok obj → H (k.world g) (.opens obj)) :
    FileCall H k g (k.sysOpen file flags).2
      (k.noteCall g pid (.openFile file flags) (k.sysOpen file flags).1) := by
  have hp := procs_of_current hcur
  have hfail :
      ∀ e : Errno, FileCall H k g k (k.noteCall g pid (.openFile file flags) (.error e)) := by
    intro e
    cases file <;> exact .same k g
  simp only [sysOpen, hcur]
  split
  · exact hfail _
  split
  · exact hfail _
  split
  · exact hfail _
  rename_i obj
  split
  · rename_i fd slot hfd hslot
    have hstep := World.Step.openFile (H := H) (w := k.world g) (world_rows hp)
      (firstFree_cases hfd).2 (by simpa using List.find?_some hslot : p.fileHandles slot = none)
      (hH obj rfl)
    exact .of_step rfl hstep
  · exact hfail _

lemma files_sysClose (hcur : k.current = some (pid, p))
    (hH : ∀ fd : Fd, fd.val = n → H (k.world g) (.closes pid fd)) :
    FileCall H k g (k.sysClose n).2 (k.noteCall g pid (.close n) (k.sysClose n).1) := by
  have hp := procs_of_current hcur
  simp only [sysClose, hcur]
  split
  swap
  · exact .same k g
  rename_i hn
  split
  · exact .same k g
  rename_i hopen
  have hstep := World.Step.close (world_rows hp) hopen (hH ⟨n, hn⟩ rfl)
  -- a descriptor of a pipe is told to the pipe table, any other is not
  cases hop : pipeOp (p.fdTypes ⟨n, hn⟩) with
  | none =>
    simp only [Process.row, World.closeFd, hop] at hstep ⊢
    exact .of_step rfl hstep
  | some e =>
    simp only [Process.row, World.closeFd, hop] at hstep ⊢
    exact .keyboardWake (FileCall.of_step rfl hstep)

/-! ## Duplicating -/

lemma Notes.setTag_self (g : Notes) (pid fd : Nat) : g.setTag pid fd (g.tag pid fd) = g := by
  simp [Notes.setTag]

lemma files_dupInto {old : Fd} (hp : k.procs pid = some p) (hold : p.fdTypes old ≠ .none)
    (hH : H (k.world g) .retains)
    (hk1 : k1 = { k with pipes := PipeWorld.retainEnd k.pipes (pipeOp (p.fdTypes old)) }) :
    FileCall H k g (k1.dupInto pid p (p.fdTypes old)).2
      (k.noteCall g pid (.dup old.val) (k1.dupInto pid p (p.fdTypes old)).1) := by
  unfold dupInto
  split
  · -- no descriptor is free: the count of a pipe has gone up all the same
    subst hk1
    cases hop : pipeOp (p.fdTypes old) with
    | none => exact .same k g
    | some e => exact .single (World.Step.lose (i := e.1) hH)
  rename_i new hnew
  have hstep := World.Step.dup (world_rows hp) hold (firstFree_cases hnew).2 hH
  subst hk1
  exact .of_step rfl hstep

section

variable (hcur : k.current = some (pid, p))

include hcur

lemma files_sysDup (hH : H (k.world g) .retains) :
    FileCall H k g (k.sysDup n).2 (k.noteCall g pid (.dup n) (k.sysDup n).1) := by
  have hp := procs_of_current hcur
  simp only [sysDup, hcur]
  split
  swap
  · exact .same k g
  rename_i hn
  have hdup : ∀ {k1 : Kernel}, p.fdTypes ⟨n, hn⟩ ≠ .none →
      k1 = { k with pipes := PipeWorld.retainEnd k.pipes (pipeOp (p.fdTypes ⟨n, hn⟩)) } →
      FileCall H k g (k1.dupInto pid p (p.fdTypes ⟨n, hn⟩)).2
        (k.noteCall g pid (.dup n) (k1.dupInto pid p (p.fdTypes ⟨n, hn⟩)).1) :=
    fun hold hk1 => files_dupInto hp hold hH hk1
  split
  · exact .same k g
  · rename_i index hfd
    split
    · exact .same k g
    split
    · exact .same k g
    rw [← hfd]
    apply hdup
    · simp [hfd]
    · rw [hfd]
      rfl
  · rename_i pipeIdx writable hfd
    rw [← hfd]
    apply hdup
    · simp [hfd]
    · rw [hfd, pipeOp]
      cases pipeSlot pipeIdx <;> rfl
  rename_i hnone hfile hpipe
  apply hdup
  · exact hnone
  have hop : pipeOp (p.fdTypes ⟨n, hn⟩) = none := by
    cases hfd : p.fdTypes ⟨n, hn⟩ with
    | pipe idx w => exact absurd hfd (hpipe idx w)
    | _ => rfl
  rw [hop]
  rfl

lemma files_sysDup2 {oldfd newfd : Nat} (hH : H (k.world g) .retains) :
    FileCall H k g (k.sysDup2 oldfd newfd).2
      (k.noteCall g pid (.dup2 oldfd newfd) (k.sysDup2 oldfd newfd).1) := by
  have hp := procs_of_current hcur
  unfold sysDup2
  split
  swap
  · exact .same k g
  rename_i ho
  split
  swap
  · exact .same k g
  rename_i hn
  rw [hcur]
  dsimp only
  split
  · exact .same k g
  rename_i hold
  split
  · rename_i heq
    subst heq
    change FileCall H k g k (g.setTag pid.val oldfd (g.tag pid.val oldfd))
    rw [Notes.setTag_self]
    exact .same k g
  rename_i hne
  have hne' : (⟨oldfd, ho⟩ : Fd) ≠ ⟨newfd, hn⟩ := by simpa using hne
  have hstep := World.Step.dup2 (world_rows hp) hne' hold hH
  unfold World.replaceFd at hstep
  -- the pipe table is told about the closed descriptor, then about the new one
  cases hnew : pipeOp (p.fdTypes ⟨newfd, hn⟩) with
  | none =>
    refine .of_step rfl ?_
    cases hop : pipeOp (p.fdTypes ⟨oldfd, ho⟩) <;>
      simp only [Process.row, hnew, hop] at hstep <;> exact hstep
  | some e =>
    refine .keyboardWake (FileCall.of_step rfl ?_)
    cases hop : pipeOp (p.fdTypes ⟨oldfd, ho⟩) <;>
      simp only [Process.row, hnew, hop] at hstep <;> exact hstep

/-! ## Creating pipes and processes -/

lemma files_sysPipe : FileCall H k g k.sysPipe.2 (k.noteCall g pid .pipe k.sysPipe.1) := by
  have hp := procs_of_current hcur
  simp only [sysPipe, hcur]
  split
  · exact .same k g
  cases hall : k.allocPipe with
  | none => exact .same k g
  | some x =>
    obtain ⟨i, k1⟩ := x
    obtain ⟨hfree, rfl⟩ := allocPipe_cases hall
    have hcur1 : (k.setPipe i (some Pipe.new)).current = some (pid, p) := hcur
    simp only [hcur1]
    split
    · -- the new pipe is given back
      refine .of_eq (g := g) ?_
      unfold world freePipe setPipe
      rw [update_idem, ← hfree, update_eq_self]
    rename_i rd wr htwo
    obtain ⟨hne, hrd, hwr⟩ := twoFree_cases htwo
    have hstep := World.Step.pipe (H := H) (w := k.world g) (world_rows hp) hfree hne hrd hwr
    refine .of_step rfl ?_
    have hlt : wr.val < 2 ^ 32 := wr.isLt.trans (by decide)
    have hdiv : (rd.val * 2 ^ 32 + wr.val) / 2 ^ 32 = rd.val := by omega
    have hmod : (rd.val * 2 ^ 32 + wr.val) % 2 ^ 32 = wr.val := by omega
    simp only [noteCall, hdiv, hmod, nextPipe, hall, map_some]
    exact hstep

lemma files_sysFork {extraStack : Option Nat} (hH : H (k.world g) .retains)
    (h : k.sysFork stack extraStack = .ok (r, k')) :
    FileCall H k g k' (k.noteCall g pid (.fork stack extraStack) r) := by
  have hp := procs_of_current hcur
  obtain ⟨s, ⟨⟨e, rfl⟩, rfl⟩ | ⟨slot, pml4, base, hslot, rfl, rfl⟩⟩ := sysFork_result hcur h
  · exact .of_undisturbed (.of_tables rfl rfl)
  have hch : (k.world g).rows slot = none := by
    simp [world, (freeSlot_cases hslot).1]
  have hstep := World.Step.fork (H := H) (w := k.world g) (world_rows hp) hch hH
  exact .of_step rfl hstep

end

/-! ## Reading and writing -/

lemma files_sysRead : FileCall H k g (sysRead dev k fd bufPtr count).kernel g := by
  have hblk : ∀ reason, FileCall H k g (k.block reason) g := fun reason =>
    FileCall.of_undisturbed (undisturbed_block k reason)
  unfold sysRead
  split
  swap
  · exact .same k g
  split
  · exact .same k g
  split
  · exact .same k g
  split
  · exact .same k g
  split
  · exact .same k g
  split
  case h_1 | h_2 =>
    split
    · exact hblk _
    · exact .same k g
  case h_6 =>
    unfold readPipe
    split
    · exact .same k g
    split
    · exact .same k g
    split
    · exact (FileCall.same k g).keyboardWake
    rename_i q hq
    split
    · rename_i bs q' hread
      refine .keyboardWake (.single ?_)
      exact .read hq hread
    · exact .same k g
    · exact hblk _
  case h_7 =>
    split
    · exact .same k g
    · split <;> exact .same k g
  all_goals exact .same k g

lemma taint_zero (cells : Nat → Option Nat) (start t : Nat) :
    Notes.taint cells start 0 t = cells := by
  funext c
  simp [Notes.taint]

lemma noteCall_write_zero : k.noteCall g pid (.write dev fd bufPtr count) (.ok 0) = g := by
  simp only [noteCall]
  split
  · rfl
  · rw [taint_zero, update_eq_self]

lemma noteCall_write_other (hfd : fd < MAX_FDS) (hp : k.procs pid = some p)
    (hop : pipeOp (p.fdTypes ⟨fd, hfd⟩) = none) (r : SysResult) :
    k.noteCall g pid (.write dev fd bufPtr count) r = g := by
  cases r with
  | error e => rfl
  | ok n => simp [noteCall, pipeBehind, hfd, hp, hop]

lemma files_writePipe {pipeIdx : Nat} {writable : Bool} {buf : List Byte} (hfd : fd < MAX_FDS)
    (hp : k.procs pid = some p) (ht : p.fdTypes ⟨fd, hfd⟩ = .pipe pipeIdx writable) :
    FileCall H k g (k.writePipe pipeIdx writable buf).2
      (k.noteCall g pid (.write dev fd bufPtr count) (k.writePipe pipeIdx writable buf).1) := by
  unfold writePipe
  split
  · exact .same k g
  rename_i hwritable
  rw [not_not] at hwritable
  subst hwritable
  split
  · exact .same k g
  rename_i i hi
  have hval : i.val = pipeIdx := by
    unfold pipeSlot at hi
    split at hi
    · rw [← some.inj hi]
    · cases hi
  subst hval
  split
  · exact .same k g
  rename_i q hq
  -- what is noted about `n` bytes
  have hnote : ∀ n, k.noteCall g pid (.write dev fd bufPtr count) (.ok n) = { g with
      shadow := update g.shadow i
        (Notes.taint (g.shadow i) q.nwrite n (g.tag pid.val fd)) } := by
    intro n
    simp [noteCall, pipeBehind, hfd, hp, ht, pipeOp, pipeSlot_val, hq]
  have hstep : ∀ q' n full, q.writeLoop 0 buf = (q', n, full) →
      FileCall H k g (k.setPipe i (some q'))
        (k.noteCall g pid (.write dev fd bufPtr count) (.ok n)) := by
    intro q' n full hloop
    rw [hnote]
    exact .single (World.Step.write (world_rows hp) ht hq hloop)
  split
  · rename_i q' n hloop
    exact (hstep q' n false hloop).keyboardWake
  rename_i q' n hloop
  have hdone := hstep q' n true hloop
  split
  · split
    · exact hdone.keyboardWake
    · exact hdone
  split
  · exact hdone.keyboardWake
  obtain rfl : n = 0 := by omega
  refine Relation.ReflTransGen.trans hdone ?_
  exact FileCall.of_undisturbed (undisturbed_block _ _)

lemma files_sysWrite (hcur : k.current = some (pid, p)) :
    FileCall H k g (sysWrite dev k fd bufPtr count).2
      (k.noteCall g pid (.write dev fd bufPtr count) (sysWrite dev k fd bufPtr count).1) := by
  have hp := procs_of_current hcur
  simp only [sysWrite, hcur]
  split
  swap
  · exact .same k g
  rename_i hfd
  split
  · rw [noteCall_write_zero]
    exact .same k g
  split
  · exact .same k g
  split
  · exact .same k g
  -- only a pipe leaves traces
  have hoth : pipeOp (p.fdTypes ⟨fd, hfd⟩) = none → ∀ r,
      FileCall H k g k (k.noteCall g pid (.write dev fd bufPtr count) r) := by
    intro hop r
    rw [noteCall_write_other hfd hp hop]
    exact .same k g
  split
  case h_6 =>
    rename_i ht
    exact files_writePipe hfd hp ht
  case h_7 =>
    rename_i ht
    split <;> exact hoth (by rw [ht]; rfl) _
  all_goals
    rename_i ht
    exact hoth (by rw [ht]; rfl) _

/-! ## The other calls -/

lemma files_reapZombie {slot : Pid} (h : k.reapZombie slot = .ok k') : FileCall H k g k' g := by
  cases hp : k.procs slot with
  | none =>
    simp only [reapZombie, hp] at h
    rw [Except.ok.inj h]
    exact .same k' g
  | some p =>
    obtain ⟨s, rfl⟩ := reapZombie_eq hp h
    have hstep := World.Step.reap (H := H) (w := k.world g) (world_rows hp)
    exact .of_step rfl hstep

lemma files_reapAll {pids : List Nat} (h : reapAll pids k = .ok k') : FileCall H k g k' g := by
  induction pids generalizing k with
  | nil =>
    cases h
    exact .same k' g
  | cons pid pids ih =>
    rw [reapAll] at h
    split at h
    · cases h
    split at h
    · cases h
    · rename_i k1 hreap
      exact Relation.ReflTransGen.trans (files_reapZombie hreap) (ih h)

lemma Remapped.files {R : Machine → Nat → List (Nat × Nat) → Prop}
    (hcur : k.current = some (pid, p)) (h : Remapped k pid p R k') : FileCall H k g k' g := by
  obtain ⟨s, prng, heapStart, heapEnd, regions, -, rfl⟩ := h
  apply FileCall.of_eq
  exact world_setProc_same (k := { k with machine := s, prng := prng })
    (procs_of_current hcur) rfl

section

variable (htidy : k.table.Tidy) (hcur : k.current = some (pid, p))

include htidy hcur

lemma files_sysExec (h : k.sysExec M file = .ok (r, k')) : FileCall H k g k' g := by
  obtain ⟨hcl, haft⟩ := closeOnExec_of_tidy htidy hcur
  apply FileCall.of_eq
  obtain ⟨k0, p0, s, prng, hk0, hp0, -, ⟨-, -, hk'⟩ | ⟨elf, pml4, entry, top, -, -, -, hk'⟩⟩ :=
    sysExec_result hcur h
  · rw [hk', hk0, hcl]
    rfl
  rw [hk', hk0, hp0, hcl, haft]
  exact world_setProc_same (k := { k with machine := s, prng := prng, cr3 := pml4 })
    (procs_of_current hcur) rfl

lemma files_sysExecve {argv : List (List Byte)} (h : k.sysExecve M file argv = .ok (r, k')) :
    FileCall H k g k' g := by
  obtain ⟨hcl, haft⟩ := closeOnExec_of_tidy htidy hcur
  apply FileCall.of_eq
  obtain ⟨k0, p0, s, prng, hk0, hp0, -, ⟨-, -, hk'⟩ |
    ⟨elf, pml4, entry, top, -, -, ⟨-, -, hk'⟩ | ⟨-, -, hk'⟩⟩⟩ := sysExecve_result hcur h
  · rw [hk', hk0, hcl]
    rfl
  · rw [hk', hk0, hcl]
    rfl
  rw [hk', hk0, hp0, hcl, haft]
  exact world_setProc_same (k := { k with machine := _, prng := prng })
    (procs_of_current hcur) rfl

lemma files_handle {call : Syscall} (hH : ∀ d, callDoes pid call d → H (k.world g) d)
    (h : k.handle M call = .ok (r, k')) : FileCall H k g k' (k.noteCall g pid call r) := by
  -- a call that cannot halt the kernel
  have hok : ∀ {x : SysResult × Kernel}, FileCall H k g x.2 (k.noteCall g pid call x.1) →
      (Except.ok x : CallOutcome) = .ok (r, k') →
      FileCall H k g k' (k.noteCall g pid call r) := by
    intro x hx heq
    rw [Except.ok.inj heq] at hx
    exact hx
  cases call with
  | read dev fd bufPtr count => exact hok files_sysRead h
  | write dev fd bufPtr count => exact hok (files_sysWrite hcur) h
  | openFile file flags => exact hok (files_sysOpen hcur fun obj hobj => hH _ hobj) h
  | close n => exact hok (files_sysClose hcur fun fd hfd => hH _ ⟨rfl, hfd⟩) h
  | pipe => exact hok (files_sysPipe hcur) h
  | dup n => exact hok (files_sysDup hcur (hH .retains trivial)) h
  | dup2 oldfd newfd => exact hok (files_sysDup2 hcur (hH .retains trivial)) h
  | fork stack extraStack => exact files_sysFork hcur (hH .retains trivial) h
  | exec file => exact files_sysExec htidy hcur h
  | execve file argv => exact files_sysExecve htidy hcur h
  | exit code => exact hok (x := (.ok 0, _)) (.of_undisturbed (undisturbed_sysExitCall k code)) h
  | waitpid childPid flags =>
    cases waits_sysWaitpid h with
    | same => exact .same k g
    | block reason => exact .of_undisturbed (undisturbed_block k reason)
    | reap _ _ hreap => exact files_reapZombie hreap
  | sleep ticks => exact hok (x := (.ok 0, _)) (.of_undisturbed (undisturbed_block k _)) h
  | yield => exact hok (x := (.ok 0, k.sysYield)) (.of_undisturbed (.of_tables rfl rfl)) h
  | kill target signum => exact hok (.of_undisturbed (undisturbed_sysKill k target signum)) h
  | sigaction signum handler ptr =>
    obtain rfl | ⟨s, pid, p, handlers, -, hp, rfl⟩ := sysSigaction_cases h
    · exact .same k' g
    · exact .of_eq (world_setProc_same (k := { k with machine := s }) hp rfl)
  | setpgid target pgid => exact hok (.of_undisturbed (undisturbed_sysSetpgid k target pgid)) h
  | getpgid target => exact hok (x := (k.sysGetpgid target, k)) (FileCall.same k g) h
  | brk newBrk => exact (sysBrk_cases hcur h).files hcur
  | mmap length => exact (sysMmap_cases hcur h).files hcur
  | munmap addr length => exact (sysMunmap_cases hcur h).files hcur

end

/-! ## Events -/

lemma plain_kernelRow : Row.Plain ⟨fun _ => .none, fun _ => none⟩ where
  files fd index := by rintro ⟨⟩
  pipes _ := rfl
  handles _ := rfl

lemma plain_userRow : Row.Plain ⟨fun fd => if fd.val = 0 then .stdin else if fd.val = 1 then .stdout
    else if fd.val = 2 then .stderr else .none, fun _ => none⟩ where
  files fd index := by
    dsimp only
    split_ifs <;> rintro ⟨⟩
  pipes fd := by
    dsimp only
    split_ifs <;> rfl
  handles _ := rfl

lemma FileCall.spawn {slot : Pid} {q : Process} (hfree : k.procs slot = none)
    (hprs : k'.procs = update k.procs slot (some q)) (hpip : k'.pipes = k.pipes)
    (hpln : q.row.Plain) : FileCall H k g k' g := by
  refine .of_step hprs ?_
  have hrow : (k.world g).rows slot = none := by simp [world, hfree]
  have hstep := World.Step.spawn (H := H) hrow hpln
  rw [hpip]
  exact hstep

lemma files_spawnUserSlot (k : Kernel) (rip rsp pml4 : Nat) (parent stack : Option Nat) :
    FileCall H k g (k.spawnUserSlot rip rsp pml4 parent stack).2 g := by
  unfold spawnUserSlot
  split
  · exact .same k g
  rename_i slot hslot
  cases stack with
  | none => exact .of_undisturbed (.of_tables rfl rfl)
  | some base => exact .spawn (freeSlot_cases hslot).1 rfl rfl plain_userRow

lemma files_spawnUser {elf : List Byte} {parent : Option Nat} {r : Option Pid}
    (h : k.spawnUser M elf parent stack = .ok (r, k')) : FileCall H k g k' g := by
  obtain ⟨pml4, s1, b, s2, prng, -, -, -, ⟨-, -, s3, -, rfl⟩ | ⟨-, rip, rsp, hslot⟩⟩ :=
    spawnUser_cases h
  · exact .of_undisturbed (.of_tables rfl rfl)
  have hsp : FileCall H { k with machine := s2, prng := prng } g
      (({ k with machine := s2, prng := prng } : Kernel).spawnUserSlot
        rip rsp pml4 parent stack).2 g :=
    files_spawnUserSlot _ rip rsp pml4 parent stack
  rw [hslot] at hsp
  exact hsp

/-- Every event of the kernel is a sequence of steps of the world of open files. -/
lemma Steps.files {ev : Event} (htidy : k.table.Tidy) (hH : ∀ d, k.does ev d → H (k.world g) d)
    (h : k.Steps M ev k') : World.Steps H (k.world g) (k'.world (k.note M g ev)) := by
  obtain ⟨hcan, hre⟩ := h
  have hund : Undisturbed k k' → World.Steps H (k.world g) (k'.world g) :=
    fun hk => FileCall.of_undisturbed hk
  -- ticks, keys and faults leave descriptors alone
  cases ev with
  | spawnIdle stack =>
    simp only [canHappen, Bool.and_eq_true, isNone_iff_eq_none] at hcan
    simp only [react, spawnIdle] at hre
    split at hre
    · cases hre
    · cases hre
      exact FileCall.spawn hcan.2 rfl rfl plain_kernelRow
  | spawnKernel stack =>
    change FileCall H k g k' g
    cases hre
    unfold spawnKernel
    split
    · exact .same k g
    rename_i slot hslot
    split
    · exact .of_undisturbed (.of_tables rfl rfl)
    · exact .spawn (freeSlot_cases hslot).1 rfl rfl plain_kernelRow
  | spawnUser elf parent stack =>
    obtain ⟨r, hsp⟩ := map_snd_eq_ok.mp hre
    exact files_spawnUser hsp
  | spawnInit elf stack =>
    simp only [react, spawnInit] at hre
    split at hre
    · cases hre
    · rename_i slot k1 hsp
      cases hre
      have hfs : FileCall H k g k1 g := files_spawnUser hsp
      exact hfs
    rename_i k1 hsp
    cases hre
    exact files_spawnUser hsp
  | timer savedRsp frame =>
    obtain ⟨sp, htick⟩ := map_snd_eq_ok.mp hre
    exact hund ((undisturbed_enter k frame).trans (undisturbed_timerTick htick))
  | key signal =>
    apply hund
    cases hre
    exact undisturbed_sendSignalToFg k signal
  | line =>
    apply hund
    cases hre
    exact .of_tables rfl rfl
  | syscall savedRsp frame call =>
    obtain ⟨pid, p, hcur, -⟩ := userRunning_iff.mp hcan
    obtain ⟨p', hcur', -⟩ := enter_current hcur frame
    have hpid := (current_eq_some.mp hcur).1
    simp only [react, syscall] at hre
    split at hre
    · cases hre
    rename_i r k1 hhdl
    simp only [note, hpid, hhdl]
    have hentered : (k.enter frame).world g = k.world g := (undisturbed_enter k frame).world
    have hcall := files_handle (g := g) (by rw [table_enter]; exact htidy) hcur'
      (fun d hd => by rw [hentered]; exact hH d ⟨pid, hpid, hd⟩) hhdl
    unfold FileCall at hcall
    rw [hentered] at hcall
    rw [(undisturbed_finishCall hre).world]
    exact hcall
  | fault => exact hund (undisturbed_fatalFault hre)
  | store va b => exact hund (undisturbed_storeByte hre)
  | initRound => exact files_reapAll hre

end Kernel

end Indominus.Sys
