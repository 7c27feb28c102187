import Indominus.Files.Handles
import Indominus.Sys.PipeFifo

/-!
# Descriptors and open files

Slots are reused and tables copied; still every descriptor leads to the open file of its own
`sys_open`.
-/

namespace Indominus.Sys

open Lib Memory

namespace World

/-! ## The invariant -/

/-- There is a descriptor whose slot holds `o` and that stems from call `t`. -/
def Entry (w : World) (o : Option Nat) (t : Nat) : Prop :=
  ∃ pid row fd n, w.rows pid = some row ∧ row.fds fd = .fsFile n ∧ o = row.handleAt n ∧
    t = w.tag pid.val fd.val

/-- Every descriptor leads to the open file of its own call, and no two calls in use have made the
same open file. -/
structure Rooted (w : World) : Prop where
  holds : ∀ o t, w.Entry o t → o = some (w.made t) ∧ t < w.next
  distinct : ∀ o t o' t', w.Entry o t → w.Entry o' t' → w.made t = w.made t' → t = t'

def FreshFile (w : World) : Deed → Prop
  | .opens obj => ∀ pid row n, w.rows pid = some row → row.handleAt n ≠ some obj
  | _ => True

variable {w w' : World}

lemma Rooted.of_entries (h : w.Rooted) (hents : ∀ o t, w'.Entry o t → w.Entry o t)
    (hmade : w'.made = w.made) (hnext : w.next ≤ w'.next) : w'.Rooted where
  holds o t he := by
    obtain ⟨ho, ht⟩ := h.holds o t (hents o t he)
    rw [hmade]
    exact ⟨ho, ht.trans_le hnext⟩
  distinct o t o' t' he he' heq := by
    rw [hmade] at heq
    exact h.distinct o t o' t' (hents o t he) (hents o' t' he') heq

lemma entry_iff {o : Option Nat} {t : Nat} : w.Entry o t ↔ ∃ n, w.Sees (.fsFile n) o t := by
  constructor
  · rintro ⟨pid, row, fd, n, hrow, hfd, ho, ht⟩
    exact ⟨n, pid, row, fd, hrow, hfd, ho, ht⟩
  · rintro ⟨n, pid, row, fd, hrow, hfd, ho, ht⟩
    exact ⟨pid, row, fd, n, hrow, hfd, ho, ht⟩

/-! ## Steps -/

lemma Rooted.openFile (h : w.Rooted) {pid : Pid} {row : Row} {fd : Fd}
    {slot : Fin MAX_FILE_HANDLES} {obj : Nat} (hrow : w.rows pid = some row)
    (hslot : row.handles slot = none) (hfr : w.FreshFile (.opens obj))
    (hrows : w'.rows = Function.update w.rows pid (some (row.take fd slot obj)))
    (htag : w'.tag = (w.setTag pid.val fd.val w.next).tag) (hnext : w'.next = w.next + 1)
    (hmade : w'.made = Function.update w.made w.next obj) : w'.Rooted := by
  -- an entry is the new one, or an old one
  have hent : ∀ o t, w'.Entry o t → (o = some obj ∧ t = w.next) ∨ w.Entry o t := by
    intro o t he
    obtain ⟨n, hs⟩ := entry_iff.mp he
    obtain ⟨ho, ht, -⟩ | hold | ⟨-, hdangling⟩ := hs.of_openFile hrow hrows htag
    · exact .inl ⟨ho, ht⟩
    · exact .inr (entry_iff.mpr ⟨n, hold⟩)
    -- the slot was free, and no descriptor refers to a free slot
    have hsome := (h.holds _ _ (entry_iff.mpr ⟨n, hdangling⟩)).1
    rw [hslot] at hsome
    cases hsome
  have hmade_old : ∀ o t, w.Entry o t → w'.made t = w.made t ∧ t < w.next := by
    intro o t he
    have hlt := (h.holds o t he).2
    exact ⟨by rw [hmade, Function.update_of_ne hlt.ne], hlt⟩
  have hmade_new : w'.made w.next = obj := by rw [hmade, Function.update_self]
  -- the new open file is in no slot
  have hoth : ∀ o t, w.Entry o t → w.made t ≠ obj := by
    intro o t he heq
    obtain ⟨i, row', fd', n, hrow', -, ho, -⟩ := id he
    have hsome := (h.holds o t he).1
    rw [ho, heq] at hsome
    exact hfr i row' n hrow' hsome
  refine ⟨fun o t he => ?_, fun o t o' t' he he' heq => ?_⟩
  · rcases hent o t he with ⟨rfl, rfl⟩ | hold
    · rw [hmade_new, hnext]
      exact ⟨rfl, Nat.lt_succ_self _⟩
    obtain ⟨hm, hlt⟩ := hmade_old o t hold
    rw [hm, hnext]
    exact ⟨(h.holds o t hold).1, hlt.trans (Nat.lt_succ_self _)⟩
  rcases hent o t he with ⟨-, rfl⟩ | hold <;> rcases hent o' t' he' with ⟨-, rfl⟩ | hold'
  · rfl
  · rw [hmade_new, (hmade_old o' t' hold').1] at heq
    exact absurd heq.symm (hoth o' t' hold')
  · rw [hmade_new, (hmade_old o t hold).1] at heq
    exact absurd heq (hoth o t hold)
  · rw [(hmade_old o t hold).1, (hmade_old o' t' hold').1] at heq
    exact h.distinct o t o' t' hold hold' heq

lemma Rooted.step (h : w.Rooted) (hstep : Step FreshFile w w') : w'.Rooted := by
  -- most steps leave every descriptor where it was
  have hqt : w'.next = w.next → w'.made = w.made → w'.Rooted := by
    intro hnext hmade
    refine h.of_entries (fun o t he => ?_) hmade hnext.ge
    obtain ⟨n, hs⟩ := entry_iff.mp he
    exact entry_iff.mpr ⟨n, hstep.sees hnext (.inl ⟨n, rfl⟩) hs⟩
  cases hstep with
  | openFile hrow _ hslot hH => exact h.openFile hrow hslot hH rfl rfl rfl rfl
  | pipe hrow _ _ _ _ =>
    refine h.of_entries (fun o t he => ?_) rfl (Nat.le_succ _)
    obtain ⟨n, hs⟩ := entry_iff.mp he
    obtain ⟨-, writable, hkind⟩ | hold := hs.of_pipe hrow rfl rfl
    · cases hkind
    · exact entry_iff.mpr ⟨n, hold⟩
  | _ => exact hqt rfl rfl

end World

namespace Kernel

variable {M : Mapper} {k k' k0 : Kernel} {g g' g0 : Notes} {pid : Pid} {p : Process}

/-! ## Runs -/

/-- The open file that `Arc::new` has just made is not one of those that are in use. -/
def FreshFile (k : Kernel) : Event → Prop
  | .syscall _ _ (.openFile (.ok obj) _) => ∀ i, ∀ q ∈ k.procs i, ∀ n, q.fileHandles n ≠ some obj
  | _ => True

instance (k : Kernel) (ev : Event) : Decidable (k.FreshFile ev) := by
  induction ev using Event.casesOn with
  | syscall savedRsp frame call =>
    induction call using Syscall.casesOn with
    | openFile file flags =>
      induction file using Except.casesOn <;> dsimp only [FreshFile] <;> infer_instance
    | _ => dsimp only [FreshFile]; infer_instance
  | _ => dsimp only [FreshFile]; infer_instance

variable {ev : Event} {cond : Kernel → Event → Prop}

lemma FreshFile.permits (h : k.FreshFile ev) {d : Deed} (hd : k.does ev d) :
    (k.world g).FreshFile d := by
  cases ev with
  | syscall savedRsp frame call =>
    obtain ⟨cur, -, hdoes⟩ := hd
    cases call with
    | openFile file flags =>
      cases d with
      | opens obj =>
        obtain rfl := hdoes
        intro i row n hrow heq
        obtain ⟨q, hq, rfl⟩ := Option.map_eq_some_iff.mp hrow
        unfold Row.handleAt at heq
        split at heq
        · exact h i q hq _ heq
        · cases heq
      | _ => trivial
    | _ => cases d <;> trivial
  | _ => exact hd.elim

lemma Steps.rooted (htidy : k.table.Tidy) (hfr : k.FreshFile ev) (hrtd : (k.world g).Rooted)
    (h : k.Steps M ev k') : (k'.world (k.note M g ev)).Rooted := by
  have hfs := h.files (g := g) htidy fun d hd => hfr.permits hd
  exact hfs.invariant (fun _ _ hI hstep => World.Rooted.step hI hstep) hrtd

lemma Runs.noted (g0 : Notes) (h : Runs M cond k0 k) : ∃ g, NotedRuns M cond (k0, g0) (k, g) := by
  induction h with
  | refl => exact ⟨g0, .refl⟩
  | @tail k1 k2 _ hstep ih =>
    obtain ⟨g, hg⟩ := ih
    obtain ⟨ev, hcond, hsts⟩ := hstep
    exact ⟨k1.note M g ev, .tail hg ⟨ev, hcond, hsts, rfl⟩⟩

lemma NotedRuns.runs (h : NotedRuns M cond (k0, g0) (k, g)) : Runs M cond k0 k := by
  refine Relation.ReflTransGen.lift Prod.fst ?_ _ _ h
  rintro x y ⟨ev, hcond, hsts, -⟩
  exact ⟨ev, hcond, hsts⟩

/-- The rule for whole runs: what every step keeps holds at the end. -/
lemma NotedRuns.invariant {I : World → Prop} (hbl : k0.Blank) (hst : I (k0.world g0))
    (hstep : ∀ k k' g ev, k.table.Tidy → cond k ev → I (k.world g) → k.Steps M ev k' →
      I (k'.world (k.note M g ev))) (h : NotedRuns M cond (k0, g0) (k, g)) : I (k.world g) := by
  obtain ⟨x, hx⟩ : ∃ x, x = (k, g) := ⟨_, rfl⟩
  rw [← hx] at h
  suffices hI : I (x.1.world x.2) by rw [hx] at hI; exact hI
  clear hx
  induction h with
  | refl => exact hst
  | @tail y z hprev hlast ih =>
    obtain ⟨ev, hcond, hsts, hnote⟩ := hlast
    have htidy := (Runs.sound hbl (NotedRuns.runs (k := y.1) (g := y.2) hprev)).1.tidy
    rw [hnote]
    exact hstep y.1 z.1 y.2 ev htidy hcond ih hsts

/-! ## Reading, writing and seeking -/

/-- `sys_lseek`; `seek` is `File::seek` on an open file. -/
def sysLseek (seek : (handle offset : Nat) → Except Errno Unit) (k : Kernel) (fd offset : Nat) :
    SysResult :=
  if h : fd < MAX_FDS then
    match k.current with
    | none => .error .ESRCH
    | some (_, p) =>
      match p.fdTypes ⟨fd, h⟩ with
      | .fsFile index =>
        match handleAt p index with
        | none => .error .EBADF
        | some handle =>
          match seek handle offset with
          | .error e => .error e
          | .ok () => .ok offset
      | _ => .error .EINVAL
  else .error .EBADF

structure ActsOn (k : Kernel) (p : Process) (fd : Fd) (obj : Nat) : Prop where
  seek : ∀ seek offset, sysLseek seek k fd.val offset = (seek obj offset).map fun _ => offset
  read : ∀ dev bufPtr count, k.GoodBuffer p bufPtr count →
    (sysRead dev k fd.val bufPtr count).ret = (dev.fileRead obj count).map List.length ∧
      (sysRead dev k fd.val bufPtr count).delivered = (dev.fileRead obj count).toOption.getD []
  write : ∀ dev bufPtr count, k.GoodBuffer p bufPtr count →
    (sysWrite dev k fd.val bufPtr count).1 =
      dev.fileWrite obj (loadBytes k.machine.ram k.cr3 bufPtr count)

lemma actsOn_of_handleAt {fd : Fd} {index obj : Nat} (hcur : k.current = some (pid, p))
    (hfd : p.fdTypes fd = .fsFile index) (hobj : handleAt p index = some obj) :
    k.ActsOn p fd obj where
  seek seek offset := by
    simp only [sysLseek, fd.isLt, dite_true, hcur, hfd, hobj]
    cases seek obj offset <;> rfl
  read dev bufPtr count hbuf := by
    simp only [sysRead, fd.isLt, dite_true, hbuf.count_ne, hbuf.valid, hbuf.mapped, hcur, hfd, hobj,
      if_false, not_true_eq_false]
    cases dev.fileRead obj count <;> exact ⟨rfl, rfl⟩
  write dev bufPtr count hbuf := by
    simp [sysWrite, hbuf.count_ne, hbuf.valid, hbuf.mapped, hcur, hfd, hobj]

/-- **Descriptors are never crossed** in runs in which a new open file differs from those in use:
every descriptor of a file leads to the open file of its own `sys_open`, and two lead to the same
one iff they stem from the same call. -/
theorem NotedRuns.open_files (hblank : k0.Blank) (h : NotedRuns M FreshFile (k0, g0) (k, g)) :
    (∀ pid p fd index, k.procs pid = some p → p.fdTypes fd = .fsFile index →
      handleAt p index = some (g.made (g.tag pid.val fd.val)) ∧
      (k.currentPid = some pid → k.ActsOn p fd (g.made (g.tag pid.val fd.val)))) ∧
    ∀ pid p fd index pid' p' fd' index', k.procs pid = some p → p.fdTypes fd = .fsFile index →
      k.procs pid' = some p' → p'.fdTypes fd' = .fsFile index' →
      (handleAt p index = handleAt p' index' ↔ g.tag pid.val fd.val = g.tag pid'.val fd'.val) := by
  have hrtd : (k.world g).Rooted := by
    refine NotedRuns.invariant hblank ?_ (fun k k' g ev htidy hcond hI hsts =>
      hsts.rooted htidy hcond hI) h
    -- an empty table has no descriptors
    have hnone : ∀ o t, ¬ (k0.world g0).Entry o t := by
      rintro o t ⟨i, row, fd, n, hrow, -⟩
      simp only [world, hblank.procs, Option.map_none] at hrow
      cases hrow
    exact ⟨fun o t he => absurd he (hnone o t), fun o t o' t' he => absurd he (hnone o t)⟩
  have hent : ∀ pid p fd index, k.procs pid = some p → p.fdTypes fd = .fsFile index →
      (k.world g).Entry (handleAt p index) (g.tag pid.val fd.val) := fun pid p fd index hp hfd =>
    ⟨pid, p.row, fd, index, world_rows hp, hfd, rfl, rfl⟩
  refine ⟨?_, ?_⟩
  · intro pid p fd index hp hfd
    have hobj := (hrtd.holds _ _ (hent pid p fd index hp hfd)).1
    refine ⟨hobj, fun hpid => ?_⟩
    exact actsOn_of_handleAt (current_eq_some.mpr ⟨hpid, hp⟩) hfd hobj
  intro pid p fd index pid' p' fd' index' hp hfd hp' hfd'
  have he := hent pid p fd index hp hfd
  have he' := hent pid' p' fd' index' hp' hfd'
  constructor
  · intro heq
    rw [(hrtd.holds _ _ he).1, (hrtd.holds _ _ he').1] at heq
    exact hrtd.distinct _ _ _ _ he he' (Option.some.inj heq)
  · intro heq
    rw [(hrtd.holds _ _ he).1, (hrtd.holds _ _ he').1, heq]

/-- Two descriptors of one `sys_open` share an open file, the third has its own. -/
theorem NotedRuns.open_files_two : ∃ k g pid p,
    NotedRuns referenceMapper FreshFile (emptyKernel, ⟨0, fun _ _ => 0, fun _ => 0,
      fun _ _ => none⟩)
      (k, g) ∧ k.current = some (pid, p) ∧ g.tag pid.val 3 = g.tag pid.val 4 ∧
      g.tag pid.val 3 ≠ g.tag pid.val 5 := by
  have hpl : plays referenceMapper FreshFile
      (startEvents ++ [openEvent, call (.dup 3), call (.openFile (.ok 8) 2)]) emptyKernel
      (currentMeets fun p => decide (p.fdTypes ⟨3, by decide⟩ = .fsFile 0 ∧
        p.fdTypes ⟨4, by decide⟩ = .fsFile 0 ∧ p.fdTypes ⟨5, by decide⟩ = .fsFile 1 ∧
        handleAt p 0 ≠ handleAt p 1)) = true := by
    decide +kernel
  obtain ⟨k, hruns, htest⟩ := runs_of_plays hpl
  obtain ⟨g, hnoted⟩ := Runs.noted ⟨0, fun _ _ => 0, fun _ => 0, fun _ _ => none⟩ hruns
  obtain ⟨pid, p, hcur, hp⟩ := current_of_meets htest
  obtain ⟨h3, h4, h5, hne⟩ := of_decide_eq_true hp
  have hproc := procs_of_current hcur
  have hshare := (NotedRuns.open_files emptyKernel_blank hnoted).2
  exact ⟨k, g, pid, p, hnoted, hcur, (hshare _ _ _ _ _ _ _ _ hproc h3 hproc h4).mp rfl,
    fun heq => hne ((hshare _ _ _ _ _ _ _ _ hproc h3 hproc h5).mpr heq)⟩

end Kernel

end Indominus.Sys
