import Indominus.Sys.PipeRefs

/-!
# Descriptors, open files and pipes

The descriptor tables and the pipe table, with notes about which call each descriptor stems from.
-/

namespace Indominus.Sys

open Lib Memory Kernel Function

/-! ## Layer A: one process -/

@[ext]
structure Row where
  /-- `fd_types`. -/
  fds : Fd → FdType
  handles : Fin MAX_FILE_HANDLES → Option Nat

def Process.row (p : Process) : Row := ⟨p.fdTypes, p.fileHandles⟩

namespace Row

variable {r : Row} {fd fd' : Fd} {t : FdType} {n : Nat}

def handleAt (r : Row) (index : Nat) : Option Nat :=
  if h : index < MAX_FILE_HANDLES then r.handles ⟨index, h⟩ else none

def point (r : Row) (fd : Fd) (t : FdType) : Row := { r with fds := update r.fds fd t }

/-- The open file of a descriptor is dropped, unless another descriptor refers to it. -/
def release (r : Row) (fd : Fd) : Row :=
  { r with
    handles :=
      match r.fds fd with
      | .fsFile index =>
        if h : index < MAX_FILE_HANDLES then
          if stillReferenced r.fds fd index then r.handles
          else update r.handles ⟨index, h⟩ none
        else r.handles
      | _ => r.handles }

def take (r : Row) (fd : Fd) (slot : Fin MAX_FILE_HANDLES) (obj : Nat) : Row :=
  ⟨update r.fds fd (.fsFile slot.val), update r.handles slot (some obj)⟩

structure Plain (r : Row) : Prop where
  files : ∀ fd index, r.fds fd ≠ .fsFile index
  pipes : ∀ fd, pipeOp (r.fds fd) = none
  handles : ∀ i, r.handles i = none

lemma handleAt_val (r : Row) (i : Fin MAX_FILE_HANDLES) : r.handleAt i.val = r.handles i := by
  simp [handleAt]

lemma point_fds (fd' : Fd) : (r.point fd t).fds fd' = if fd' = fd then t else r.fds fd' := by
  simp only [point, update_apply]

@[simp] lemma point_handleAt : (r.point fd t).handleAt n = r.handleAt n := rfl

@[simp] lemma release_fds : (r.release fd).fds = r.fds := rfl

variable {slot : Fin MAX_FILE_HANDLES} {obj : Nat}

lemma take_fds (fd' : Fd) :
    (r.take fd slot obj).fds fd' = if fd' = fd then .fsFile slot.val else r.fds fd' := by
  simp only [take, update_apply]

lemma take_handleAt (n : Nat) :
    (r.take fd slot obj).handleAt n = if n = slot.val then some obj else r.handleAt n := by
  unfold handleAt take
  split
  · simp only [update_apply, Fin.ext_iff]
  rename_i hn
  rw [if_neg]
  rintro rfl
  exact hn slot.isLt

lemma stillReferenced_iff {fds : Fd → FdType} :
    stillReferenced fds fd n = true ↔ ∃ fd', fd' ≠ fd ∧ fds fd' = .fsFile n := by
  simp [stillReferenced]

lemma release_handleAt (r : Row) (fd : Fd) (n : Nat) : (r.release fd).handleAt n =
      if r.fds fd = .fsFile n ∧ ¬ ∃ fd', fd' ≠ fd ∧ r.fds fd' = .fsFile n then none
      else r.handleAt n := by
  cases hfd : r.fds fd with
  | fsFile index =>
    unfold handleAt release
    simp only [hfd, FdType.fsFile.injEq]
    rcases eq_or_ne index n with rfl | hne
    · simp only [true_and, ← stillReferenced_iff]
      by_cases hlt : index < MAX_FILE_HANDLES
      · by_cases href : stillReferenced r.fds fd index = true <;> simp [hlt, href]
      · simp [hlt]
    simp only [hne, false_and, if_false]
    split
    · split
      · split
        · rfl
        · rw [update_of_ne]
          simpa [Fin.ext_iff] using hne.symm
      · rfl
    · rfl
  | _ => simp [handleAt, release, hfd]

/-- What is in the slot of a descriptor of this kind. -/
def behind (r : Row) : FdType → Option Nat
  | .fsFile index => r.handleAt index
  | _ => none

lemma point_behind {t' : FdType} : (r.point fd t).behind t' = r.behind t' := by
  cases t' <;> rfl

lemma take_behind (hne : t ≠ .fsFile slot.val) : (r.take fd slot obj).behind t = r.behind t := by
  cases t with
  | fsFile n =>
    simp only [behind]
    rw [take_handleAt, if_neg]
    rintro rfl
    exact hne rfl
  | _ => rfl

lemma release_behind (hne : fd' ≠ fd) (hfd' : r.fds fd' = t) :
    (r.release fd).behind t = r.behind t := by
  cases t with
  | fsFile n =>
    simp only [behind]
    rw [release_handleAt, if_neg]
    rintro ⟨-, hnone⟩
    exact hnone ⟨fd', hne, hfd'⟩
  | _ => rfl

lemma Plain.handleAt (h : r.Plain) (n : Nat) : r.handleAt n = none := by
  unfold Row.handleAt
  split
  · exact h.handles _
  · rfl

end Row

/-! ## Layer B: notes -/

/-- Notes about past calls; those that open a file or make a pipe are numbered. -/
structure Notes where
  next : Nat
  tag : Nat → Nat → Nat
  made : Nat → Nat
  /-- The call whose descriptor wrote the byte in each cell of each pipe. -/
  shadow : PipeIdx → Nat → Option Nat

namespace Notes

def setTag (g : Notes) (pid fd t : Nat) : Notes :=
  { g with tag := update g.tag pid (update (g.tag pid) fd t) }

lemma setTag_tag (g : Notes) (pid fd t pid' fd' : Nat) :
    (g.setTag pid fd t).tag pid' fd' = if pid' = pid ∧ fd' = fd then t else g.tag pid' fd' := by
  simp only [setTag, update_apply]
  by_cases hpid : pid' = pid
  · by_cases hfd : fd' = fd <;> simp [hpid, hfd]
  · simp [hpid]

/-- The cells of a ring after `n` bytes were written from position `start` on. -/
def taint (cells : Nat → Option Nat) (start n t : Nat) : Nat → Option Nat := fun c =>
  if ∃ j < n, c = (start + j) % PIPE_SIZE then some t else cells c

end Notes

/-! ## Layer C: the system -/

/-- All descriptor tables, the pipes, and the notes. -/
structure World extends Notes where
  rows : Pid → Option Row
  pipes : PipeSlots

inductive Deed
  | opens (obj : Nat)
  | closes (pid : Pid) (fd : Fd)
  | retains

namespace World

/-- The pipe table after a descriptor was closed by `sys_close`. -/
def closeFd (pipes : PipeSlots) (t : FdType) : PipeSlots :=
  match pipeOp t with
  | none => pipes
  | some (i, writable) => closePipe pipes i writable

/-- The pipe table after a descriptor was replaced by `sys_dup2`. -/
def replaceFd (pipes : PipeSlots) (old new : FdType) : PipeSlots :=
  PipeWorld.retainEnd (PipeWorld.closeEnd pipes (pipeOp new)) (pipeOp old)

/-- The steps of the system.  `H` says which deeds are allowed. -/
inductive Step (H : World → Deed → Prop) (w : World) : World → Prop
  /-- `sys_open`. -/
  | openFile {pid : Pid} {row : Row} {fd : Fd} {slot : Fin MAX_FILE_HANDLES} {obj : Nat}
      (hrow : w.rows pid = some row) (hfd : row.fds fd = .none) (hslot : row.handles slot = none)
      (hH : H w (.opens obj)) :
      Step H w
        { w.setTag pid.val fd.val w.next with
          next := w.next + 1
          made := update w.made w.next obj
          rows := update w.rows pid (some (row.take fd slot obj))
          pipes := w.pipes }
  | close {pid : Pid} {row : Row} {fd : Fd} (hrow : w.rows pid = some row)
      (hfd : row.fds fd ≠ .none) (hH : H w (.closes pid fd)) :
      Step H w
        { w with
          rows := update w.rows pid (some (row.point fd .none))
          pipes := closeFd w.pipes (row.fds fd) }
  | dup {pid : Pid} {row : Row} {old new : Fd} (hrow : w.rows pid = some row)
      (hold : row.fds old ≠ .none) (hnew : row.fds new = .none) (hH : H w .retains) :
      Step H w
        { w.setTag pid.val new.val (w.tag pid.val old.val) with
          rows := update w.rows pid (some (row.point new (row.fds old)))
          pipes := PipeWorld.retainEnd w.pipes (pipeOp (row.fds old)) }
  /-- `sys_dup` of a pipe without a free descriptor. -/
  | lose {i : PipeIdx} (hH : H w .retains) : Step H w { w with pipes := retainPipe w.pipes i }
  | dup2 {pid : Pid} {row : Row} {old new : Fd} (hrow : w.rows pid = some row) (hne : old ≠ new)
      (hold : row.fds old ≠ .none) (hH : H w .retains) :
      Step H w
        { w.setTag pid.val new.val (w.tag pid.val old.val) with
          rows := update w.rows pid (some ((row.release new).point new (row.fds old)))
          pipes := replaceFd w.pipes (row.fds old) (row.fds new) }
  | pipe {pid : Pid} {row : Row} {rd wr : Fd} {i : PipeIdx} (hrow : w.rows pid = some row)
      (hfree : w.pipes i = none) (hne : rd ≠ wr) (hrd : row.fds rd = .none)
      (hwr : row.fds wr = .none) :
      Step H w
        { (w.setTag pid.val rd.val w.next).setTag pid.val wr.val w.next with
          next := w.next + 1
          shadow := update w.shadow i fun _ => none
          rows := update w.rows pid
            (some ((row.point rd (.pipe i.val false)).point wr (.pipe i.val true)))
          pipes := update w.pipes i (some Pipe.new) }
  | fork {parent child : Pid} {row : Row} (hrow : w.rows parent = some row)
      (hchild : w.rows child = none) (hH : H w .retains) :
      Step H w
        { w with
          tag := update w.tag child.val (w.tag parent.val)
          rows := update w.rows child (some row)
          pipes := retainAll w.pipes row.fds }
  | spawn {pid : Pid} {row : Row} (hfree : w.rows pid = none) (hplain : row.Plain) :
      Step H w { w with rows := update w.rows pid (some row) }
  | reap {pid : Pid} {row : Row} (hrow : w.rows pid = some row) :
      Step H w
        { w with
          rows := update w.rows pid none
          pipes := closePipes w.pipes ((List.finRange MAX_FDS).filterMap fun fd =>
            pipeOp (row.fds fd)) }
  | read {i : PipeIdx} {p p' : Pipe} {bs : List Byte} {count : Nat} (hp : w.pipes i = some p)
      (hread : p.read count = .bytes bs p') :
      Step H w { w with pipes := update w.pipes i (some p') }
  | write {pid : Pid} {row : Row} {fd : Fd} {i : PipeIdx} {p p' : Pipe} {buf : List Byte} {n : Nat}
      {full : Bool} (hrow : w.rows pid = some row) (hfd : row.fds fd = .pipe i.val true)
      (hp : w.pipes i = some p) (hwrite : p.writeLoop 0 buf = (p', n, full)) :
      Step H w
        { w with
          shadow := update w.shadow i
            (Notes.taint (w.shadow i) p.nwrite n (w.tag pid.val fd.val))
          pipes := update w.pipes i (some p') }

abbrev Steps (H : World → Deed → Prop) : World → World → Prop := Relation.ReflTransGen (Step H)

lemma Steps.invariant {H : World → Deed → Prop} {I : World → Prop} {w w' : World}
    (hstep : ∀ w w', I w → Step H w w' → I w') (h : Steps H w w') (hI : I w) : I w' := by
  induction h with
  | refl => exact hI
  | tail _ hlast ih => exact hstep _ _ ih hlast

/-! ## Layer D: what the descriptors lead to -/

/-- Some process has a descriptor of this kind that stems from call `t`, and `o` is in its slot. -/
def Sees (w : World) (kind : FdType) (o : Option Nat) (t : Nat) : Prop :=
  ∃ pid row fd, w.rows pid = some row ∧ row.fds fd = kind ∧ o = row.behind kind ∧
    t = w.tag pid.val fd.val

def Shareable (kind : FdType) : Prop := (∃ n, kind = .fsFile n) ∨ pipeOp kind ≠ none

variable {H : World → Deed → Prop} {w w' : World} {kind : FdType} {o : Option Nat} {t : Nat}

variable {pid : Pid} {row' row : Row}

lemma setTag_of_ne (w : World) {i : Pid} (hne : i ≠ pid) (fd fd' t : Nat) :
    (w.setTag pid.val fd t).tag i.val fd' = w.tag i.val fd' := by
  rw [Notes.setTag_tag, if_neg]
  rintro ⟨heq, -⟩
  exact hne (Fin.ext heq)

lemma setTag_same (g : Notes) (pid : Pid) (fd fd' : Fd) (t : Nat) :
    (g.setTag pid.val fd.val t).tag pid.val fd'.val = if fd' = fd then t
      else g.tag pid.val fd'.val := by
  rw [Notes.setTag_tag]
  simp only [true_and, Fin.ext_iff]

lemma Sees.of_update (hs : w'.Sees kind o t) (hrows : w'.rows = update w.rows pid (some row'))
    (htags : ∀ i fd, i ≠ pid → w'.tag i.val fd = w.tag i.val fd) :
    (∃ fd, row'.fds fd = kind ∧ o = row'.behind kind ∧ t = w'.tag pid.val fd.val) ∨
      w.Sees kind o t := by
  obtain ⟨i, row, fd, hrow, hfd, ho, ht⟩ := hs
  rw [hrows, update_apply] at hrow
  split at hrow
  · rename_i hi
    cases hrow
    exact .inl ⟨fd, hfd, ho, hi ▸ ht⟩
  · rename_i hi
    exact .inr ⟨i, row, fd, hrow, hfd, ho, by rw [ht, htags i fd.val hi]⟩

lemma Sees.of_copy {old new : Fd} (hs : w'.Sees kind o t) (hrow : w.rows pid = some row)
    (hrows : w'.rows = update w.rows pid (some row'))
    (htag : w'.tag = (w.setTag pid.val new.val (w.tag pid.val old.val)).tag)
    (hfds : ∀ fd, row'.fds fd = if fd = new then row.fds old else row.fds fd)
    (hbehind : ∀ fd, (fd = new → row.fds old = kind) → (fd ≠ new → row.fds fd = kind) →
      row'.behind kind = row.behind kind) : w.Sees kind o t := by
  obtain ⟨fd, hfd, ho, ht⟩ | hs := hs.of_update hrows
    (fun i fd hi => by rw [htag]; exact w.setTag_of_ne hi _ _ _)
  · rw [hfds] at hfd
    rw [htag, setTag_same] at ht
    split at hfd
    · rename_i hnew
      rw [if_pos hnew] at ht
      refine ⟨pid, row, old, hrow, hfd, ?_, ht⟩
      rw [ho, hbehind fd (fun _ => hfd) (fun hne => absurd hnew hne)]
    rename_i hnew
    rw [if_neg hnew] at ht
    refine ⟨pid, row, fd, hrow, hfd, ?_, ht⟩
    rw [ho, hbehind fd (fun heq => absurd heq hnew) (fun _ => hfd)]
  · exact hs

/-- Unless a tag is new, it led to the object before the step. -/
lemma Step.sees (h : Step H w w') (hnext : w'.next = w.next) (hkind : Shareable kind)
    (hs : w'.Sees kind o t) : w.Sees kind o t := by
  have hnone : kind ≠ .none := by
    rintro rfl
    obtain ⟨n, hn⟩ | hop := hkind
    · cases hn
    · exact hop rfl
  cases h with
  | openFile | pipe => exact absurd hnext (Nat.succ_ne_self _)
  | lose | read | write => exact hs
  | @close pid row fd hrow _ _ =>
    obtain ⟨fd', hfd', ho, ht⟩ | hs := hs.of_update rfl (fun _ _ _ => rfl)
    · rw [Row.point_fds] at hfd'
      split at hfd'
      · exact absurd hfd'.symm hnone
      · exact ⟨pid, row, fd', hrow, hfd', ho, ht⟩
    · exact hs
  | dup hrow _ _ _ =>
    exact hs.of_copy hrow rfl rfl Row.point_fds (fun _ _ _ => Row.point_behind)
  | @dup2 pid row old new hrow hne _ _ =>
    refine hs.of_copy hrow rfl rfl Row.point_fds (fun fd hnew hoth => ?_)
    by_cases hfd : fd = new
    · exact Row.release_behind hne (hnew hfd)
    · exact Row.release_behind hfd (hoth hfd)
  | @fork parent child row hrow _ _ =>
    obtain ⟨fd, hfd, ho, ht⟩ | hs := hs.of_update rfl (fun i fd hi => by
      exact congrFun (update_of_ne (fun heq => hi (Fin.ext heq)) _ _) fd)
    · refine ⟨parent, row, fd, hrow, hfd, ho, ht.trans ?_⟩
      exact congrFun (update_self _ _ _) fd.val
    · exact hs
  | spawn _ hpln =>
    obtain ⟨fd, hfd, -, -⟩ | hs := hs.of_update rfl (fun _ _ _ => rfl)
    · obtain ⟨n, rfl⟩ | hop := hkind
      · exact absurd hfd (hpln.files fd n)
      · rw [← hfd] at hop
        exact absurd (hpln.pipes fd) hop
    · exact hs
  | reap =>
    obtain ⟨i, row, fd, hrow, hfd, ho, ht⟩ := hs
    refine ⟨i, row, fd, ?_, hfd, ho, ht⟩
    dsimp only at hrow
    rw [update_apply] at hrow
    split at hrow
    · cases hrow
    · exact hrow

lemma Sees.of_openFile {fd : Fd} {slot : Fin MAX_FILE_HANDLES} {obj : Nat} (hs : w'.Sees kind o t)
    (hrow : w.rows pid = some row)
    (hrows : w'.rows = update w.rows pid (some (row.take fd slot obj)))
    (htag : w'.tag = (w.setTag pid.val fd.val w.next).tag) :
    (o = some obj ∧ t = w.next ∧ kind = .fsFile slot.val) ∨ w.Sees kind o t ∨
      (kind = .fsFile slot.val ∧ w.Sees kind (row.handles slot) t) := by
  obtain ⟨fd', hfd', ho, ht⟩ | hs := hs.of_update hrows
    (fun i fd' hi => by rw [htag]; exact w.setTag_of_ne hi _ _ _)
  · rw [Row.take_fds] at hfd'
    rw [htag, setTag_same] at ht
    split at hfd'
    · rename_i hfd
      subst hfd'
      left
      rw [Row.behind, Row.take_handleAt, if_pos rfl] at ho
      exact ⟨ho, by rw [ht, if_pos hfd], rfl⟩
    rename_i hfd
    rw [if_neg hfd] at ht
    right
    by_cases hslot : kind = .fsFile slot.val
    · subst hslot
      exact .inr ⟨rfl, pid, row, fd', hrow, hfd', (row.handleAt_val slot).symm, ht⟩
    · exact .inl ⟨pid, row, fd', hrow, hfd', by rw [ho, Row.take_behind hslot], ht⟩
  · exact .inr (.inl hs)

lemma Sees.of_pipe {rd wr : Fd} {i : PipeIdx} (hs : w'.Sees kind o t) (hrow : w.rows pid = some row)
    (hrows : w'.rows = update w.rows pid
      (some ((row.point rd (.pipe i.val false)).point wr (.pipe i.val true))))
    (htag : w'.tag = ((w.setTag pid.val rd.val w.next).setTag pid.val wr.val w.next).tag) :
    (t = w.next ∧ ∃ writable, kind = .pipe i.val writable) ∨ w.Sees kind o t := by
  obtain ⟨fd, hfd, ho, ht⟩ | hs := hs.of_update hrows (fun j fd hj => by
    rw [htag, Notes.setTag_tag, if_neg (fun hand => hj (Fin.ext hand.1))]
    exact w.setTag_of_ne hj _ _ _)
  · rw [Row.point_fds, Row.point_fds] at hfd
    rw [htag, setTag_same, setTag_same] at ht
    split at hfd
    · rename_i hwr
      exact .inl ⟨by rw [ht, if_pos hwr], true, hfd.symm⟩
    split at hfd
    · rename_i hwr hrd
      exact .inl ⟨by rw [ht, if_neg hwr, if_pos hrd], false, hfd.symm⟩
    · rename_i hwr hrd
      exact .inr ⟨pid, row, fd, hrow, hfd, ho, by rw [ht, if_neg hwr, if_neg hrd]⟩
  · exact .inr hs

end World

end Indominus.Sys
