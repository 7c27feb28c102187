import Indominus.Lib.Tally
import Indominus.Sys.Lifecycle

/-! # Pipes and the descriptors that refer to them -/

namespace Indominus.Sys

open Lib Kernel Function

/-! ## Layer A: the pipe table -/

def refcountOf : Option Pipe → Nat
  | none => 0
  | some p => p.refcount

def Pipe.isOpen (p : Pipe) (writable : Bool) : Bool := if writable then p.writeOpen else p.readOpen

def Live (pipes : PipeSlots) : Prop := ∀ i p, pipes i = some p → 0 < p.refcount

@[simp] lemma Pipe.close_isOpen (p : Pipe) (w b : Bool) :
    (p.close w).isOpen b = (p.isOpen b && b != w) := by
  cases w <;> cases b <;> simp [Pipe.close, Pipe.isOpen]

lemma Live.refcountOf_pos {pipes : PipeSlots} (h : Live pipes) {i : PipeIdx} :
    pipes i = none ↔ refcountOf (pipes i) = 0 := by
  cases hp : pipes i with
  | none => simp [refcountOf]
  | some p => simpa [refcountOf] using (h i p hp).ne'

/-- A slot after one of its descriptors was closed; `dec` is how the count goes down. -/
def closedSlot (dec : Nat → Nat) (w : Bool) : Option Pipe → Option Pipe
  | none => none
  | some p => if p.refcount = 1 then none else some { p.close w with refcount := dec p.refcount }

lemma closePipe_eq (pipes : PipeSlots) (i : PipeIdx) (w : Bool) :
    closePipe pipes i w = update pipes i (closedSlot (· - 1) w (pipes i)) := by
  cases hp : pipes i with
  | none => simp [closePipe, hp, closedSlot]
  | some p => simp only [closePipe, hp, closedSlot, apply_ite (update pipes i)]

lemma closePipeWrapping_eq (pipes : PipeSlots) (i : PipeIdx) (w : Bool) :
    closePipeWrapping pipes i w =
      update pipes i (closedSlot (fun n => (n + 2 ^ 16 - 1) % 2 ^ 16) w (pipes i)) := by
  cases hp : pipes i with
  | none => simp [closePipeWrapping, hp, closedSlot]
  | some p => simp only [closePipeWrapping, hp, closedSlot, apply_ite (update pipes i)]

section Close

variable {pipes : PipeSlots}

lemma Live.closePipeWrapping (h : Live pipes) (i : PipeIdx) (w : Bool)
    (hle : refcountOf (pipes i) ≤ 2 ^ 16) : closePipeWrapping pipes i w = closePipe pipes i w := by
  rw [closePipeWrapping_eq, closePipe_eq]
  cases hp : pipes i with
  | none => simp only [closedSlot]
  | some p =>
    have hpos := h i p hp
    rw [hp, refcountOf] at hle
    have hmod : (p.refcount + 2 ^ 16 - 1) % 2 ^ 16 = p.refcount - 1 := by
      rw [show p.refcount + 2 ^ 16 - 1 = p.refcount - 1 + 2 ^ 16 by omega, Nat.add_mod_right]
      exact Nat.mod_eq_of_lt (by omega)
    simp only [closedSlot, hmod]

lemma refcountOf_closePipe (i : PipeIdx) (w : Bool) (j : PipeIdx) :
    refcountOf (closePipe pipes i w j) = refcountOf (pipes j) - (i == j).toNat := by
  rw [closePipe_eq]
  rcases eq_or_ne j i with rfl | hne
  · cases hp : pipes j with
    | none => simp [closedSlot, refcountOf]
    | some p =>
      by_cases hone : p.refcount = 1
      · simp [closedSlot, refcountOf, hone]
      · simp [closedSlot, refcountOf, hone]
  · simp [hne, beq_eq_false_iff_ne.mpr hne.symm]

lemma Live.closePipe (h : Live pipes) (i : PipeIdx) (w : Bool) : Live (closePipe pipes i w) := by
  intro j q hq
  rw [closePipe_eq] at hq
  rcases eq_or_ne j i with rfl | hne
  · cases hp : pipes j with
    | none => simp [hp, closedSlot] at hq
    | some p =>
      have hpos := h j p hp
      simp only [hp, closedSlot, update_self] at hq
      split at hq
      · simp at hq
      obtain rfl := by simpa using hq
      simp only
      omega
  · exact h j q (by simpa [hne] using hq)

variable {j : PipeIdx} {q : Pipe}

lemma closedSlot_isOpen {dec : Nat → Nat} {w : Bool} {i : PipeIdx}
    (hq : update pipes i (closedSlot dec w (pipes i)) j = some q) :
    ∃ p, pipes j = some p ∧ ∀ b, q.isOpen b = (p.isOpen b && !decide ((i, w) = (j, b))) := by
  rcases eq_or_ne j i with rfl | hne
  · cases hp : pipes j with
    | none => simp [hp, closedSlot] at hq
    | some p =>
      simp only [hp, closedSlot, update_self] at hq
      split at hq
      · simp at hq
      obtain rfl := by simpa using hq
      refine ⟨p, rfl, fun b => ?_⟩
      have hcl := p.close_isOpen w b
      simp only [Pipe.isOpen] at hcl ⊢
      rw [hcl]
      cases b <;> cases w <;> simp
  · exact ⟨q, by simpa [hne] using hq, fun b => by simp [hne.symm]⟩

lemma refcountOf_closePipes (ops : List (PipeIdx × Bool)) (j : PipeIdx) :
    refcountOf (closePipes pipes ops j) = refcountOf (pipes j) - ops.countP fun e => e.1 == j := by
  induction ops generalizing pipes with
  | nil => rfl
  | cons e ops ih =>
    rw [closePipes, List.foldl_cons, ← closePipes, ih, refcountOf_closePipe, List.countP_cons]
    cases e.1 == j
    · simp
    · simp; omega

lemma Live.closePipes (h : Live pipes) (ops : List (PipeIdx × Bool)) :
    Live (closePipes pipes ops) := by
  induction ops generalizing pipes with
  | nil => exact h
  | cons e ops ih => exact ih (h.closePipe e.1 e.2)

lemma closePipes_isOpen {ops : List (PipeIdx × Bool)} (hq : closePipes pipes ops j = some q) :
    ∃ p, pipes j = some p ∧ ∀ b, q.isOpen b = (p.isOpen b && !decide ((j, b) ∈ ops)) := by
  induction ops generalizing pipes with
  | nil => exact ⟨q, hq, fun b => by simp⟩
  | cons e ops ih =>
    have hq' : closePipes (closePipe pipes e.1 e.2) ops j = some q := hq
    obtain ⟨p1, hp1, hopen1⟩ := ih hq'
    rw [closePipe_eq] at hp1
    obtain ⟨p, hp, hopen⟩ := closedSlot_isOpen hp1
    refine ⟨p, hp, fun b => ?_⟩
    rw [hopen1, hopen, Bool.and_assoc, ← Bool.not_or]
    simp only [List.mem_cons, Prod.mk.eta, ← Bool.decide_or, eq_comm]

end Close

section Retain

variable {pipes : PipeSlots} {i : PipeIdx}

lemma refcountOf_retainPipe (hpos : 0 < refcountOf (pipes i))
    (hlt : refcountOf (pipes i) + 1 < 2 ^ 16) (j : PipeIdx) :
    refcountOf (retainPipe pipes i j) = refcountOf (pipes j) + (i == j).toNat := by
  cases hp : pipes i with
  | none => simp [hp, refcountOf] at hpos
  | some p =>
    rw [hp, refcountOf] at hlt
    rw [retainPipe, hp]
    rcases eq_or_ne j i with rfl | hne
    · simp only [update_self, refcountOf, Nat.mod_eq_of_lt hlt, hp, beq_self_eq_true,
        Bool.toNat_true]
    · simp [hne, beq_eq_false_iff_ne.mpr hne.symm]

lemma Live.retainPipe (h : Live pipes) (hlt : refcountOf (pipes i) + 1 < 2 ^ 16) :
    Live (retainPipe pipes i) := by
  intro j q hq
  rw [Kernel.retainPipe] at hq
  cases hp : pipes i with
  | none => exact h j q (by simpa [hp] using hq)
  | some p =>
    rw [hp, refcountOf] at hlt
    simp only [hp] at hq
    rcases eq_or_ne j i with rfl | hne
    · rw [update_self] at hq
      cases hq
      simp only [Nat.mod_eq_of_lt hlt]
      omega
    · exact h j q (by simpa [hne] using hq)

variable {j : PipeIdx} {q : Pipe}

lemma retainPipe_isOpen (hq : retainPipe pipes i j = some q) :
    ∃ p, pipes j = some p ∧ ∀ b, q.isOpen b = p.isOpen b := by
  rw [retainPipe] at hq
  cases hp : pipes i with
  | none => exact ⟨q, by simpa [hp] using hq, fun _ => rfl⟩
  | some p =>
    simp only [hp] at hq
    rcases eq_or_ne j i with rfl | hne
    · obtain rfl := by simpa using hq
      exact ⟨p, hp, fun _ => rfl⟩
    · exact ⟨q, by simpa [hne] using hq, fun _ => rfl⟩

/-- The references that the descriptors of a list add. -/
def retainEach (pipes : PipeSlots) (ops : List (PipeIdx × Bool)) : PipeSlots :=
  ops.foldl (fun ps e => retainPipe ps e.1) pipes

lemma retainEach_counts (ops : List (PipeIdx × Bool)) (h : Live pipes)
    (hpos : ∀ e ∈ ops, 0 < refcountOf (pipes e.1))
    (hlt : ∀ j, refcountOf (pipes j) + (ops.countP fun e => e.1 == j) < 2 ^ 16) :
    Live (retainEach pipes ops) ∧ ∀ j, refcountOf (retainEach pipes ops j) =
      refcountOf (pipes j) + ops.countP fun e => e.1 == j := by
  induction ops generalizing pipes with
  | nil => exact ⟨h, fun j => rfl⟩
  | cons e ops ih =>
    have hlt1 : refcountOf (pipes e.1) + 1 < 2 ^ 16 := by
      have := hlt e.1
      rw [List.countP_cons] at this
      simp only [beq_self_eq_true, if_true] at this
      omega
    have hcnt := refcountOf_retainPipe (hpos e (by simp)) hlt1
    have hspl : ∀ j, refcountOf (retainPipe pipes e.1 j) + (ops.countP fun e => e.1 == j) =
        refcountOf (pipes j) + ((e :: ops).countP fun e => e.1 == j) := by
      intro j
      rw [hcnt, List.countP_cons]
      cases e.1 == j
      · simp
      · simp; omega
    obtain ⟨hlive, hj⟩ := ih (h.retainPipe hlt1)
      (fun e' he' => by rw [hcnt]; have := hpos e' (by simp [he']); omega)
      (fun j => by rw [hspl]; exact hlt j)
    exact ⟨hlive, fun j => (hj j).trans (hspl j)⟩

lemma retainEach_isOpen {ops : List (PipeIdx × Bool)} (hq : retainEach pipes ops j = some q) :
    ∃ p, pipes j = some p ∧ ∀ b, q.isOpen b = p.isOpen b := by
  induction ops generalizing pipes with
  | nil => exact ⟨q, hq, fun _ => rfl⟩
  | cons e ops ih =>
    have hq' : retainEach (retainPipe pipes e.1) ops j = some q := hq
    obtain ⟨p1, hp1, hopen1⟩ := ih hq'
    obtain ⟨p, hp, hopen⟩ := retainPipe_isOpen hp1
    exact ⟨p, hp, fun b => (hopen1 b).trans (hopen b)⟩

end Retain

/-! ## Layer B: descriptors and pipes -/

/-- An end of a pipe: its slot, and whether it is the write end. -/
abbrev End := PipeIdx × Bool

/-- The descriptors of all processes that refer to pipes, and the pipe table. -/
@[ext]
structure PipeWorld where
  fds : Pid → Fd → Option End
  pipes : PipeSlots

namespace PipeWorld

/-- The end of a closed descriptor, as `sys_dup2` closes it. -/
def closeEnd (pipes : PipeSlots) : Option End → PipeSlots
  | none => pipes
  | some e => closePipeWrapping pipes e.1 e.2

def retainEnd (pipes : PipeSlots) : Option End → PipeSlots
  | none => pipes
  | some e => retainPipe pipes e.1

def ends (row : Fd → Option End) : List End := (List.finRange MAX_FDS).filterMap row

/-- What an operation does to descriptors and pipes: it closes `closed`, and if `lost` takes a
reference too many. -/
inductive Step (closed : Pid → Fd → Bool) (lost : Prop) : PipeWorld → PipeWorld → Prop
  | same (w : PipeWorld) : Step closed lost w w
  /-- `sys_pipe`: a new pipe and two descriptors. -/
  | create (w : PipeWorld) (i : PipeIdx) (pid : Pid) (rd wr : Fd) (hslot : w.pipes i = none)
      (hne : rd ≠ wr) (hrd : w.fds pid rd = none) (hwr : w.fds pid wr = none) :
      Step closed lost w
        ⟨update w.fds pid
            (update (update (w.fds pid) rd (some (i, false))) wr (some (i, true))),
          update w.pipes i (some Pipe.new)⟩
  /-- `sys_dup`: a free descriptor is pointed at the end of an open one. -/
  | dup (w : PipeWorld) (pid : Pid) (old new : Fd) (e : End) (hold : w.fds pid old = some e)
      (hnew : w.fds pid new = none) :
      Step closed lost w
        ⟨update w.fds pid (update (w.fds pid) new (some e)),
          retainPipe w.pipes e.1⟩
  /-- `sys_dup` without a free descriptor. -/
  | lose (w : PipeWorld) (i : PipeIdx) (hlost : lost) :
      Step closed lost w ⟨w.fds, retainPipe w.pipes i⟩
  /-- `sys_dup2`: a descriptor is closed and pointed at the end of another one. -/
  | replace (w : PipeWorld) (pid : Pid) (old new : Fd) (hne : old ≠ new)
      (hclosed : ∀ pid' fd', closed pid' fd' = true ↔ pid' = pid ∧ fd' = new) :
      Step closed lost w
        ⟨update w.fds pid (update (w.fds pid) new (w.fds pid old)),
          retainEnd (closeEnd w.pipes (w.fds pid new)) (w.fds pid old)⟩
  /-- `sys_fork`: a process without descriptors gets a copy of the table of another one. -/
  | inherit (w : PipeWorld) (parent child : Pid) (hchild : ∀ fd, w.fds child fd = none) :
      Step closed lost w
        ⟨update w.fds child (w.fds parent),
          retainEach w.pipes (ends (w.fds parent))⟩
  /-- `sys_close`, `exec` and reaping: some descriptors of a process are closed. -/
  | close (w : PipeWorld) (pid : Pid) (S : Fd → Bool)
      (hclosed : ∀ pid' fd', closed pid' fd' = true ↔ pid' = pid ∧ S fd' = true) :
      Step closed lost w
        ⟨update w.fds pid fun fd => if S fd then none else w.fds pid fd,
          closePipes w.pipes (ends fun fd => if S fd then w.fds pid fd else none)⟩

/-! ## Layer C: reference counts -/

/-- Does a descriptor refer to the pipe in slot `i`? -/
def refersTo (i : PipeIdx) (o : Option End) : Bool := o.any fun e => e.1 == i

/-- The number of descriptors that refer to the pipe in slot `i`. -/
def refs (w : PipeWorld) (i : PipeIdx) : Nat :=
  tally (refersTo i) fun x : Pid × Fd => w.fds x.1 x.2

/-- Reference counts are right: a slot counts the descriptors that refer to it, and it is
allocated only when there is one. -/
structure Counted (w : PipeWorld) : Prop where
  count : ∀ i, refcountOf (w.pipes i) = w.refs i
  live : Live w.pipes

/-- The number of descriptors of one process that refer to the pipe in slot `i`. -/
def rowRefs (row : Fd → Option End) (i : PipeIdx) : Nat := tally (refersTo i) row

@[simp] lemma refersTo_none (i : PipeIdx) : refersTo i none = false := rfl

@[simp] lemma refersTo_some (i : PipeIdx) (e : End) : refersTo i (some e) = (e.1 == i) := rfl

lemma refs_le (w : PipeWorld) (i : PipeIdx) : w.refs i ≤ 512 :=
  (tally_le_card _ _).trans (by simp [MAX_PROCESSES, MAX_FDS])

lemma rowRefs_le (row : Fd → Option End) (i : PipeIdx) : rowRefs row i ≤ 16 :=
  (tally_le_card _ _).trans (by simp [MAX_FDS])

lemma refs_update_row (w : PipeWorld) (pipes : PipeSlots) (pid : Pid)
    (row : Fd → Option End) (i : PipeIdx) :
    refs ⟨update w.fds pid row, pipes⟩ i + rowRefs (w.fds pid) i = w.refs i + rowRefs row i :=
  tally_update_row (refersTo i) w.fds pid row

lemma rowRefs_update (row : Fd → Option End) (fd : Fd) (o : Option End) (i : PipeIdx) :
    rowRefs (update row fd o) i + (refersTo i (row fd)).toNat =
      rowRefs row i + (refersTo i o).toNat :=
  tally_update (refersTo i) row fd o

lemma rowRefs_split (row : Fd → Option End) (S : Fd → Bool) (i : PipeIdx) :
    rowRefs row i = rowRefs (fun fd => if S fd then row fd else none) i +
      rowRefs (fun fd => if S fd then none else row fd) i :=
  tally_split (fun e : End => e.1 == i) row S

lemma rowRefs_eq_zero {row : Fd → Option End} (h : ∀ fd, row fd = none) (i : PipeIdx) :
    rowRefs row i = 0 :=
  tally_eq_zero.mpr fun fd => by rw [h fd, refersTo_none]

lemma rowRefs_le_refs (w : PipeWorld) (pid : Pid) (i : PipeIdx) :
    rowRefs (w.fds pid) i ≤ w.refs i := by
  have hrow := w.refs_update_row w.pipes pid (fun _ => none) i
  have hnone : rowRefs (fun _ => none) i = 0 := rowRefs_eq_zero (fun _ => rfl) i
  omega

lemma countP_ends (row : Fd → Option End) (i : PipeIdx) :
    ((ends row).countP fun e => e.1 == i) = rowRefs row i :=
  countP_filterMap_finRange _ row

/-- Every slot counts the descriptors that refer to it, and some more. -/
structure Tracks (extra : PipeIdx → Nat) (w : PipeWorld) : Prop where
  count : ∀ i, refcountOf (w.pipes i) = w.refs i + extra i
  live : Live w.pipes

/-- Every count is more than one table of descriptors away from the end of its 16 bits. -/
def Low (pipes : PipeSlots) : Prop := ∀ i, refcountOf (pipes i) + MAX_FDS < 2 ^ 16

section Counts

variable {closed : Pid → Fd → Bool} {lost : Prop} {w : PipeWorld} {extra : PipeIdx → Nat}
  {pid : Pid} {row : Fd → Option End} {pipes : PipeSlots} {i : PipeIdx} {old new : Fd}

lemma Low.add_lt (hlow : Low pipes) {n : Nat} (hn : n ≤ MAX_FDS) (i : PipeIdx) :
    refcountOf (pipes i) + n < 2 ^ 16 := by
  have := hlow i
  omega

variable {e : End}

lemma Tracks.pos_of_fd (h : w.Tracks extra) {fd : Fd} (hfd : w.fds pid fd = some e) :
    0 < refcountOf (w.pipes e.1) := by
  have hpos : 0 < w.refs e.1 := tally_pos (i := (pid, fd)) (by simp [hfd])
  rw [h.count]
  omega

lemma Tracks.changed (h : w.Tracks extra) (hlive : Live pipes)
    (hcnt : ∀ i, refcountOf (pipes i) + rowRefs (w.fds pid) i =
      refcountOf (w.pipes i) + rowRefs row i) :
    Tracks extra ⟨update w.fds pid row, pipes⟩ where
  count i := by
    have hrow := w.refs_update_row pipes pid row i
    have hold := h.count i
    have hnew := hcnt i
    dsimp only
    omega
  live := hlive

lemma Tracks.create (h : w.Tracks extra) {rd wr : Fd} (hslot : w.pipes i = none)
    (hne : rd ≠ wr) (hrd : w.fds pid rd = none) (hwr : w.fds pid wr = none) : Tracks extra
      ⟨update w.fds pid
          (update (update (w.fds pid) rd (some (i, false))) wr (some (i, true))),
        update w.pipes i (some Pipe.new)⟩ := by
  refine h.changed (fun j p hp => ?_) (fun j => ?_)
  · rcases eq_or_ne j i with rfl | hji
    · obtain rfl := by simpa using hp
      decide
    · exact h.live j p (by simpa [hji] using hp)
  have hwrite := rowRefs_update (update (w.fds pid) rd (some (i, false))) wr
    (some (i, true)) j
  have hread := rowRefs_update (w.fds pid) rd (some (i, false)) j
  rw [update_of_ne hne.symm, hwr, refersTo_none, refersTo_some] at hwrite
  rw [hrd, refersTo_none, refersTo_some] at hread
  rcases eq_or_ne j i with rfl | hji
  · rw [beq_self_eq_true, Bool.toNat_false, Bool.toNat_true] at hwrite hread
    have hnew : refcountOf (update w.pipes j (some Pipe.new) j) = 2 := by
      rw [update_self]
      rfl
    rw [hslot, refcountOf]
    omega
  rw [beq_eq_false_iff_ne.mpr hji.symm] at hwrite hread
  rw [update_of_ne hji]
  omega

lemma retainEnd_counts {o : Option End} (hlive : Live pipes) (hlow : Low pipes)
    (hpos : ∀ e, o = some e → 0 < refcountOf (pipes e.1)) :
    Live (retainEnd pipes o) ∧ ∀ j, refcountOf (retainEnd pipes o j) =
      refcountOf (pipes j) + (refersTo j o).toNat := by
  cases o with
  | none => exact ⟨hlive, fun j => rfl⟩
  | some e =>
    have hlt := hlow.add_lt (n := 1) (by decide) e.1
    exact ⟨hlive.retainPipe hlt, refcountOf_retainPipe (hpos e rfl) hlt⟩

lemma Tracks.dup (h : w.Tracks extra) (hlow : Low w.pipes)
    (hnew : w.fds pid new = none) : Tracks extra
      ⟨update w.fds pid (update (w.fds pid) new (w.fds pid old)),
        retainEnd w.pipes (w.fds pid old)⟩ := by
  obtain ⟨hlive, hcnt⟩ := retainEnd_counts h.live hlow fun e he => h.pos_of_fd he
  refine h.changed hlive (fun j => ?_)
  have hupd := rowRefs_update (w.fds pid) new (w.fds pid old) j
  rw [hnew, refersTo_none, Bool.toNat_false] at hupd
  rw [hcnt]
  omega

lemma Tracks.lose (h : w.Tracks extra) (hlow : Low w.pipes) (i : PipeIdx) :
    ∃ extra', Tracks extra' ⟨w.fds, retainPipe w.pipes i⟩ := by
  cases hp : w.pipes i with
  | none =>
    have hsame : retainPipe w.pipes i = w.pipes := by rw [retainPipe, hp]
    exact ⟨extra, by rw [hsame]; exact h⟩
  | some q =>
    have hlt := hlow.add_lt (n := 1) (by decide) i
    have hpos : 0 < refcountOf (w.pipes i) := by
      rw [hp]
      exact h.live i q hp
    have hcnt := refcountOf_retainPipe hpos hlt
    refine ⟨fun j => extra j + (i == j).toNat, fun j => ?_, h.live.retainPipe hlt⟩
    rw [hcnt, h.count, Nat.add_assoc]
    rfl

lemma Tracks.closeEnd (h : w.Tracks extra) (hlow : Low w.pipes) (o : Option End) :
    Live (closeEnd w.pipes o) ∧ ∀ j, refcountOf (PipeWorld.closeEnd w.pipes o j) =
      refcountOf (w.pipes j) - (refersTo j o).toNat := by
  cases o with
  | none => exact ⟨h.live, fun j => rfl⟩
  | some e =>
    rw [PipeWorld.closeEnd, h.live.closePipeWrapping e.1 e.2 (hlow.add_lt (Nat.zero_le _) e.1).le]
    exact ⟨h.live.closePipe e.1 e.2, refcountOf_closePipe e.1 e.2⟩

lemma refs_of_two (hne : old ≠ new) (hold : w.fds pid old = some e) :
    1 + (refersTo e.1 (w.fds pid new)).toNat ≤ w.refs e.1 := by
  have hrest : 0 < rowRefs (update (w.fds pid) new none) e.1 :=
    tally_pos (i := old) (by simp [update_of_ne hne, hold])
  have hupd := rowRefs_update (w.fds pid) new none e.1
  have hle := w.rowRefs_le_refs pid e.1
  rw [refersTo_none, Bool.toNat_false] at hupd
  omega

lemma Tracks.replace (h : w.Tracks extra) (hlow : Low w.pipes) (hne : old ≠ new) :
    Tracks extra ⟨update w.fds pid (update (w.fds pid) new (w.fds pid old)),
        PipeWorld.retainEnd (PipeWorld.closeEnd w.pipes (w.fds pid new)) (w.fds pid old)⟩ := by
  obtain ⟨hlive1, hcnt1⟩ := h.closeEnd hlow (w.fds pid new)
  have hlow1 : Low (PipeWorld.closeEnd w.pipes (w.fds pid new)) := by
    intro j
    have := hlow j
    rw [hcnt1]
    omega
  have hpos : ∀ e, w.fds pid old = some e →
      0 < refcountOf (PipeWorld.closeEnd w.pipes (w.fds pid new) e.1) := by
    intro e hold
    have := refs_of_two hne hold
    rw [hcnt1, h.count]
    omega
  obtain ⟨hlive, hcnt⟩ := retainEnd_counts hlive1 hlow1 hpos
  refine h.changed hlive (fun j => ?_)
  have hupd := rowRefs_update (w.fds pid) new (w.fds pid old) j
  -- the closed descriptor is one of those that are counted
  have hnew := rowRefs_update (w.fds pid) new none j
  have hle := w.rowRefs_le_refs pid j
  have hj := h.count j
  rw [refersTo_none, Bool.toNat_false] at hnew
  rw [hcnt, hcnt1]
  omega

lemma Tracks.inherit (h : w.Tracks extra) (hlow : Low w.pipes) {parent child : Pid}
    (hch : ∀ fd, w.fds child fd = none) : Tracks extra
      ⟨update w.fds child (w.fds parent), retainEach w.pipes (ends (w.fds parent))⟩ := by
  obtain ⟨hlive, hcnt⟩ := retainEach_counts (ends (w.fds parent)) h.live
    (fun e he => by
      obtain ⟨fd, -, hfd⟩ := List.mem_filterMap.mp he
      exact h.pos_of_fd hfd)
    (fun j => by rw [countP_ends]; exact hlow.add_lt (rowRefs_le _ j) j)
  refine h.changed hlive (fun j => ?_)
  rw [hcnt, countP_ends, rowRefs_eq_zero hch]
  omega

lemma Tracks.close (h : w.Tracks extra) (S : Fd → Bool) : Tracks extra
      ⟨update w.fds pid fun fd => if S fd then none else w.fds pid fd,
        closePipes w.pipes (ends fun fd => if S fd then w.fds pid fd else none)⟩ := by
  refine h.changed (h.live.closePipes _) (fun j => ?_)
  have hspl := rowRefs_split (w.fds pid) S j
  have hle := w.rowRefs_le_refs pid j
  have hj := h.count j
  rw [refcountOf_closePipes, countP_ends]
  omega

lemma Counted.tracks (h : w.Counted) : w.Tracks fun _ => 0 := ⟨fun i => h.count i, h.live⟩

lemma Tracks.counted (h : w.Tracks fun _ => 0) : w.Counted := ⟨fun i => h.count i, h.live⟩

lemma Counted.low (h : w.Counted) : Low w.pipes := by
  intro i
  have := w.refs_le i
  rw [h.count]
  unfold MAX_FDS
  omega

lemma Counted.step {w' : PipeWorld} (h : w.Counted) (hlost : ¬ lost)
    (hstep : Step closed lost w w') : w'.Counted := by
  have hlow := h.low
  cases hstep with
  | same => exact h
  | create i pid rd wr hslot hne hrd hwr => exact (h.tracks.create hslot hne hrd hwr).counted
  | dup pid old new e hold hnew =>
    have hdup := @Tracks.dup w _ pid old new h.tracks hlow hnew
    rw [hold] at hdup
    exact hdup.counted
  | lose i hl => exact absurd hl hlost
  | replace pid old new hne hcld => exact (h.tracks.replace hlow hne).counted
  | inherit parent child hch => exact (h.tracks.inherit hlow hch).counted
  | close pid S hcld => exact (h.tracks.close S).counted

end Counts

/-! ## Layer D: open ends -/

/-- The flags are right: an end is marked open when a descriptor refers to it, and only then. -/
def EndsOpen (w : PipeWorld) : Prop :=
  ∀ i p b, w.pipes i = some p → (p.isOpen b = true ↔ ∃ pid fd, w.fds pid fd = some (i, b))

/-- A set of descriptors that has every descriptor of each end it touches. -/
def WholeEnds (w : PipeWorld) (closed : Pid → Fd → Bool) : Prop :=
  ∀ pid fd e, closed pid fd = true → w.fds pid fd = some e →
    ∀ pid' fd', w.fds pid' fd' = some e → closed pid' fd' = true

section Ends

variable {closed : Pid → Fd → Bool} {lost : Prop} {w w' : PipeWorld}

lemma EndsOpen.congr (h : w.EndsOpen)
    (hfl : ∀ i q, w'.pipes i = some q → ∃ p, w.pipes i = some p ∧ ∀ b, q.isOpen b = p.isOpen b)
    (hfds : ∀ e, (∃ pid fd, w'.fds pid fd = some e) ↔ ∃ pid fd, w.fds pid fd = some e) :
    w'.EndsOpen := by
  intro i q b hq
  obtain ⟨p, hp, hopen⟩ := hfl i q hq
  rw [hopen, h i p b hp, hfds]

lemma EndsOpen.closing (h : w.EndsOpen) (hwh : w.WholeEnds closed)
    (hfl : ∀ i q, w'.pipes i = some q → ∃ p, w.pipes i = some p ∧ ∀ b, q.isOpen b = true ↔
      p.isOpen b = true ∧ ¬ ∃ pid fd, closed pid fd = true ∧ w.fds pid fd = some (i, b))
    (hfds : ∀ e, (∃ pid fd, w'.fds pid fd = some e) ↔
      ∃ pid fd, closed pid fd = false ∧ w.fds pid fd = some e) : w'.EndsOpen := by
  intro i q b hq
  obtain ⟨p, hp, hopen⟩ := hfl i q hq
  rw [hopen, h i p b hp, hfds]
  constructor
  · rintro ⟨⟨pid, fd, hfd⟩, hnone⟩
    exact ⟨pid, fd, Bool.eq_false_iff.mpr fun hc => hnone ⟨pid, fd, hc, hfd⟩, hfd⟩
  rintro ⟨pid, fd, hc, hfd⟩
  refine ⟨⟨pid, fd, hfd⟩, ?_⟩
  rintro ⟨pid', fd', hc', hfd'⟩
  simp [hwh pid' fd' _ hc' hfd' pid fd hfd] at hc

lemma update_fd_apply (fds : Pid → Fd → Option End) (pid : Pid) (fd : Fd) (o : Option End)
    (pid' : Pid) (fd' : Fd) : update fds pid (update (fds pid) fd o) pid' fd' =
      if pid' = pid ∧ fd' = fd then o else fds pid' fd' := by
  rcases eq_or_ne pid' pid with rfl | hpid
  · rcases eq_or_ne fd' fd with rfl | hfd
    · simp
    · simp [hfd]
  · simp [hpid]

lemma exists_fd_update {fds : Pid → Fd → Option End} {pid : Pid} {fd : Fd}
    (hnone : fds pid fd = none) (e e' : End) :
    (∃ pid' fd', update fds pid (update (fds pid) fd (some e)) pid' fd' =
        some e') ↔ e' = e ∨ ∃ pid' fd', fds pid' fd' = some e' := by
  simp only [update_fd_apply]
  constructor
  · rintro ⟨pid', fd', hfd'⟩
    split at hfd'
    · exact .inl (Option.some.inj hfd').symm
    · exact .inr ⟨pid', fd', hfd'⟩
  rintro (rfl | ⟨pid', fd', hfd'⟩)
  · exact ⟨pid, fd, by simp⟩
  refine ⟨pid', fd', ?_⟩
  rw [if_neg, hfd']
  rintro ⟨rfl, rfl⟩
  simp [hnone] at hfd'

lemma EndsOpen.create (h : w.EndsOpen) {i : PipeIdx} {pid : Pid} {rd wr : Fd} (hne : rd ≠ wr)
    (hrd : w.fds pid rd = none) (hwr : w.fds pid wr = none) : EndsOpen ⟨update w.fds pid
          (update (update (w.fds pid) rd (some (i, false))) wr (some (i, true))),
        update w.pipes i (some Pipe.new)⟩ := by
  -- the two descriptors are two single updates
  have hfds : ∀ e : End, (∃ pid' fd', update w.fds pid
      (update (update (w.fds pid) rd (some (i, false))) wr (some (i, true)))
        pid' fd' = some e) ↔
      e = (i, true) ∨ e = (i, false) ∨ ∃ pid' fd', w.fds pid' fd' = some e := by
    intro e
    have hwr' : update w.fds pid (update (w.fds pid) rd (some (i, false)))
        pid wr = none := by
      rw [update_fd_apply, if_neg fun hand => hne hand.2.symm, hwr]
    have := exists_fd_update hwr' (i, true) e
    rwa [update_idem, update_self, exists_fd_update hrd] at this
  intro j q b hq
  rw [hfds]
  rcases eq_or_ne j i with rfl | hji
  · obtain rfl := by simpa using hq
    cases b <;> simp [Pipe.isOpen, Pipe.new]
  · rw [h j q b (by simpa [hji] using hq)]
    simp [hji]

variable {pipes : PipeSlots} {i : PipeIdx} {q : Pipe} {o : Option End}

lemma closeEnd_isOpen (hq : closeEnd pipes o i = some q) :
    ∃ p, pipes i = some p ∧ ∀ b, q.isOpen b = true ↔ p.isOpen b = true ∧ o ≠ some (i, b) := by
  cases o with
  | none => exact ⟨q, hq, fun b => by simp⟩
  | some e =>
    rw [closeEnd, closePipeWrapping_eq] at hq
    obtain ⟨p, hp, hopen⟩ := closedSlot_isOpen hq
    exact ⟨p, hp, fun b => by simp [hopen b]⟩

lemma retainEnd_isOpen (hq : retainEnd pipes o i = some q) :
    ∃ p, pipes i = some p ∧ ∀ b, q.isOpen b = p.isOpen b := by
  cases o with
  | none => exact ⟨q, hq, fun _ => rfl⟩
  | some e => exact retainPipe_isOpen hq

lemma EndsOpen.replace (h : w.EndsOpen) (hwh : w.WholeEnds closed) {pid : Pid} {old new : Fd}
    (hne : old ≠ new) (hcld : ∀ pid' fd', closed pid' fd' = true ↔ pid' = pid ∧ fd' = new) :
    EndsOpen
      ⟨update w.fds pid (update (w.fds pid) new (w.fds pid old)),
        retainEnd (closeEnd w.pipes (w.fds pid new)) (w.fds pid old)⟩ := by
  have hopen : ∀ pid' fd', closed pid' fd' = false ↔ ¬ (pid' = pid ∧ fd' = new) :=
    fun pid' fd' => by
    rw [← hcld, Bool.not_eq_true]
  refine h.closing hwh (fun i q hq => ?_) fun e => ?_
  · obtain ⟨p1, hp1, hopen1⟩ := retainEnd_isOpen hq
    obtain ⟨p, hp, hopen2⟩ := closeEnd_isOpen hp1
    refine ⟨p, hp, fun b => ?_⟩
    simp only [hopen1, hopen2, hcld]
    simp
  simp only [update_fd_apply, hopen]
  constructor
  · rintro ⟨pid', fd', hfd'⟩
    split at hfd'
    · exact ⟨pid, old, by simp [hne], hfd'⟩
    · exact ⟨pid', fd', ‹_›, hfd'⟩
  · rintro ⟨pid', fd', hc, hfd'⟩
    exact ⟨pid', fd', by rw [if_neg hc, hfd']⟩

/-- The flags stay right if an end loses all its descriptors at once. -/
lemma EndsOpen.close (h : w.EndsOpen) (hwh : w.WholeEnds closed) {pid : Pid} {S : Fd → Bool}
    (hcld : ∀ pid' fd', closed pid' fd' = true ↔ pid' = pid ∧ S fd' = true) : EndsOpen
      ⟨update w.fds pid fun fd => if S fd then none else w.fds pid fd,
        closePipes w.pipes (ends fun fd => if S fd then w.fds pid fd else none)⟩ := by
  have hopen : ∀ pid' fd', closed pid' fd' = false ↔ ¬ (pid' = pid ∧ S fd' = true) :=
    fun pid' fd' => by rw [← hcld, Bool.not_eq_true]
  refine h.closing hwh (fun i q hq => ?_) fun e => ?_
  · obtain ⟨p, hp, hopen1⟩ := closePipes_isOpen hq
    refine ⟨p, hp, fun b => ?_⟩
    simp only [hopen1, hcld, ends, List.mem_filterMap, List.mem_finRange, true_and,
      Bool.and_eq_true, Bool.not_eq_true', decide_eq_false_iff_not]
    refine and_congr_right fun _ => not_congr ⟨?_, ?_⟩
    · rintro ⟨fd, hfd⟩
      split at hfd
      · exact ⟨pid, fd, ⟨rfl, ‹_›⟩, hfd⟩
      · simp at hfd
    · rintro ⟨pid', fd, ⟨rfl, hS⟩, hfd⟩
      exact ⟨fd, by rw [if_pos hS, hfd]⟩
  simp only [hopen]
  constructor
  · rintro ⟨pid', fd, hfd⟩
    rcases eq_or_ne pid' pid with rfl | hpid
    · rw [update_self] at hfd
      split at hfd
      · simp at hfd
      · rename_i hS
        exact ⟨pid', fd, fun hand => hS hand.2, hfd⟩
    · rw [update_of_ne hpid] at hfd
      exact ⟨pid', fd, fun hand => hpid hand.1, hfd⟩
  rintro ⟨pid', fd, hc, hfd⟩
  refine ⟨pid', fd, ?_⟩
  rcases eq_or_ne pid' pid with rfl | hpid
  · rw [update_self, if_neg fun hS => hc ⟨rfl, hS⟩, hfd]
  · rw [update_of_ne hpid, hfd]

lemma EndsOpen.step (h : w.EndsOpen) (hwh : w.WholeEnds closed)
    (hstep : Step closed lost w w') : w'.EndsOpen := by
  cases hstep with
  | same => exact h
  | create i pid rd wr hslot hne hrd hwr => exact h.create hne hrd hwr
  | dup pid old new e hold hnew =>
    refine h.congr (fun i q hq => retainPipe_isOpen hq) fun e' => ?_
    rw [exists_fd_update hnew]
    refine or_iff_right_of_imp ?_
    rintro rfl
    exact ⟨pid, old, hold⟩
  | lose i hl => exact h.congr (fun i q hq => retainPipe_isOpen hq) fun e => Iff.rfl
  | replace pid old new hne hcld => exact h.replace hwh hne hcld
  | inherit parent child hch =>
    refine h.congr (fun i q hq => retainEach_isOpen hq) fun e => ?_
    constructor
    · rintro ⟨pid, fd, hfd⟩
      rcases eq_or_ne pid child with rfl | hne
      · exact ⟨parent, fd, by simpa using hfd⟩
      · exact ⟨pid, fd, by simpa [hne] using hfd⟩
    rintro ⟨pid, fd, hfd⟩
    have hne : pid ≠ child := by rintro rfl; simp [hch fd] at hfd
    exact ⟨pid, fd, by simpa [hne] using hfd⟩
  | close pid S hcld => exact h.close hwh hcld

end Ends

end PipeWorld

end Indominus.Sys
