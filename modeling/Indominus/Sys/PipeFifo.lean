import Indominus.Lib.Ring
import Indominus.Memory.EagerCopy
import Indominus.Sys.System

/-! # Pipes deliver bytes in order -/

namespace Indominus.Sys

open Lib Lib.Ring
open Memory (Byte PAGE_SIZE)
open Memory.Spaces (onePage)

/-! ## Layer A: the byte loops -/

namespace Pipe

def cells (p : Pipe) : Nat → Byte := fun i => p.data.get i

def unread (p : Pipe) : List Byte := window PIPE_SIZE p.cells p.nread (p.nwrite - p.nread)

lemma readLoop_eq (data : Store Byte) (count nread nwrite fuel total : Nat) :
    readLoop data count nread nwrite fuel total =
      window PIPE_SIZE (fun i => data.get i) (nread + total)
        (min fuel (min (count - total) (nwrite - (nread + total)))) := by
  induction fuel generalizing total with
  | zero => simp [readLoop]
  | succ fuel ih =>
    rw [readLoop]
    split
    · have hlen : min (fuel + 1) (min (count - total) (nwrite - (nread + total))) =
          min fuel (min (count - (total + 1)) (nwrite - (nread + (total + 1)))) + 1 := by omega
      rw [ih, hlen, window_succ, Nat.add_assoc]
    · have hlen : min (fuel + 1) (min (count - total) (nwrite - (nread + total))) = 0 := by omega
      rw [hlen, window_zero]

lemma readLoop_zero (p : Pipe) (count : Nat) :
    readLoop p.data count p.nread p.nwrite (p.nwrite - p.nread) 0 =
      window PIPE_SIZE p.cells p.nread (min count (p.nwrite - p.nread)) := by
  rw [readLoop_eq]
  have hlen : min (p.nwrite - p.nread) (min (count - 0) (p.nwrite - (p.nread + 0))) =
      min count (p.nwrite - p.nread) := by omega
  rw [hlen]
  rfl

lemma push_cells (p : Pipe) (b : Byte) :
    (p.push b).cells = Function.update p.cells (p.nwrite % PIPE_SIZE) b := by
  funext i
  simp only [cells, push, Store.get_set, Function.update_apply]

variable {p q : Pipe} {accepted delivered : List Byte}

lemma room_of_not_isFull (hfull : p.isFull = false) :
    p.nwrite ≠ 2 ^ 32 - 1 ∧ p.nwrite < p.nread + PIPE_SIZE := by
  simp only [isFull, Bool.or_eq_false_iff, beq_eq_false_iff_ne, decide_eq_false_iff_not,
    not_le] at hfull
  exact ⟨hfull.1, lt_of_lt_of_le hfull.2 (Nat.mod_le _ _)⟩

lemma read_bytes {bs : List Byte} {count : Nat} (h : p.read count = .bytes bs q) :
    0 < min count (p.nwrite - p.nread) ∧
      bs = window PIPE_SIZE p.cells p.nread (min count (p.nwrite - p.nread)) ∧
      q = { p with nread := (p.nread + min count (p.nwrite - p.nread)) % 2 ^ 32 } := by
  simp only [Pipe.read, readLoop_zero, length_window] at h
  split at h
  · simp_all [eq_comm]
  · split at h <;> simp at h

/-! ## Layer B: the ring invariant -/

/-- The pipe holds exactly the bytes that were accepted and not yet delivered. -/
structure Holds (p : Pipe) (accepted delivered : List Byte) : Prop where
  nwrite_lt : p.nwrite < 2 ^ 32
  nread_le : p.nread ≤ p.nwrite
  nwrite_le : p.nwrite ≤ p.nread + PIPE_SIZE
  accepted_eq : accepted = delivered ++ p.unread

lemma holds_new : Holds new [] [] where
  nwrite_lt := by decide
  nread_le := by decide
  nwrite_le := by decide
  accepted_eq := rfl

section

variable (h : p.Holds accepted delivered)

include h

lemma Holds.congr (hdata : q.data = p.data) (hr : q.nread = p.nread) (hw : q.nwrite = p.nwrite) :
    q.Holds accepted delivered where
  nwrite_lt := hw ▸ h.nwrite_lt
  nread_le := by rw [hr, hw]; exact h.nread_le
  nwrite_le := by rw [hr, hw]; exact h.nwrite_le
  accepted_eq := by
    have hcells : q.cells = p.cells := funext fun i => by simp only [cells, hdata]
    simp only [h.accepted_eq, unread, hcells, hr, hw]

lemma Holds.read {bs : List Byte} {count : Nat} (hread : p.read count = .bytes bs q) :
    q.Holds accepted (delivered ++ bs) := by
  have hw := h.nwrite_lt
  obtain ⟨hpos, rfl, rfl⟩ := read_bytes hread
  have hmod : (p.nread + min count (p.nwrite - p.nread)) % 2 ^ 32 =
      p.nread + min count (p.nwrite - p.nread) := Nat.mod_eq_of_lt (by omega)
  have hle := h.nwrite_le
  refine ⟨hw, ?_, ?_, ?_⟩
  · simp only [hmod]; omega
  · simp only [hmod]; omega
  have hspl : p.nwrite - p.nread = min count (p.nwrite - p.nread) +
      (p.nwrite - (p.nread + min count (p.nwrite - p.nread))) := by omega
  simp only [unread, hmod]
  rw [List.append_assoc, h.accepted_eq, unread]
  congr 1
  conv_lhs => rw [hspl, window_append]
  rfl

lemma Holds.push (hfull : p.isFull = false) (b : Byte) :
    (p.push b).Holds (accepted ++ [b]) delivered ∧ (p.push b).nwrite = p.nwrite + 1 := by
  obtain ⟨hmax, hroom⟩ := room_of_not_isFull hfull
  have hr := h.nread_le
  have hw := h.nwrite_lt
  have hnw : (p.push b).nwrite = p.nwrite + 1 := Nat.mod_eq_of_lt (by omega)
  have hnr : (p.push b).nread = p.nread := rfl
  refine ⟨⟨by omega, by omega, by omega, ?_⟩, hnw⟩
  have hcell : p.nwrite % PIPE_SIZE = (p.nread + (p.nwrite - p.nread)) % PIPE_SIZE := by
    rw [Nat.add_sub_cancel' hr]
  rw [h.accepted_eq, unread, unread, hnw, hnr, push_cells, hcell,
    show p.nwrite + 1 - p.nread = p.nwrite - p.nread + 1 by omega,
    window_push p.cells p.nread (p.nwrite - p.nread) b (by omega), List.append_assoc]

lemma Holds.writeLoop {buf : List Byte} {written total : Nat} {full : Bool}
    (hloop : p.writeLoop written buf = (q, total, full)) : ∃ n, n ≤ buf.length ∧ total =
      written + n ∧ q.nwrite = p.nwrite + n ∧ q.Holds (accepted ++ buf.take n) delivered := by
  induction buf generalizing p written accepted with
  | nil =>
    obtain ⟨rfl, rfl, -⟩ : p = q ∧ written = total ∧ false = full := by
      simpa [Pipe.writeLoop] using hloop
    exact ⟨0, le_rfl, rfl, rfl, by simpa using h⟩
  | cons b bs ih =>
    rw [Pipe.writeLoop] at hloop
    split at hloop
    · obtain ⟨rfl, rfl, -⟩ : p = q ∧ written = total ∧ true = full := by simpa using hloop
      exact ⟨0, Nat.zero_le _, rfl, rfl, by simpa using h⟩
    rename_i hfull
    obtain ⟨hpush, hnw⟩ := h.push (by simpa using hfull) b
    obtain ⟨n, hn, htot, hq, hhol⟩ := ih hpush hloop
    refine ⟨n + 1, by simpa using hn, by omega, by omega, ?_⟩
    simpa using hhol

lemma Holds.in_transit : accepted.length ≤ delivered.length + PIPE_SIZE := by
  have hw := h.nwrite_le
  rw [h.accepted_eq, List.length_append, unread, length_window]
  omega

end

end Pipe

/-! ## Layer C: the system calls and whole runs -/

structure Pipe.SameRing (p q : Pipe) : Prop where
  data : q.data = p.data
  nread : q.nread = p.nread
  nwrite : q.nwrite = p.nwrite

/-- How far a call moved the write counter of a pipe, as a 32-bit difference. -/
def Pipe.movedIn (p q : Pipe) : Nat := (q.nwrite + 2 ^ 32 - p.nwrite) % 2 ^ 32

namespace Kernel

/-- The descriptor `fd` of the running process refers to the pipe slot `i`. -/
def RefersTo (k : Kernel) (fd : Fd) (i : PipeIdx) : Prop :=
  ∃ pid p writable, k.current = some (pid, p) ∧ p.fdTypes fd = .pipe i.val writable

/-- Runs of one pipe since slot `i` was allocated, with the bytes that writers gave and readers got;
other steps leave its ring alone. -/
inductive PipeRun (dev : Devices) (i : PipeIdx) :
    Kernel → (accepted delivered : List Byte) → Prop
  | alloc {k k' : Kernel} (h : k.allocPipe = some (i, k')) : PipeRun dev i k' [] []
  | read {k : Kernel} {accepted delivered : List Byte} (hrun : PipeRun dev i k accepted delivered)
      (fd : Fd) (bufPtr count : Nat) (hfd : k.RefersTo fd i) :
      PipeRun dev i (sysRead dev k fd bufPtr count).kernel accepted
        (delivered ++ (sysRead dev k fd bufPtr count).delivered)
  | write {k : Kernel} {accepted delivered : List Byte} {p q : Pipe}
      (hrun : PipeRun dev i k accepted delivered) (fd : Fd) (bufPtr count : Nat)
      (hfd : k.RefersTo fd i) (hp : k.pipes i = some p)
      (hq : (sysWrite dev k fd bufPtr count).2.pipes i = some q) :
      PipeRun dev i (sysWrite dev k fd bufPtr count).2
        (accepted ++ (loadBytes k.machine.ram k.cr3 bufPtr count).take (p.movedIn q)) delivered
  | other {k k' : Kernel} {accepted delivered : List Byte} {p q : Pipe}
      (hrun : PipeRun dev i k accepted delivered) (hp : k.pipes i = some p)
      (hq : k'.pipes i = some q) (hsame : p.SameRing q) : PipeRun dev i k' accepted delivered

@[simp] lemma keyboardWake_pipes (k : Kernel) : k.keyboardWake.pipes = k.pipes := rfl

@[simp] lemma setProc_pipes (k : Kernel) (pid : Pid) (p : Option Process) :
    (k.setProc pid p).pipes = k.pipes :=
  rfl

@[simp] lemma setPipe_pipes (k : Kernel) (i : PipeIdx) (p : Option Pipe) :
    (k.setPipe i p).pipes = Function.update k.pipes i p :=
  rfl

@[simp] lemma block_pipes (k : Kernel) (reason : WakeReason) :
    (k.block reason).pipes = k.pipes := by
  rw [block]
  split <;> rfl

/-- The caller's buffer passes the checks of `sys_read` and `sys_write`. -/
structure GoodBuffer (k : Kernel) (proc : Process) (bufPtr count : Nat) : Prop where
  count_ne : count ≠ 0
  valid : isValidUserRange bufPtr count = true
  mapped : isUserBufferMapped k.machine.ram proc.pml4Phys bufPtr count = true

variable {k : Kernel} {i : PipeIdx} {fd : Fd} {count bufPtr : Nat} {pid : Pid} {proc : Process}
  {writable : Bool} {p : Pipe}

lemma sysRead_eq_readPipe (dev : Devices) (hcur : k.current = some (pid, proc))
    (htype : proc.fdTypes fd = .pipe i.val writable) (hbuf : k.GoodBuffer proc bufPtr count) :
    sysRead dev k fd bufPtr count = k.readPipe i.val writable count := by
  simp [sysRead, hbuf.count_ne, hbuf.valid, hbuf.mapped, hcur, htype]

lemma sysWrite_eq_writePipe (dev : Devices) (hcur : k.current = some (pid, proc))
    (htype : proc.fdTypes fd = .pipe i.val writable) (hbuf : k.GoodBuffer proc bufPtr count) :
    sysWrite dev k fd bufPtr count =
      k.writePipe i.val writable (loadBytes k.machine.ram k.cr3 bufPtr count) := by
  simp [sysWrite, hbuf.count_ne, hbuf.valid, hbuf.mapped, hcur, htype]

lemma sysRead_pipe (dev : Devices) (hfd : k.RefersTo fd i) (hp : k.pipes i = some p)
    (bufPtr count : Nat) : ((sysRead dev k fd bufPtr count).delivered = [] ∧
        (sysRead dev k fd bufPtr count).kernel.pipes i = some p ∧
        ∀ n, (sysRead dev k fd bufPtr count).ret = .ok n → n = 0) ∨
      ∃ bs q, p.read count = .bytes bs q ∧ (sysRead dev k fd bufPtr count).delivered = bs ∧
        (sysRead dev k fd bufPtr count).kernel.pipes i = some q ∧
        (sysRead dev k fd bufPtr count).ret = .ok bs.length := by
  obtain ⟨pid, proc, writable, hcur, htype⟩ := hfd
  by_cases hcnt : count = 0
  · exact .inl ⟨by simp [sysRead, hcnt], by simpa [sysRead, hcnt] using hp,
      by simp [sysRead, hcnt]⟩
  by_cases hok : isValidUserRange bufPtr count = true ∧
      isUserBufferMapped k.machine.ram proc.pml4Phys bufPtr count = true
  · rw [sysRead_eq_readPipe dev hcur htype ⟨hcnt, hok.1, hok.2⟩]
    cases writable with
    | true => exact .inl ⟨rfl, hp, by simp [readPipe]⟩
    | false =>
      simp only [readPipe, Bool.false_eq_true, if_false, pipeSlot_val, hp]
      cases hr : p.read count with
      | bytes bs q => exact .inr ⟨bs, q, rfl, rfl, by simp, rfl⟩
      | eof => exact .inl ⟨rfl, hp, by simp⟩
      | block => exact .inl ⟨rfl, by simpa using hp, by simp⟩
  have heq : sysRead dev k fd bufPtr count = ⟨.error .EFAULT, [], k⟩ := by
    rcases not_and_or.mp hok with hbad | hbad
    · simp [sysRead, hcnt, hbad]
    · simp [sysRead, hcnt, hbad, hcur]
  exact .inl ⟨by rw [heq], by rw [heq]; exact hp, by simp [heq]⟩

lemma sysWrite_pipe (dev : Devices) (hfd : k.RefersTo fd i) (hp : k.pipes i = some p)
    (bufPtr count : Nat) : ((sysWrite dev k fd bufPtr count).2.pipes i = some p ∧
        ∀ n, (sysWrite dev k fd bufPtr count).1 = .ok n → n = 0) ∨ ∃ q total full,
        p.writeLoop 0 (loadBytes k.machine.ram k.cr3 bufPtr count) = (q, total, full) ∧
        (sysWrite dev k fd bufPtr count).2.pipes i = some q ∧
        (sysWrite dev k fd bufPtr count).1 = .ok total := by
  obtain ⟨pid, proc, writable, hcur, htype⟩ := hfd
  by_cases hcnt : count = 0
  · exact .inl ⟨by simpa [sysWrite, hcnt] using hp, by simp [sysWrite, hcnt]⟩
  by_cases hok : isValidUserRange bufPtr count = true ∧
      isUserBufferMapped k.machine.ram proc.pml4Phys bufPtr count = true
  · rw [sysWrite_eq_writePipe dev hcur htype ⟨hcnt, hok.1, hok.2⟩]
    cases writable with
    | false => exact .inl ⟨hp, by simp [writePipe]⟩
    | true =>
      right
      simp only [writePipe, not_true_eq_false, if_false, pipeSlot_val, hp]
      obtain ⟨q, total, full, hloop⟩ :
          ∃ q total full, p.writeLoop 0 (loadBytes k.machine.ram k.cr3 bufPtr count) =
            (q, total, full) := ⟨_, _, _, rfl⟩
      refine ⟨q, total, full, hloop, ?_⟩
      rw [hloop]
      cases full with
      | false => exact ⟨by simp, rfl⟩
      | true =>
        by_cases hopen : q.readOpen = true
        · by_cases hpos : 0 < total
          · simp [hopen, hpos]
          · obtain rfl : total = 0 := by omega
            simp [hopen]
        by_cases hpos : 0 < total
        · simp [hopen, hpos]
        · simp [hopen, hpos]
  have heq : sysWrite dev k fd bufPtr count = (.error .EFAULT, k) := by
    rcases not_and_or.mp hok with hbad | hbad
    · simp [sysWrite, hcnt, hbad]
    · simp [sysWrite, hcnt, hbad, hcur]
  exact .inl ⟨by rw [heq]; exact hp, by simp [heq]⟩

lemma movedIn_eq {q : Pipe} {n : Nat} (hq : q.nwrite = p.nwrite + n) (hlt : q.nwrite < 2 ^ 32) :
    p.movedIn q = n := by
  rw [Pipe.movedIn]
  omega

/-- Along a run, accepted = delivered ++ unread. -/
lemma PipeRun.holds {dev : Devices} {accepted delivered : List Byte}
    (hrun : PipeRun dev i k accepted delivered) :
    ∃ p, k.pipes i = some p ∧ p.Holds accepted delivered := by
  induction hrun with
  | @alloc k k' h =>
    rw [allocPipe] at h
    split at h
    · simp at h
    · obtain ⟨rfl, rfl⟩ := by simpa using h
      exact ⟨Pipe.new, by simp, Pipe.holds_new⟩
  | read hrun fd bufPtr count hfd ih =>
    obtain ⟨p, hp, hhol⟩ := ih
    rcases sysRead_pipe dev hfd hp bufPtr count with ⟨hd, hp', -⟩ | ⟨bs, q, hr, hd, hq, -⟩
    · exact ⟨p, hp', by simpa [hd] using hhol⟩
    · exact ⟨q, hq, by rw [hd]; exact hhol.read hr⟩
  | @write k accepted delivered p q hrun fd bufPtr count hfd hp hq ih =>
    obtain ⟨p', hp', hhol⟩ := ih
    obtain rfl : p = p' := by simpa [hp] using hp'
    refine ⟨q, hq, ?_⟩
    rcases sysWrite_pipe dev hfd hp bufPtr count with ⟨hsame, -⟩ | ⟨q', total, full, hloop, hq', -⟩
    · obtain rfl : p = q := by simpa [hq] using hsame.symm
      simpa [movedIn_eq (Nat.add_zero _).symm hhol.nwrite_lt] using hhol
    obtain rfl : q' = q := by simpa [hq] using hq'.symm
    obtain ⟨n, -, -, hnw, hq⟩ := hhol.writeLoop hloop
    rwa [movedIn_eq hnw hq.nwrite_lt]
  | other hrun hp hq hsame ih =>
    obtain ⟨p, hp', hhol⟩ := ih
    obtain rfl := by simpa [hp] using hp'
    exact ⟨_, hq, hhol.congr hsame.data hsame.nread hsame.nwrite⟩

/-- **Pipes are FIFO.**  The delivered bytes are a prefix of the accepted ones, at most 512 are in
transit, and a call returns the number of bytes that it moves. -/
theorem pipeRun_fifo (dev : Devices) (i : PipeIdx) {k : Kernel} {accepted delivered : List Byte}
    (hrun : PipeRun dev i k accepted delivered) :
    delivered <+: accepted ∧ accepted.length - delivered.length ≤ 512 ∧
      (∀ (fd : Fd) (bufPtr count n : Nat), k.RefersTo fd i →
        (sysRead dev k fd bufPtr count).ret = .ok n →
          n = (sysRead dev k fd bufPtr count).delivered.length) ∧
      (∀ (fd : Fd) (bufPtr count n : Nat), k.RefersTo fd i →
        (sysWrite dev k fd bufPtr count).1 = .ok n →
          ∃ p q, k.pipes i = some p ∧ (sysWrite dev k fd bufPtr count).2.pipes i = some q ∧
            n = p.movedIn q) := by
  obtain ⟨p, hp, hhol⟩ := hrun.holds
  refine ⟨⟨p.unread, hhol.accepted_eq.symm⟩, ?_, ?_, ?_⟩
  · have := hhol.in_transit
    simp only [PIPE_SIZE] at this
    omega
  · intro fd bufPtr count n hfd hret
    rcases sysRead_pipe dev hfd hp bufPtr count with ⟨hd, -, hzero⟩ | ⟨bs, q, -, hd, -, hr⟩
    · rw [hd, hzero n hret, List.length_nil]
    · rw [hd]
      simpa [hr] using hret.symm
  intro fd bufPtr count n hfd hret
  rcases sysWrite_pipe dev hfd hp bufPtr count with ⟨hp', hzero⟩ | ⟨q, total, full, hloop, hq, hr⟩
  · refine ⟨p, p, hp, hp', ?_⟩
    rw [hzero n hret, movedIn_eq (Nat.add_zero _).symm hhol.nwrite_lt]
  obtain ⟨m, -, htot, hnw, hq'⟩ := hhol.writeLoop hloop
  obtain rfl : total = n := by simpa [hr] using hret
  exact ⟨p, q, hp, hq, by rw [movedIn_eq hnw hq'.nwrite_lt]; omega⟩

/-! ## A process with a pipe -/

def firstPipe : PipeIdx := ⟨0, by decide⟩

/-- A process with a page mapped at 0x1000 and a pipe: descriptor 3 reads, descriptor 4 writes. -/
def pipeOwner : Process :=
  { Process.newUser 2 0x1000 0x2000 2 none 0 8192 with
    state := .running
    fdTypes := fun fd =>
      if fd.val = 3 then .pipe firstPipe.val false
      else if fd.val = 4 then .pipe firstPipe.val true
      else .none }

/-- A kernel in which `pipeOwner` runs alone; its page starts with the bytes 7 and 8. -/
def pipeKernel (pipe : Option Pipe) : Kernel :=
  { bootKernel with
    machine :=
      { onePage.machine with ram := onePage.machine.ram.writeBytes (3 * PAGE_SIZE) [7, 8] }
    cr3 := 2
    procs := fun pid => if pid.val = 2 then some pipeOwner else none
    currentPid := some ⟨2, by decide⟩
    pipes := Function.update (fun _ => none) firstPipe pipe }

lemma pipeKernel_current (p : Option Pipe) :
    (pipeKernel p).current = some (⟨2, by decide⟩, pipeOwner) :=
  rfl

lemma pipeKernel_pipes (p : Option Pipe) : (pipeKernel p).pipes firstPipe = p := rfl

lemma pipeKernel_setPipe (p q : Option Pipe) :
    (pipeKernel p).setPipe firstPipe q = pipeKernel q := by
  rw [setPipe, pipeKernel, Function.update_idem, pipeKernel]

lemma pipeKernel_goodBuffer (p : Option Pipe) {count : Nat} (hcount : count = 1 ∨ count = 2) :
    (pipeKernel p).GoodBuffer pipeOwner 0x1000 count := by
  have hmapped : ∀ n ∈ [1, 2],
      isUserBufferMapped (pipeKernel none).machine.ram pipeOwner.pml4Phys 0x1000 n = true := by
    decide +kernel
  rcases hcount with rfl | rfl
  · exact ⟨by decide, by decide, hmapped 1 (by simp)⟩
  · exact ⟨by decide, by decide, hmapped 2 (by simp)⟩

lemma pipeKernel_wake (p : Option Pipe) : (pipeKernel p).keyboardWake = pipeKernel p := by
  have hsleep : (pipeKernel p).shouldWake pipeOwner = false := rfl
  have hprs : (pipeKernel p).keyboardWake.procs = (pipeKernel p).procs := by
    funext pid
    simp only [keyboardWake, wakeWhere]
    by_cases hpid : pid.val = 2
    · have hproc : (pipeKernel p).procs pid = some pipeOwner := if_pos hpid
      simp [hproc, hsleep]
    · have hproc : (pipeKernel p).procs pid = none := if_neg hpid
      simp [hproc]
  calc (pipeKernel p).keyboardWake
      = { pipeKernel p with procs := (pipeKernel p).keyboardWake.procs } := rfl
    _ = pipeKernel p := by rw [hprs]

lemma pipeKernel_allocPipe :
    (pipeKernel none).allocPipe = some (firstPipe, pipeKernel (some Pipe.new)) := by
  have hfind : ((List.finRange MAX_PIPES).find? fun i => ((pipeKernel none).pipes i).isNone) =
      some firstPipe := by decide
  rw [allocPipe, hfind]
  simp only [pipeKernel_setPipe]

/-- The owner writes from the beginning of its page, and there is room for it. -/
lemma pipeKernel_sysWrite (dev : Devices) {q : Pipe} {total : Nat} (hcount : count = 1 ∨ count = 2)
    (hloop : p.writeLoop 0 (loadBytes (pipeKernel p).machine.ram (pipeKernel p).cr3 0x1000 count) =
      (q, total, false)) :
    sysWrite dev (pipeKernel p) (⟨4, by decide⟩ : Fd) 0x1000 count = (.ok total, pipeKernel q) := by
  rw [sysWrite_eq_writePipe dev (pipeKernel_current p) (i := firstPipe) rfl
    (pipeKernel_goodBuffer p hcount)]
  simp only [writePipe, not_true_eq_false, if_false, pipeSlot_val, pipeKernel_pipes, hloop,
    pipeKernel_setPipe, pipeKernel_wake]

/-- The owner reads what is in the pipe. -/
lemma pipeKernel_sysRead (dev : Devices) {q : Pipe} {bs : List Byte}
    (hcount : count = 1 ∨ count = 2) (hread : p.read count = .bytes bs q) :
    sysRead dev (pipeKernel p) (⟨3, by decide⟩ : Fd) 0x1000 count =
      ⟨.ok bs.length, bs, pipeKernel q⟩ := by
  rw [sysRead_eq_readPipe dev (pipeKernel_current p) (i := firstPipe) rfl
    (pipeKernel_goodBuffer p hcount)]
  simp only [readPipe, Bool.false_eq_true, if_false, pipeSlot_val, pipeKernel_pipes, hread,
    pipeKernel_setPipe, pipeKernel_wake]

section

variable {dev : Devices} {accepted delivered : List Byte}
  (hrun : PipeRun dev firstPipe (pipeKernel p) accepted delivered) (hcount : count = 1 ∨ count = 2)

include hrun hcount

lemma PipeRun.write_owner {q : Pipe} {total : Nat}
    (hloop : p.writeLoop 0 (loadBytes (pipeKernel p).machine.ram (pipeKernel p).cr3 0x1000 count) =
      (q, total, false)) : PipeRun dev firstPipe (pipeKernel q)
      (accepted ++ (loadBytes (pipeKernel p).machine.ram (pipeKernel p).cr3 0x1000 count).take
      (p.movedIn q)) delivered := by
  have hwrite := pipeKernel_sysWrite dev hcount hloop
  have hq : (sysWrite dev (pipeKernel p) (⟨4, by decide⟩ : Fd) 0x1000 count).2.pipes firstPipe =
      some q := by
    rw [hwrite]
    rfl
  have hnext :=
    hrun.write ⟨4, by decide⟩ 0x1000 count ⟨_, _, true, pipeKernel_current p, rfl⟩ rfl hq
  rwa [hwrite] at hnext

lemma PipeRun.read_owner {bs : List Byte} {q : Pipe} (hread : p.read count = .bytes bs q) :
    PipeRun dev firstPipe (pipeKernel q) accepted (delivered ++ bs) := by
  have hnext := hrun.read ⟨3, by decide⟩ 0x1000 count ⟨_, _, false, pipeKernel_current p, rfl⟩
  rwa [pipeKernel_sysRead dev hcount hread] at hnext

end

/-- The owner writes 7 and 8 and reads one of them; then it can read the other one, or write
again. -/
theorem pipeRun_fifo_oneOfTwo : ∃ k, PipeRun noDevices firstPipe k [7, 8] [7] ∧
    [(7 : Byte)] <+: [7, 8] ∧ (sysRead noDevices k 3 0x1000 2).ret = .ok 1 ∧
    1 = (sysRead noDevices k 3 0x1000 2).delivered.length ∧
    (sysWrite noDevices k 4 0x1000 2).1 = .ok 2 ∧
    ∃ p q, k.pipes firstPipe = some p ∧
      (sysWrite noDevices k 4 0x1000 2).2.pipes firstPipe = some q ∧ 2 = p.movedIn q := by
  have hload : ∀ p, loadBytes (pipeKernel p).machine.ram (pipeKernel p).cr3 0x1000 2 = [7, 8] := by
    have hbytes : loadBytes (pipeKernel none).machine.ram 2 0x1000 2 = [7, 8] := by decide +kernel
    exact fun _ => hbytes
  have hstart : PipeRun noDevices firstPipe _ [] [] := .alloc pipeKernel_allocPipe
  have hwritten := hstart.write_owner (.inr rfl) (by rw [hload]; rfl)
  rw [hload] at hwritten
  let p : Pipe := { (Pipe.new.push 7).push 8 with nread := 1 }
  have hrun : PipeRun noDevices firstPipe (pipeKernel p) [7, 8] [7] :=
    hwritten.read_owner (.inl rfl) rfl
  obtain ⟨hfifo, -, hread, hwrite⟩ := pipeRun_fifo noDevices firstPipe hrun
  have hrest : p.read 2 = .bytes [8] { p with nread := 2 } := rfl
  have hroom : p.writeLoop 0 [7, 8] = ((p.push 7).push 8, 2, false) := by
    simp [p, Pipe.writeLoop, Pipe.isFull, Pipe.push, Pipe.new, PIPE_SIZE]
  have hret := congrArg ReadResult.ret (pipeKernel_sysRead noDevices (.inr rfl) hrest)
  have hret' := congrArg Prod.fst
    (pipeKernel_sysWrite noDevices (.inr rfl) ((congrArg _ (hload p)).trans hroom))
  exact ⟨_, hrun, hfifo, hret, hread _ _ _ 1 ⟨_, _, false, rfl, rfl⟩ hret, hret',
    hwrite _ _ _ 2 ⟨_, _, true, rfl, rfl⟩ hret'⟩

end Kernel

end Indominus.Sys
