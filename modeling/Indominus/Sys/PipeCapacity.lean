import Indominus.Sys.PipeFifo

/-!
# When a pipe takes more bytes

The bound `nread + 512` of the fullness test wraps at 32 bits.
-/

namespace Indominus.Sys

open Lib Lib.Ring
open Memory (Byte)

namespace Pipe

variable {p q : Pipe} {accepted delivered : List Byte} {count : Nat}

lemma Holds.isFull_iff (h : p.Holds accepted delivered) :
    p.isFull = true ↔ PIPE_SIZE ≤ p.nwrite - p.nread ∨ 2 ^ 32 - PIPE_SIZE ≤ p.nread := by
  have hr := h.nread_le
  have hfull : p.isFull = true ↔
      p.nwrite = 2 ^ 32 - 1 ∨ (p.nread + PIPE_SIZE) % 2 ^ 32 ≤ p.nwrite := by simp [isFull]
  rw [hfull]
  simp only [PIPE_SIZE]
  -- from `2 ^ 32 - 512` on the bound wraps below `nread`
  omega

lemma Holds.read_nread {bs : List Byte} (h : p.Holds accepted delivered)
    (hread : p.read count = .bytes bs q) : q.nread = p.nread + bs.length := by
  have hw := h.nwrite_lt
  obtain ⟨hpos, rfl, rfl⟩ := read_bytes hread
  rw [length_window]
  exact Nat.mod_eq_of_lt (by omega)

lemma read_eq_bytes (h : 0 < min count (p.nwrite - p.nread)) :
    ∃ bs q, p.read count = .bytes bs q ∧ bs.length = min count (p.nwrite - p.nread) ∧
      q.readOpen = p.readOpen ∧ q.writeOpen = p.writeOpen := by
  refine ⟨window PIPE_SIZE p.cells p.nread (min count (p.nwrite - p.nread)),
    { p with nread := (p.nread + min count (p.nwrite - p.nread)) % 2 ^ 32 }, ?_,
    length_window .., rfl, rfl⟩
  simp only [Pipe.read, readLoop_zero, length_window, if_pos h]

lemma writeLoop_nread {buf : List Byte} {written total : Nat} {full : Bool}
    (h : p.writeLoop written buf = (q, total, full)) : q.nread = p.nread := by
  induction buf generalizing p written with
  | nil =>
    obtain ⟨rfl, -⟩ : p = q ∧ _ := by simpa [writeLoop] using h
    rfl
  | cons b bs ih =>
    rw [writeLoop] at h
    split at h
    · obtain ⟨rfl, -⟩ : p = q ∧ _ := by simpa using h
      rfl
    · exact (ih h).trans rfl

end Pipe

namespace Kernel

variable {accepted delivered : List Byte} {i : PipeIdx} {k : Kernel} {p : Pipe}

lemma PipeRun.delivered_length {dev : Devices} (hrun : PipeRun dev i k accepted delivered) :
    ∀ p, k.pipes i = some p → p.nread = delivered.length := by
  induction hrun with
  | @alloc k k' h =>
    rw [allocPipe] at h
    split at h
    · simp at h
    obtain ⟨rfl, rfl⟩ := by simpa using h
    intro p hp
    obtain rfl : Pipe.new = p := by simpa using hp
    rfl
  | read hrun fd bufPtr count hfd ih =>
    intro q' hq'
    obtain ⟨p, hp, hhol⟩ := hrun.holds
    rcases sysRead_pipe dev hfd hp bufPtr count with ⟨hd, hp', -⟩ | ⟨bs, q, hr, hd, hq, -⟩
    · obtain rfl : p = q' := by simpa [hp'] using hq'
      simpa [hd] using ih p hp
    · obtain rfl : q = q' := by simpa [hq] using hq'
      rw [hd, List.length_append, hhol.read_nread hr, ih p hp]
  | @write k accepted delivered p q hrun fd bufPtr count hfd hp hq ih =>
    intro q' hq'
    obtain rfl : q = q' := by simpa [hq] using hq'
    rcases sysWrite_pipe dev hfd hp bufPtr count with ⟨hsame, -⟩ | ⟨q', total, full, hloop, hq', -⟩
    · obtain rfl : p = q := by simpa [hq] using hsame.symm
      exact ih p hp
    obtain rfl : q' = q := by simpa [hq] using hq'.symm
    rw [Pipe.writeLoop_nread hloop]
    exact ih p hp
  | other hrun hp hq hsame ih =>
    intro q' hq'
    obtain rfl := by simpa [hq] using hq'
    rw [hsame.nread]
    exact ih _ hp

lemma writePipe_ret {q : Pipe} {buf : List Byte} {total : Nat} {full : Bool}
    (hp : k.pipes i = some p) (hloop : p.writeLoop 0 buf = (q, total, full)) :
    (k.writePipe i.val true buf).1 = .ok total := by
  simp only [writePipe, not_true_eq_false, if_false, pipeSlot_val, hp, hloop]
  cases full with
  | false => rfl
  | true =>
    by_cases hpos : 0 < total
    · simp [hpos]
    obtain rfl : total = 0 := by omega
    simp only [Nat.lt_irrefl, if_false]
    split <;> rfl

/-- **When a write is accepted.**  A pipe with fewer than 512 unread bytes accepts a byte exactly
when fewer than `2 ^ 32 - 512` have been read from it. -/
theorem sysWrite_accepts_iff (dev : Devices) (i : PipeIdx) {k : Kernel}
    {accepted delivered : List Byte} (hrun : PipeRun dev i k accepted delivered) {pid : Pid}
    {proc : Process} (hcur : k.current = some (pid, proc)) {fd : Fd}
    (hfd : proc.fdTypes fd = .pipe i.val true) {bufPtr count : Nat}
    (hbuf : k.GoodBuffer proc bufPtr count) (hroom : accepted.length - delivered.length < 512) :
    (∃ n, 0 < n ∧ (sysWrite dev k fd bufPtr count).1 = .ok n) ↔
      delivered.length < 2 ^ 32 - 512 := by
  obtain ⟨p, hp, hhol⟩ := hrun.holds
  have hread := hrun.delivered_length p hp
  have hunread : p.nwrite - p.nread < PIPE_SIZE := by
    have hlen := congrArg List.length hhol.accepted_eq
    rw [List.length_append, Pipe.unread, length_window] at hlen
    simp only [PIPE_SIZE]
    omega
  obtain ⟨b, bs, hload⟩ : ∃ b bs, loadBytes k.machine.ram k.cr3 bufPtr count = b :: bs := by
    obtain ⟨n, rfl⟩ := Nat.exists_eq_succ_of_ne_zero hbuf.count_ne
    exact ⟨_, _, by rw [loadBytes, List.range_succ_eq_map, List.map_cons]⟩
  rw [sysWrite_eq_writePipe dev hcur hfd hbuf, hload]
  have hfull := hhol.isFull_iff
  by_cases hjam : p.isFull = true
  · -- the loop stops before the first byte
    rw [writePipe_ret hp (by rw [Pipe.writeLoop, if_pos hjam])]
    have := hfull.mp hjam
    simp only [PIPE_SIZE] at this hunread
    simp only [Except.ok.injEq]
    constructor
    · rintro ⟨n, hn, rfl⟩
      omega
    · omega
  obtain ⟨q, total, full, hloop⟩ : ∃ q total full,
      (p.push b).writeLoop 1 bs = (q, total, full) := ⟨_, _, _, rfl⟩
  have hnot : ¬ 2 ^ 32 - PIPE_SIZE ≤ p.nread := fun h => hjam (hfull.mpr (.inr h))
  obtain ⟨hpush, -⟩ := hhol.push (by simpa using hjam) b
  obtain ⟨n, -, rfl, -⟩ := hpush.writeLoop hloop
  rw [writePipe_ret hp (by rw [Pipe.writeLoop, if_neg hjam, hloop])]
  simp only [PIPE_SIZE] at hnot
  exact ⟨fun _ => by omega, fun _ => ⟨1 + n, by omega, rfl⟩⟩

/-! ## A pipe that jams -/

lemma pipeRun_one_byte (dev : Devices)
    (hrun : PipeRun dev firstPipe (pipeKernel p) accepted delivered)
    (hemp : accepted.length = delivered.length) (hlt : delivered.length < 2 ^ 32 - 512) :
    ∃ q accepted' delivered', PipeRun dev firstPipe (pipeKernel (some q)) accepted' delivered' ∧
      accepted'.length = delivered'.length ∧ delivered'.length = delivered.length + 1 ∧
      q.readOpen = p.readOpen ∧ q.writeOpen = p.writeOpen := by
  obtain ⟨p', hp', hhol⟩ := hrun.holds
  obtain rfl : p = p' := Option.some.inj hp'
  have hread := hrun.delivered_length p rfl
  have hunread : p.nwrite = p.nread := by
    have hlen := congrArg List.length hhol.accepted_eq
    have := hhol.nread_le
    rw [List.length_append, Pipe.unread, length_window] at hlen
    omega
  have hfull : p.isFull = false := by
    rw [Bool.eq_false_iff, ne_eq, hhol.isFull_iff]
    simp only [PIPE_SIZE]
    omega
  obtain ⟨b, hload⟩ : ∃ b, loadBytes (pipeKernel p).machine.ram (pipeKernel p).cr3 0x1000 1 = [b] :=
    ⟨_, rfl⟩
  obtain ⟨hpush, hnw⟩ := hhol.push hfull b
  -- the byte goes in
  have hloop : p.writeLoop 0 [b] = (p.push b, 1, false) := by
    rw [Pipe.writeLoop, hfull]
    rfl
  have hin := hrun.write_owner (.inl rfl) (by rw [hload, hloop])
  rw [hload, movedIn_eq hnw hpush.nwrite_lt] at hin
  -- and out again
  have hone : min 1 ((p.push b).nwrite - (p.push b).nread) = 1 := by
    rw [show (p.push b).nread = p.nread from rfl]
    omega
  obtain ⟨bs, q, hbs, hlen, hr, hw⟩ := Pipe.read_eq_bytes (Nat.lt_of_lt_of_eq Nat.one_pos hone.symm)
  rw [hone] at hlen
  exact ⟨q, accepted ++ [b], delivered ++ bs, hin.read_owner (.inl rfl) hbs, by simp [hemp, hlen],
    by simp [hlen], hr, hw⟩

lemma exists_pipeRun (dev : Devices) (n : Nat) (hn : n ≤ 2 ^ 32 - 512) :
    ∃ p accepted delivered, PipeRun dev firstPipe (pipeKernel (some p)) accepted delivered ∧
      accepted.length = delivered.length ∧ delivered.length = n ∧ p.readOpen = true ∧
      p.writeOpen = true := by
  induction n with
  | zero => exact ⟨Pipe.new, [], [], .alloc pipeKernel_allocPipe, rfl, rfl, rfl, rfl⟩
  | succ n ih =>
    obtain ⟨p, accepted, delivered, hrun, hemp, rfl, hr, hw⟩ := ih (by omega)
    obtain ⟨q, accepted', delivered', hrun', hemp', hlen, hr', hw'⟩ :=
      pipeRun_one_byte dev hrun hemp (by omega)
    exact ⟨q, accepted', delivered', hrun', hemp', hlen, hr'.trans hr, hw'.trans hw⟩

/-- After `2 ^ 32 - 512` bytes have passed through a pipe it is empty, both ends are open, and a
write of one byte is refused. -/
theorem pipe_jams : ∃ (dev : Devices) (k : Kernel) (accepted delivered : List Byte) (p : Pipe),
    PipeRun dev firstPipe k accepted delivered ∧ k.current = some (⟨2, by decide⟩, pipeOwner) ∧
      k.GoodBuffer pipeOwner 0x1000 1 ∧ k.pipes firstPipe = some p ∧ p.readOpen = true ∧
      p.writeOpen = true ∧ accepted.length - delivered.length < 512 ∧
      (sysWrite dev k (⟨4, by decide⟩ : Fd) 0x1000 1).1 = .ok 0 := by
  obtain ⟨p, accepted, delivered, hrun, hemp, hlen, hr, hw⟩ :=
    exists_pipeRun noDevices (2 ^ 32 - 512) le_rfl
  refine ⟨noDevices, pipeKernel p, accepted, delivered, p, hrun, rfl,
    pipeKernel_goodBuffer _ (.inl rfl), rfl, hr, hw, by omega, ?_⟩
  obtain ⟨p', hp', hhol⟩ := hrun.holds
  obtain rfl : p = p' := Option.some.inj hp'
  have hfull : p.isFull = true := by
    rw [hhol.isFull_iff, hrun.delivered_length p rfl]
    simp only [PIPE_SIZE]
    omega
  rw [sysWrite_eq_writePipe noDevices (pipeKernel_current p) (i := firstPipe) rfl
    (pipeKernel_goodBuffer p (.inl rfl))]
  exact writePipe_ret (pipeKernel_pipes p) (by
    rw [loadBytes, List.range_succ_eq_map, List.map_cons, Pipe.writeLoop, if_pos hfull])

/-- A pipe that has just been allocated accepts a byte. -/
theorem sysWrite_accepts_new : ∃ n, 0 < n ∧
    (sysWrite noDevices (pipeKernel (some Pipe.new)) (⟨4, by decide⟩ : Fd) 0x1000 1).1 = .ok n :=
  (sysWrite_accepts_iff _ firstPipe (.alloc pipeKernel_allocPipe) (pipeKernel_current _)
    (show pipeOwner.fdTypes ⟨4, by decide⟩ = _ from rfl) (pipeKernel_goodBuffer _ (.inl rfl))
    (by decide)).mpr (by decide)

end Kernel

end Indominus.Sys
