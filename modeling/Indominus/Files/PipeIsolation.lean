import Indominus.Files.OpenFiles
import Indominus.Sys.PipeCapacity

/-!
# Pipes do not talk across each other

`sys_dup` counts before it looks for a free descriptor.  If a count runs over its 16 bits, a slot is
handed out while descriptors refer to it; otherwise every byte comes out of the pipe that it was put
in.
-/

namespace Indominus.Sys

open Lib Lib.Ring Memory Kernel Option Function

/-! ## The ring -/

/-- Each cell that has been written to was written to last through a descriptor of call `t`. -/
def Pipe.WrittenBy (p : Pipe) (cells : Nat → Option Nat) (t : Nat) : Prop :=
  ∀ c < PIPE_SIZE, c < p.nwrite → cells c = some t

variable {p' : Pipe} {bs : List Byte} {count t : Nat}

lemma Pipe.read_fields {p : Pipe} (h : p.read count = .bytes bs p') :
    p'.refcount = p.refcount ∧ p'.nwrite = p.nwrite := by
  unfold Pipe.read at h
  dsimp only at h
  split at h
  · obtain ⟨-, rfl⟩ := ReadOutcome.bytes.inj h
    exact ⟨rfl, rfl⟩
  · split at h <;> cases h

lemma Pipe.writeLoop_fields {p : Pipe} {buf : List Byte} {m n : Nat} {full : Bool}
    (hlt : p.nwrite < 2 ^ 32) (h : p.writeLoop m buf = (p', n, full)) :
    p'.refcount = p.refcount ∧ p'.nwrite < 2 ^ 32 ∧ m ≤ n ∧ p'.nwrite = p.nwrite + (n - m) := by
  induction buf generalizing p m with
  | nil =>
    obtain ⟨rfl, rfl, -⟩ : p = p' ∧ m = n ∧ false = full := by simpa [Pipe.writeLoop] using h
    exact ⟨rfl, hlt, le_rfl, by omega⟩
  | cons b bs ih =>
    rw [Pipe.writeLoop] at h
    split at h
    · obtain ⟨rfl, rfl, -⟩ : p = p' ∧ m = n ∧ true = full := by simpa using h
      exact ⟨rfl, hlt, le_rfl, by omega⟩
    rename_i hfull
    have hmax := (Pipe.room_of_not_isFull (p := p) (by simpa using hfull)).1
    have hpush : (p.push b).nwrite = p.nwrite + 1 := Nat.mod_eq_of_lt (by omega)
    obtain ⟨hcnt, hlt', hle, hnwrite⟩ := ih (by omega) h
    exact ⟨hcnt, hlt', by omega, by omega⟩

lemma Pipe.WrittenBy.write {p p' : Pipe} {cells : Nat → Option Nat} {t n : Nat}
    (h : p.WrittenBy cells t) (hnwrite : p'.nwrite = p.nwrite + n) :
    p'.WrittenBy (Notes.taint cells p.nwrite n t) t := by
  intro c hc hlt
  unfold Notes.taint
  split
  · rfl
  rename_i hout
  apply h c hc
  by_contra hge
  -- a cell beyond the old counter is one of those just written
  apply hout
  refine ⟨c - p.nwrite, by omega, ?_⟩
  rw [Nat.add_sub_cancel' (by omega), Nat.mod_eq_of_lt hc]

lemma Pipe.WrittenBy.read {p : Pipe} {cells : Nat → Option Nat} {j : Nat} (h : p.WrittenBy cells t)
    (hread : p.read count = .bytes bs p') (hj : j < bs.length) :
    bs[j] = p.data.get ((p.nread + j) % PIPE_SIZE) ∧
      cells ((p.nread + j) % PIPE_SIZE) = some t := by
  unfold Pipe.read at hread
  rw [Pipe.readLoop_zero] at hread
  dsimp only at hread
  split at hread
  swap
  · split at hread <;> cases hread
  obtain ⟨rfl, -⟩ := ReadOutcome.bytes.inj hread
  rw [length_window] at hj
  refine ⟨by simp [window, Pipe.cells], h _ (Nat.mod_lt _ (by decide)) ?_⟩
  have hle := Nat.mod_le (p.nread + j) PIPE_SIZE
  omega

/-! ## The pipe table -/

/-- Slots are freed and counts move, but nothing is written. -/
def Kept (pipes pipes' : PipeSlots) : Prop :=
  ∀ i q, pipes' i = some q → ∃ p, pipes i = some p ∧ q.nwrite = p.nwrite

namespace Kept

variable {pipes pipes' pipes'' : PipeSlots}

lemma refl (pipes : PipeSlots) : Kept pipes pipes := fun _ q hq => ⟨q, hq, rfl⟩

lemma trans (h : Kept pipes pipes') (h' : Kept pipes' pipes'') : Kept pipes pipes'' := by
  intro i q hq
  obtain ⟨p', hp', heq'⟩ := h' i q hq
  obtain ⟨p, hp, heq⟩ := h i p' hp'
  exact ⟨p, hp, heq'.trans heq⟩

lemma replace {i : PipeIdx} {o : Option Pipe}
    (h : ∀ q, o = some q → ∃ p, pipes i = some p ∧ q.nwrite = p.nwrite) :
    Kept pipes (update pipes i o) := by
  intro j q hq
  rw [update_apply] at hq
  split at hq
  · rename_i hji
    rw [hji]
    exact h q hq
  · exact ⟨q, hq, rfl⟩

lemma closedSlot (dec : Nat → Nat) (i : PipeIdx) (b : Bool) :
    Kept pipes (update pipes i (closedSlot dec b (pipes i))) := by
  apply replace
  intro q hq
  cases hp : pipes i with
  | none => simp [hp, Sys.closedSlot] at hq
  | some p =>
    refine ⟨p, rfl, ?_⟩
    simp only [hp, Sys.closedSlot] at hq
    split at hq
    · cases hq
    · cases hq
      cases b <;> rfl

lemma closePipe (i : PipeIdx) (b : Bool) : Kept pipes (Kernel.closePipe pipes i b) := by
  rw [closePipe_eq]
  exact closedSlot _ i b

lemma retainPipe (i : PipeIdx) : Kept pipes (Kernel.retainPipe pipes i) := by
  unfold Kernel.retainPipe
  split
  · exact refl pipes
  rename_i p hp
  apply replace
  rintro q hq
  refine ⟨p, hp, ?_⟩
  rw [← some.inj hq]

lemma closeFd (kind : FdType) : Kept pipes (World.closeFd pipes kind) := by
  unfold World.closeFd
  split
  · exact refl pipes
  · exact closePipe _ _

lemma retainEnd (o : Option End) : Kept pipes (PipeWorld.retainEnd pipes o) := by
  cases o with
  | none => exact refl pipes
  | some e => exact retainPipe e.1

lemma replaceFd (old new : FdType) : Kept pipes (World.replaceFd pipes old new) := by
  refine trans ?_ (retainEnd (pipeOp old))
  cases pipeOp new with
  | none => exact refl pipes
  | some e =>
    rw [PipeWorld.closeEnd, closePipeWrapping_eq]
    exact closedSlot _ e.1 e.2

lemma foldl {α : Type} {f : PipeSlots → α → PipeSlots}
    (hf : ∀ pipes a, Kept pipes (f pipes a)) (l : List α) : Kept pipes (l.foldl f pipes) := by
  induction l generalizing pipes with
  | nil => exact refl pipes
  | cons a l ih => exact (hf pipes a).trans ih

end Kept

/-! ## The invariant -/

namespace World

def pipeWorld (w : World) : PipeWorld :=
  ⟨fun pid fd => (w.rows pid).bind fun row => pipeOp (row.fds fd), w.pipes⟩

/-- Slots are not freed under a descriptor; the descriptors of a slot stem from one call, and so
does what was written to it. -/
structure Isolated (w : World) : Prop where
  tracks : ∃ extra, w.pipeWorld.Tracks extra
  owner : ∀ i q, w.pipes i = some q → q.nwrite < 2 ^ 32 ∧ ∃ t,
    (∀ b o t', w.Sees (.pipe i.val b) o t' → t' = t) ∧ q.WrittenBy (w.shadow i) t

/-- Descriptors are added only when every count is away from the end of its 16 bits. -/
def CountsLow (w : World) : Deed → Prop
  | .retains => PipeWorld.Low w.pipes
  | _ => True

variable {w w' : World} {pid : Pid} {row row' : Row}

lemma shareable_pipe (i : PipeIdx) (b : Bool) : Shareable (.pipe i.val b) := by
  right
  simp only [pipeOp, pipeSlot_val]
  rintro ⟨⟩

lemma pipeWorld_row (hrow : w.rows pid = some row) :
    w.pipeWorld.fds pid = fun fd => pipeOp (row.fds fd) := by
  funext fd
  simp [pipeWorld, hrow]

lemma pipeWorld_fd (hrow : w.rows pid = some row) (fd : Fd) :
    w.pipeWorld.fds pid fd = pipeOp (row.fds fd) :=
  congrFun (pipeWorld_row hrow) fd

lemma pipeWorld_update {o : Option Row} (hrows : w'.rows = update w.rows pid o) :
    w'.pipeWorld = ⟨update w.pipeWorld.fds pid fun fd => o.bind fun row => pipeOp (row.fds fd),
      w'.pipes⟩ := by
  unfold pipeWorld
  rw [hrows]
  congr 1
  funext i
  rw [update_apply]
  split
  · rename_i hi
    rw [hi, update_self]
  · rename_i hi
    rw [update_of_ne hi]

lemma pipeOp_point (fd : Fd) (kind : FdType) : (fun fd' => pipeOp ((row.point fd kind).fds fd')) =
      update (fun fd' => pipeOp (row.fds fd')) fd (pipeOp kind) := pipeOp_update row.fds fd kind

/-! ## Steps -/

variable {i : PipeIdx} {extra : PipeIdx → Nat}

lemma Isolated.not_sees (h : w.Isolated) (hfree : w.pipes i = none) {b : Bool} {o : Option Nat} :
    ¬ w.Sees (.pipe i.val b) o t := by
  rintro ⟨pid, row, fd, hrow, hfd, -, -⟩
  obtain ⟨extra, htr⟩ := h.tracks
  have href : w.pipeWorld.fds pid fd = some (i, b) := by
    rw [pipeWorld_fd hrow, hfd]
    simp [pipeOp, pipeSlot_val]
  have hpos := htr.pos_of_fd href
  rw [show w.pipeWorld.pipes i = none from hfree] at hpos
  exact absurd hpos (Nat.lt_irrefl 0)

section

variable (h : w.pipeWorld.Tracks extra)

include h

lemma tracks_same (hrows : w'.rows = update w.rows pid (some row')) (hpip : w'.pipes = w.pipes)
    (hfds : ∀ fd, pipeOp (row'.fds fd) = w.pipeWorld.fds pid fd) : w'.pipeWorld.Tracks extra := by
  rw [pipeWorld_update hrows, hpip]
  simp only [bind_some]
  rw [funext hfds, update_eq_self]
  exact h

lemma tracks_close {fd : Fd} (hrow : w.rows pid = some row)
    (hrows : w'.rows = update w.rows pid (some (row.point fd .none)))
    (hpip : w'.pipes = closeFd w.pipes (row.fds fd)) : w'.pipeWorld.Tracks extra := by
  have hcl := @PipeWorld.Tracks.close w.pipeWorld extra pid h fun fd' => decide (fd' = fd)
  simp only [decide_eq_true_eq, ends_single, pipeWorld_row hrow] at hcl
  rw [pipeWorld_update hrows, hpip]
  have hfds : (fun fd' => (some (row.point fd .none)).bind fun row => pipeOp (row.fds fd')) =
      fun fd' => if fd' = fd then none else pipeOp (row.fds fd') := by
    funext fd'
    rw [bind_some, Row.point_fds]
    split <;> rfl
  have htab : closeFd w.pipes (row.fds fd) =
      closePipes w.pipeWorld.pipes (pipeOp (row.fds fd)).toList := by
    unfold closeFd
    cases pipeOp (row.fds fd) <;> rfl
  rw [hfds, htab]
  exact hcl

lemma tracks_reap (hrow : w.rows pid = some row) (hrows : w'.rows = update w.rows pid none)
    (hpip : w'.pipes = closePipes w.pipes ((List.finRange MAX_FDS).filterMap
      fun fd => pipeOp (row.fds fd))) : w'.pipeWorld.Tracks extra := by
  have hcl := @PipeWorld.Tracks.close w.pipeWorld extra pid h fun _ => true
  simp only [if_true, pipeWorld_row hrow] at hcl
  rw [pipeWorld_update hrows, hpip]
  exact hcl

lemma tracks_bytes {p : Pipe} (hp : w.pipes i = some p) (hcnt : p'.refcount = p.refcount)
    (hrows : w'.rows = w.rows) (hpip : w'.pipes = update w.pipes i (some p')) :
    w'.pipeWorld.Tracks extra := by
  have hfds : w'.pipeWorld.fds = w.pipeWorld.fds := by
    unfold pipeWorld
    rw [hrows]
  have hsame : ∀ j, refcountOf (w'.pipes j) = refcountOf (w.pipes j) := by
    intro j
    rw [hpip]
    rcases eq_or_ne j i with rfl | hji
    · rw [update_self, hp]
      exact hcnt
    · rw [update_of_ne hji]
  refine ⟨fun j => ?_, fun j q hq => ?_⟩
  · have hj := h.count j
    unfold PipeWorld.refs at hj ⊢
    rw [hfds]
    exact (hsame j).trans hj
  change w'.pipes j = some q at hq
  rw [hpip] at hq
  rcases eq_or_ne j i with rfl | hji
  · rw [update_self] at hq
    rw [← some.inj hq, hcnt]
    exact h.live j p hp
  · rw [update_of_ne hji] at hq
    exact h.live j q hq

end

lemma Isolated.tracks_step (h : w.Isolated) (hstep : Step CountsLow w w') :
    ∃ extra, w'.pipeWorld.Tracks extra := by
  obtain ⟨extra, htr⟩ := h.tracks
  cases hstep with
  | @openFile pid row fd slot obj hrow hfd _ _ =>
    refine ⟨extra, tracks_same htr rfl rfl fun fd' => ?_⟩
    rw [pipeWorld_fd hrow, Row.take_fds]
    split
    · rename_i heq
      rw [heq, hfd]
      rfl
    · rfl
  | close hrow _ _ => exact ⟨extra, tracks_close htr hrow rfl rfl⟩
  | @dup pid row old new hrow _ hnew hH =>
    have hfree : w.pipeWorld.fds pid new = none := by
      rw [pipeWorld_fd hrow, hnew]
      rfl
    have hdup := @PipeWorld.Tracks.dup w.pipeWorld extra pid old new htr hH hfree
    refine ⟨extra, ?_⟩
    rw [pipeWorld_update rfl]
    simp only [bind_some, pipeOp_point]
    rw [pipeWorld_row hrow] at hdup
    exact hdup
  | lose hH => exact htr.lose hH _
  | @dup2 pid row old new hrow hne _ hH =>
    have hreplace := @PipeWorld.Tracks.replace w.pipeWorld extra pid old new htr hH hne
    refine ⟨extra, ?_⟩
    rw [pipeWorld_update rfl]
    simp only [bind_some, pipeOp_point, Row.release_fds]
    rw [pipeWorld_row hrow] at hreplace
    exact hreplace
  | @pipe pid row rd wr i hrow hfree hne hrd hwr =>
    have hopen : ∀ {fd}, row.fds fd = .none → w.pipeWorld.fds pid fd = none := by
      intro fd hfd
      rw [pipeWorld_fd hrow, hfd]
      rfl
    have hcr := htr.create hfree hne (hopen hrd) (hopen hwr)
    refine ⟨extra, ?_⟩
    rw [pipeWorld_update rfl]
    simp only [bind_some, pipeOp_point]
    rw [pipeWorld_row hrow] at hcr
    simp only [pipeOp, pipeSlot_val, map_some]
    exact hcr
  | @fork parent child row hrow hch hH =>
    have hnone : ∀ fd, w.pipeWorld.fds child fd = none := by
      intro fd
      simp [pipeWorld, hch]
    have hinherit := @PipeWorld.Tracks.inherit w.pipeWorld extra htr hH parent child hnone
    refine ⟨extra, ?_⟩
    rw [pipeWorld_update rfl]
    rw [pipeWorld_row hrow] at hinherit
    exact hinherit
  | @spawn pid row hfree hpln =>
    refine ⟨extra, tracks_same htr rfl rfl fun fd => ?_⟩
    simp [pipeWorld, hfree, hpln.pipes]
  | reap hrow => exact ⟨extra, tracks_reap htr hrow rfl rfl⟩
  | read hp hread =>
    exact ⟨extra, tracks_bytes htr hp (Pipe.read_fields hread).1 rfl rfl⟩
  | write hrow hfd hp hwrite =>
    have hlt := (h.owner _ _ hp).1
    exact ⟨extra, tracks_bytes htr hp (Pipe.writeLoop_fields hlt hwrite).1 rfl rfl⟩

lemma Isolated.owner_of_kept (h : w.Isolated) (hkept : Kept w.pipes w'.pipes)
    (hshadow : w'.shadow = w.shadow)
    (hsees : ∀ (i : PipeIdx) b o t, w'.Sees (.pipe i.val b) o t → w.Sees (.pipe i.val b) o t)
    (i : PipeIdx) (q : Pipe) (hq : w'.pipes i = some q) :
    q.nwrite < 2 ^ 32 ∧ ∃ t, (∀ b o t', w'.Sees (.pipe i.val b) o t' → t' = t) ∧
      q.WrittenBy (w'.shadow i) t := by
  obtain ⟨p, hp, hnwrite⟩ := hkept i q hq
  obtain ⟨hlt, t, hfds, hwrt⟩ := h.owner i p hp
  refine ⟨hnwrite ▸ hlt, t, fun b o t' hs => hfds b o t' (hsees i b o t' hs), ?_⟩
  intro c hc hcell
  rw [hshadow]
  exact hwrt c hc (hnwrite ▸ hcell)

/-- While counts are low pipes stay apart; one case for each change. -/
lemma Isolated.step (h : w.Isolated) (hstep : Step CountsLow w w') : w'.Isolated := by
  refine ⟨h.tracks_step hstep, ?_⟩
  have hqt : w'.next = w.next → ∀ (i : PipeIdx) b o t, w'.Sees (.pipe i.val b) o t →
      w.Sees (.pipe i.val b) o t := fun hnext i b o t => hstep.sees hnext (shareable_pipe i b)
  cases hstep with
  | openFile hrow _ _ _ =>
    refine h.owner_of_kept (Kept.refl _) rfl (fun i b o t hs => ?_)
    obtain ⟨-, -, hkind⟩ | hold | ⟨hkind, -⟩ := hs.of_openFile hrow rfl rfl
    · cases hkind
    · exact hold
    · cases hkind
  | close => exact h.owner_of_kept (Kept.closeFd _) rfl (hqt rfl)
  | dup => exact h.owner_of_kept (Kept.retainEnd _) rfl (hqt rfl)
  | lose => exact h.owner_of_kept (Kept.retainPipe _) rfl (hqt rfl)
  | dup2 => exact h.owner_of_kept (Kept.replaceFd _ _) rfl (hqt rfl)
  | @pipe pid row rd wr i hrow hfree _ _ _ =>
    intro j q hq
    dsimp only at hq
    rcases eq_or_ne j i with rfl | hji
    · -- the new pipe: nothing is written, and only the two new descriptors refer to it
      rw [update_self] at hq
      cases hq
      refine
        ⟨by decide, w.next, fun b o t' hs => ?_, fun c _ hcell => absurd hcell (Nat.not_lt_zero c)⟩
      obtain ⟨ht, -⟩ | hold := hs.of_pipe hrow rfl rfl
      · exact ht
      · exact absurd hold (h.not_sees hfree)
    rw [update_of_ne hji] at hq
    obtain ⟨hlt, t, hfds, hwrt⟩ := h.owner j q hq
    refine ⟨hlt, t, fun b o t' hs => ?_, ?_⟩
    · obtain ⟨-, writable, hkind⟩ | hold := hs.of_pipe hrow rfl rfl
      · exact absurd (Fin.ext (FdType.pipe.inj hkind).1) hji
      · exact hfds b o t' hold
    dsimp only
    rw [update_of_ne hji]
    exact hwrt
  | fork =>
      exact h.owner_of_kept (Kept.foldl (fun _ (e : End) => Kept.retainPipe e.1) _) rfl (hqt rfl)
  | spawn => exact h.owner_of_kept (Kept.refl _) rfl (hqt rfl)
  | reap =>
      exact h.owner_of_kept (Kept.foldl (fun _ (e : End) => Kept.closePipe e.1 e.2) _) rfl (hqt rfl)
  | read hp hread =>
    refine h.owner_of_kept (Kept.replace fun q hq => ⟨_, hp, ?_⟩) rfl (hqt rfl)
    cases hq
    exact (Pipe.read_fields hread).2
  | @write pid row fd i p p' buf n full hrow hfd hp hwr =>
    intro j q hq
    dsimp only at hq
    rcases eq_or_ne j i with rfl | hji
    · rw [update_self] at hq
      cases hq
      obtain ⟨hlt, t, hfds, hwrt⟩ := h.owner j p hp
      obtain ⟨-, hlt', -, hnwrite⟩ := Pipe.writeLoop_fields hlt hwr
      refine ⟨hlt', t, fun b o t' hs => hfds b o t' (hqt rfl j b o t' hs), ?_⟩
      -- the writer's descriptor stems from the same call as all others of this slot
      have htag : w.tag pid.val fd.val = t := hfds true none _ ⟨pid, row, fd, hrow, hfd, rfl, rfl⟩
      dsimp only
      rw [update_self, htag]
      exact hwrt.write hnwrite
    rw [update_of_ne hji] at hq
    obtain ⟨hlt, t, hfds, hwrt⟩ := h.owner j q hq
    refine ⟨hlt, t, fun b o t' hs => hfds b o t' (hqt rfl j b o t' hs), ?_⟩
    dsimp only
    rw [update_of_ne hji]
    exact hwrt

end World

/-! ## Runs -/

namespace Kernel

variable {M : Mapper} {k k' k0 : Kernel} {g g0 : Notes} {pid : Pid} {p : Process}

/-- Descriptors are added only when the count of every pipe is more than one table away from
65536. -/
def CountsLow (k : Kernel) : Event → Prop
  | .syscall _ _ (.dup _) | .syscall _ _ (.dup2 _ _) | .syscall _ _ (.fork _ _) =>
    ∀ i, ∀ q ∈ k.pipes i, q.refcount + MAX_FDS < 2 ^ 16
  | _ => True

instance (k : Kernel) (ev : Event) : Decidable (k.CountsLow ev) := by
  induction ev using Event.casesOn with
  | syscall savedRsp frame call =>
    induction call using Syscall.casesOn <;> dsimp only [CountsLow] <;> infer_instance
  | _ => dsimp only [CountsLow]; infer_instance

lemma low_of_pipes (h : ∀ i, ∀ q ∈ k.pipes i, q.refcount + MAX_FDS < 2 ^ 16) :
    PipeWorld.Low k.pipes := by
  intro i
  cases hq : k.pipes i with
  | none => decide
  | some q => exact h i q hq

lemma CountsLow.permits {ev : Event} (h : k.CountsLow ev) {d : Deed} (hd : k.does ev d) :
    (k.world g).CountsLow d := by
  cases ev with
  | syscall savedRsp frame call =>
    obtain ⟨cur, -, hdoes⟩ := hd
    cases d with
    | retains =>
      cases call with
      | dup | dup2 | fork => exact low_of_pipes h
      | _ => exact hdoes.elim
    | _ => trivial
  | _ => exact hd.elim

lemma isolated_of_blank (hbl : k0.Blank) : (k0.world g0).Isolated where
  tracks := by
    have hfds : ∀ pid fd, (k0.world g0).pipeWorld.fds pid fd = none := by
      intro pid fd
      simp [World.pipeWorld, world, hbl.procs]
    have hpip : ∀ i, (k0.world g0).pipeWorld.pipes i = none := hbl.pipes
    refine ⟨fun _ => 0, fun i => ?_, fun i q hq => ?_⟩
    · rw [hpip, PipeWorld.refs, tally_eq_zero.mpr]
      · rfl
      intro x
      rw [hfds]
      rfl
    · rw [hpip] at hq
      cases hq
  owner i q hq := by
    have hnone : (k0.world g0).pipes i = none := hbl.pipes i
    rw [hnone] at hq
    cases hq

lemma NotedRuns.isolated (hbl : k0.Blank) (h : NotedRuns M CountsLow (k0, g0) (k, g)) :
    (k.world g).Isolated := by
  refine NotedRuns.invariant hbl (isolated_of_blank hbl) ?_ h
  intro k k' g ev htidy hlow hisolated hsts
  have hfs := hsts.files (g := g) htidy fun d hd => hlow.permits hd
  exact hfs.invariant (fun _ _ hI hstep => World.Isolated.step hI hstep) hisolated

/-- **Pipes do not talk across each other** in runs in which descriptors are added only while the
counts are low: no descriptor refers to a free slot, those of a slot stem from one `sys_pipe`, and
so does each byte that is read. -/
theorem NotedRuns.pipes_isolated (hblank : k0.Blank) (h : NotedRuns M CountsLow (k0, g0) (k, g)) :
    (∀ pid p fd (i : PipeIdx) b, k.procs pid = some p → p.fdTypes fd = .pipe i.val b →
      (k.pipes i).isSome = true) ∧ (∀ pid p fd b pid' p' fd' b' (i : PipeIdx),
      k.procs pid = some p → p.fdTypes fd = .pipe i.val b →
      k.procs pid' = some p' → p'.fdTypes fd' = .pipe i.val b' →
      g.tag pid.val fd.val = g.tag pid'.val fd'.val) ∧
    ∀ dev pid p (fd : Fd) b (i : PipeIdx) q bufPtr count j,
      k.current = some (pid, p) → p.fdTypes fd = .pipe i.val b → k.pipes i = some q →
      ∀ hj : j < (sysRead dev k fd bufPtr count).delivered.length,
        (sysRead dev k fd bufPtr count).delivered[j] = q.data.get ((q.nread + j) % PIPE_SIZE) ∧
          g.shadow i ((q.nread + j) % PIPE_SIZE) = some (g.tag pid.val fd.val) := by
  have hisolated := NotedRuns.isolated hblank h
  have hsees : ∀ pid p fd (i : PipeIdx) b, k.procs pid = some p → p.fdTypes fd = .pipe i.val b →
      (k.world g).Sees (.pipe i.val b) none (g.tag pid.val fd.val) := fun pid p fd i b hp hfd =>
    ⟨pid, p.row, fd, world_rows hp, hfd, rfl, rfl⟩
  have hslot : ∀ pid p fd (i : PipeIdx) b, k.procs pid = some p → p.fdTypes fd = .pipe i.val b →
      (k.pipes i).isSome = true := by
    intro pid p fd i b hp hfd
    rw [isSome_iff_ne_none]
    intro hfree
    exact hisolated.not_sees hfree (hsees pid p fd i b hp hfd)
  refine ⟨hslot, ?_, ?_⟩
  · intro pid p fd b pid' p' fd' b' i hp hfd hp' hfd'
    obtain ⟨q, hq⟩ := isSome_iff_exists.mp (hslot pid p fd i b hp hfd)
    obtain ⟨-, t, hfds, -⟩ := hisolated.owner i q hq
    rw [hfds b none _ (hsees pid p fd i b hp hfd), hfds b' none _ (hsees pid' p' fd' i b' hp' hfd')]
  intro dev pid p fd b i q bufPtr count j hcur hfd hq hj
  obtain ⟨-, t, hfds, hwrt⟩ := hisolated.owner i q hq
  rw [hfds b none _ (hsees pid p fd i b (procs_of_current hcur) hfd)]
  rcases sysRead_pipe dev ⟨pid, p, b, hcur, hfd⟩ hq bufPtr count with
    ⟨hnone, -⟩ | ⟨bs, q', hread, hdel, -⟩
  · rw [hnone] at hj
    exact absurd hj (Nat.not_lt_zero j)
  rw [hdel] at hj
  simp only [hdel]
  exact hwrt.read hread hj

/-! ## A count that runs over -/

def noNotes : Notes := ⟨0, fun _ _ => 0, fun _ => 0, fun _ _ => none⟩

def playNoted (M : Mapper) : List Event → Kernel × Notes → Option (Kernel × Notes)
  | [], x => some x
  | ev :: evs, (k, g) =>
    if k.canHappen ev then
      match k.react M ev with
      | .error _ => none
      | .ok k' => playNoted M evs (k', k.note M g ev)
    else none

lemma notedRuns_of_playNoted {evs : List Event} {x y : Kernel × Notes}
    (h : playNoted M evs x = some y) : NotedRuns M (fun _ _ => True) x y := by
  induction evs generalizing x with
  | nil =>
    cases h
    exact .refl
  | cons ev evs ih =>
    unfold playNoted at h
    split at h
    · rename_i hcan
      split at h
      · cases h
      · rename_i k' hre
        exact .head ⟨ev, trivial, ⟨hcan, hre⟩, rfl⟩ (ih h)
    · cases h

/-- The running process has no free descriptor, and descriptor 4 is the write end of the first
pipe. -/
structure TableFull (k : Kernel) (pid : Pid) (p : Process) : Prop where
  current : k.current = some (pid, p)
  isUser : p.isUser = true
  frame : p.frame = ⟨0x400000, 0x500000, 0⟩
  full : firstFree p.fdTypes (List.finRange MAX_FDS) = none
  pipe : p.fdTypes (4 : Fin 16) = .pipe firstPipe.val true
  force : k.forceSwitch = false

lemma TableFull.dup (h : TableFull k pid p) (g : Notes) :
    k.Steps M (call (.dup 4)) { k with pipes := retainPipe k.pipes firstPipe } ∧
      k.note M g (call (.dup 4)) = g := by
  obtain ⟨hpid, hp⟩ := current_eq_some.mp h.current
  have henter : k.enter ⟨0x400000, 0x500000, 0⟩ = k := by
    unfold enter
    rw [h.current]
    dsimp only
    rw [if_pos h.isUser, ← h.frame]
    unfold setProc
    rw [← hp, update_eq_self]
  have hdup : k.sysDup 4 = (.error .EMFILE, { k with pipes := retainPipe k.pipes firstPipe }) := by
    unfold sysDup
    rw [dif_pos (by decide), h.current]
    dsimp only
    have hpipe : p.fdTypes ⟨4, by decide⟩ = .pipe firstPipe.val true := h.pipe
    rw [hpipe]
    dsimp only
    rw [pipeSlot_val]
    unfold dupInto
    rw [h.full]
  have hhdl : (k.enter ⟨0x400000, 0x500000, 0⟩).handle M (.dup 4) =
      .ok (.error .EMFILE, { k with pipes := retainPipe k.pipes firstPipe }) := by
    rw [henter]
    exact congrArg Except.ok hdup
  refine ⟨⟨userRunning_iff.mpr ⟨pid, p, h.current, h.isUser⟩, ?_⟩, ?_⟩
  · simp only [call, react, syscall, hhdl]
    unfold finishCall
    rw [if_neg]
    exact fun hfor => absurd (hfor.symm.trans h.force) (by decide)
  simp only [call, note, hpid, hhdl]
  rw [henter]
  rfl

/-- The count of the first pipe after `n` more calls that fail. -/
def countMore (n : Nat) (k : Kernel) : Kernel :=
  { k with
    pipes := update k.pipes firstPipe ((k.pipes firstPipe).map fun q =>
      { q with refcount := (q.refcount + n) % 2 ^ 16 }) }

lemma countMore_succ (n : Nat) (k : Kernel) :
    countMore (n + 1) k =
      { countMore n k with pipes := retainPipe (countMore n k).pipes firstPipe } := by
  unfold countMore retainPipe
  simp only [update_self]
  cases k.pipes firstPipe with
  | none => rfl
  | some q =>
    simp only [map_some, update_idem]
    rw [Nat.mod_add_mod, Nat.add_assoc]

lemma TableFull.countMore (h : TableFull k pid p) (n : Nat) : TableFull (countMore n k) pid p :=
  ⟨h.current, h.isUser, h.frame, h.full, h.pipe, h.force⟩

lemma TableFull.runs (h : TableFull k pid p)
    (hq : ∀ q, k.pipes firstPipe = some q → q.refcount < 2 ^ 16) (n : Nat) :
    NotedRuns M (fun _ _ => True) (k, g) (Kernel.countMore n k, g) := by
  induction n with
  | zero =>
    have hsame : Kernel.countMore 0 k = k := by
      unfold Kernel.countMore
      cases hk : k.pipes firstPipe with
      | none =>
        rw [map_none, ← hk, update_eq_self]
      | some q =>
        rw [map_some, Nat.add_zero, Nat.mod_eq_of_lt (hq q hk), ← hk, update_eq_self]
    rw [hsame]
    exact .refl
  | succ n ih =>
    obtain ⟨hstep, hnote⟩ := (h.countMore n).dup (M := M) g
    rw [countMore_succ]
    exact .tail ih ⟨_, trivial, hstep, hnote.symm⟩

/-- A process makes a pipe and writes one byte through a duplicate of its write end. -/
theorem NotedRuns.pipes_isolated_write : ∃ k g pid p q,
    NotedRuns referenceMapper CountsLow (emptyKernel, noNotes) (k, g) ∧
      k.current = some (pid, p) ∧ p.fdTypes (3 : Fin 16) = .pipe firstPipe.val false ∧
      k.pipes firstPipe = some q ∧ (sysRead noDevices k 3 0x400000 1).delivered.length = 1 ∧
      g.shadow firstPipe (q.nread % PIPE_SIZE) = some (g.tag pid.val 3) := by
  have hpl : plays referenceMapper CountsLow
      (startEvents ++ [call .pipe, call (.dup 4), call (.write noDevices 5 0x400000 1)]) emptyKernel
      (fun k =>
        currentMeets (fun p => decide (p.fdTypes (3 : Fin 16) = .pipe firstPipe.val false)) k &&
        ((k.pipes firstPipe).isSome &&
          decide ((sysRead noDevices k 3 0x400000 1).delivered.length = 1))) = true := by
    decide +kernel
  obtain ⟨k, hruns, htest⟩ := runs_of_plays hpl
  obtain ⟨g, hnoted⟩ := Runs.noted noNotes hruns
  rw [Bool.and_eq_true, Bool.and_eq_true, decide_eq_true_iff] at htest
  obtain ⟨pid, p, hcur, hp⟩ := current_of_meets htest.1
  have hfd := of_decide_eq_true hp
  obtain ⟨q, hq⟩ := isSome_iff_exists.mp htest.2.1
  have hread :=
    (NotedRuns.pipes_isolated emptyKernel_blank hnoted).2.2 noDevices pid p (3 : Fin 16) false
    firstPipe q 0x400000 1 0 hcur hfd hq (htest.2.2.symm ▸ Nat.zero_lt_one)
  exact ⟨k, g, pid, p, q, hnoted, hcur, hfd, hq, htest.2.2, hread.2⟩

/-- A pipe, and copies of its write end in all other descriptors. -/
def fillEvents : List Event := startEvents ++ call .pipe :: List.replicate 11 (call (.dup 4))

/-- Two of the copies are closed, a new pipe is made in their place and written to. -/
def reuseEvents : List Event :=
  [call (.close 15), call (.close 14), call .pipe, call (.write noDevices 15 0x400000 1)]

/-- Is the table full, and the count within its bits? -/
def tableFull (k : Kernel) : Bool :=
  k.current.any (fun x => x.2.isUser && (decide (x.2.frame = ⟨0x400000, 0x500000, 0⟩) &&
    ((firstFree x.2.fdTypes (List.finRange MAX_FDS)).isNone &&
      decide (x.2.fdTypes (4 : Fin 16) = .pipe firstPipe.val true)))) &&
  (!k.forceSwitch && decide (∀ q ∈ k.pipes firstPipe, q.refcount < 2 ^ 16))

lemma tableFull_spec (h : tableFull k = true) :
    (∃ pid p, TableFull k pid p) ∧ ∀ q, k.pipes firstPipe = some q → q.refcount < 2 ^ 16 := by
  unfold tableFull at h
  rw [Bool.and_eq_true, Bool.and_eq_true, any_eq_true, decide_eq_true_iff] at h
  obtain ⟨⟨⟨pid, p⟩, hcur, hp⟩, hfor, hcnt⟩ := h
  rw [Bool.and_eq_true, Bool.and_eq_true, Bool.and_eq_true, decide_eq_true_iff,
    decide_eq_true_iff] at hp
  obtain ⟨huser, hfrm, hfull, hpipe⟩ := hp
  exact ⟨⟨pid, p, hcur, huser, hfrm, isNone_iff_eq_none.mp hfull, hpipe, by simpa using hfor⟩,
    fun q hq => hcnt q hq⟩

/-- Does descriptor 3 of the running process get a byte that stems from another `sys_pipe`? -/
def crossTalk (x : Kernel × Notes) : Bool :=
  x.1.current.any fun y => decide (y.2.fdTypes (3 : Fin 16) = .pipe firstPipe.val false) &&
    (x.1.pipes firstPipe).any fun q =>
      decide ((sysRead noDevices x.1 3 0x400000 1).delivered.length = 1) &&
        (x.2.shadow firstPipe (q.nread % PIPE_SIZE)).any fun t => decide (t ≠ x.2.tag y.1.val 3)

/-- A process with a full table calls `sys_dup` until the count of its pipe runs over to 1, closes a
descriptor, and reads from the old pipe what is written to a new one. -/
theorem dup_overflow_crosses_pipes : ∃ k g pid p q t,
    NotedRuns referenceMapper (fun _ _ => True) (emptyKernel, noNotes) (k, g) ∧
      k.current = some (pid, p) ∧ p.fdTypes (3 : Fin 16) = .pipe firstPipe.val false ∧
      k.pipes firstPipe = some q ∧ (sysRead noDevices k 3 0x400000 1).delivered.length = 1 ∧
      g.shadow firstPipe (q.nread % PIPE_SIZE) = some t ∧ t ≠ g.tag pid.val 3 := by
  have hplay : ((playNoted referenceMapper fillEvents (emptyKernel, noNotes)).any fun x =>
      tableFull x.1 &&
        (playNoted referenceMapper reuseEvents (countMore 65524 x.1, x.2)).any crossTalk) =
        true := by
    decide +kernel
  rw [any_eq_true] at hplay
  obtain ⟨⟨k1, g1⟩, hfill, htest⟩ := hplay
  rw [Bool.and_eq_true, any_eq_true] at htest
  obtain ⟨hfull, ⟨k, g⟩, hreuse, hcross⟩ := htest
  obtain ⟨⟨pid1, p1, htab⟩, hcnt⟩ := tableFull_spec hfull
  have hruns : NotedRuns referenceMapper (fun _ _ => True) (emptyKernel, noNotes) (k, g) :=
    ((notedRuns_of_playNoted hfill).trans (htab.runs hcnt 65524)).trans
      (notedRuns_of_playNoted hreuse)
  unfold crossTalk at hcross
  rw [any_eq_true] at hcross
  obtain ⟨⟨pid, p⟩, hcur, hp⟩ := hcross
  rw [Bool.and_eq_true, decide_eq_true_iff, any_eq_true] at hp
  obtain ⟨hfd, q, hq, hread⟩ := hp
  rw [Bool.and_eq_true, decide_eq_true_iff, any_eq_true] at hread
  obtain ⟨hlen, t, ht, hne⟩ := hread
  exact ⟨k, g, pid, p, q, t, hruns, hcur, hfd, hq, hlen, ht, of_decide_eq_true hne⟩

end Kernel

end Indominus.Sys
