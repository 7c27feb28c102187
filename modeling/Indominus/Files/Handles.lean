import Indominus.Files.Refinement

/-!
# Descriptors and file handles

A slot of `file_handles` should be in use as long as a descriptor refers to it; `sys_close` forgets
to empty it.
-/

namespace Indominus.Sys

open Lib Memory Finset

namespace Row

variable {r : Row} {fd old new : Fd}

/-- A slot is in use if and only if a descriptor refers to it. -/
def Agrees (r : Row) : Prop := ∀ n, (r.handleAt n).isSome = true ↔ ∃ fd, r.fds fd = .fsFile n

/-! ## One table -/

lemma Plain.agrees (h : r.Plain) : r.Agrees := by
  intro n
  rw [h.handleAt]
  constructor
  · rintro ⟨⟩
  · rintro ⟨fd, hfd⟩
    exact absurd hfd (h.files fd n)

lemma Agrees.take (h : r.Agrees) {slot : Fin MAX_FILE_HANDLES} {obj : Nat}
    (hfd : r.fds fd = .none) : (r.take fd slot obj).Agrees := by
  intro n
  rw [take_handleAt]
  simp only [take_fds]
  constructor
  · intro hsome
    split at hsome
    · rename_i hn
      exact ⟨fd, by rw [if_pos rfl, hn]⟩
    obtain ⟨fd', hfd'⟩ := (h n).mp hsome
    refine ⟨fd', ?_⟩
    rw [if_neg, hfd']
    rintro rfl
    rw [hfd] at hfd'
    cases hfd'
  rintro ⟨fd', hfd'⟩
  split at hfd'
  · obtain rfl := FdType.fsFile.inj hfd'
    rw [if_pos rfl]
    rfl
  split
  · rfl
  · exact (h n).mpr ⟨fd', hfd'⟩

lemma Agrees.point_free (h : r.Agrees) {t : FdType} (hfd : r.fds fd = .none)
    (ht : ∀ n, t = .fsFile n → ∃ fd', r.fds fd' = .fsFile n) : (r.point fd t).Agrees := by
  intro n
  rw [point_handleAt, h n]
  simp only [point_fds]
  constructor
  · rintro ⟨fd', hfd'⟩
    refine ⟨fd', ?_⟩
    rw [if_neg, hfd']
    rintro rfl
    rw [hfd] at hfd'
    cases hfd'
  rintro ⟨fd', hfd'⟩
  split at hfd'
  · exact ht n hfd'
  · exact ⟨fd', hfd'⟩

lemma Agrees.close (h : r.Agrees)
    (hshared : ∀ n, r.fds fd = .fsFile n → ∃ fd', fd' ≠ fd ∧ r.fds fd' = .fsFile n) :
    (r.point fd .none).Agrees := by
  intro n
  rw [point_handleAt, h n]
  simp only [point_fds]
  constructor
  · rintro ⟨fd', hfd'⟩
    by_cases heq : fd' = fd
    · subst heq
      obtain ⟨other, hne, hoth⟩ := hshared n hfd'
      exact ⟨other, by rw [if_neg hne, hoth]⟩
    · exact ⟨fd', by rw [if_neg heq, hfd']⟩
  rintro ⟨fd', hfd'⟩
  split at hfd'
  · cases hfd'
  · exact ⟨fd', hfd'⟩

lemma Agrees.dup2 (h : r.Agrees) (hne : old ≠ new) :
    ((r.release new).point new (r.fds old)).Agrees := by
  intro n
  rw [point_handleAt, release_handleAt]
  simp only [point_fds, release_fds]
  -- afterwards a slot is referred to if a descriptor other than the target referred to it before
  have hrefs : (∃ fd, (if fd = new then r.fds old else r.fds fd) = .fsFile n) ↔
      ∃ fd, fd ≠ new ∧ r.fds fd = .fsFile n := by
    constructor
    · rintro ⟨fd, hfd⟩
      split at hfd
      · exact ⟨old, hne, hfd⟩
      · exact ⟨fd, ‹_›, hfd⟩
    · rintro ⟨fd, hfd, href⟩
      exact ⟨fd, by rw [if_neg hfd, href]⟩
  rw [hrefs]
  split
  · rename_i hgone
    simp only [Option.isSome_none, Bool.false_eq_true, false_iff]
    exact hgone.2
  rename_i hkept
  rw [h n]
  constructor
  · rintro ⟨fd, hfd⟩
    by_cases heq : fd = new
    · subst heq
      by_contra hnone
      exact hkept ⟨hfd, hnone⟩
    · exact ⟨fd, heq, hfd⟩
  · rintro ⟨fd, -, hfd⟩
    exact ⟨fd, hfd⟩

end Row

/-! ## Steps -/

namespace World

def Agreed (w : World) : Prop := ∀ pid row, w.rows pid = some row → row.Agrees

/-- A descriptor is closed only while another one refers to the same slot. -/
def ClosesShared (w : World) : Deed → Prop
  | .closes pid fd => ∀ row n, w.rows pid = some row → row.fds fd = .fsFile n →
      ∃ fd', fd' ≠ fd ∧ row.fds fd' = .fsFile n
  | _ => True

variable {w w' : World}

lemma Agreed.update (h : w.Agreed) {pid : Pid} {o : Option Row}
    (ho : ∀ row, o = some row → row.Agrees) (hrows : w'.rows = Function.update w.rows pid o) :
    w'.Agreed := by
  intro i row hrow
  rw [hrows, Function.update_apply] at hrow
  split at hrow
  · exact ho row hrow
  · exact h i row hrow

/-- The step lemma, one case for each change of the world. -/
lemma Agreed.step (h : w.Agreed) (hstep : Step ClosesShared w w') : w'.Agreed := by
  have hsome : ∀ {row row' : Row}, row.Agrees → some row = some row' → row'.Agrees := by
    intro row row' hrow heq
    cases heq
    exact hrow
  cases hstep with
  | openFile hrow hfd hslot _ =>
    exact h.update (fun _ => hsome ((h _ _ hrow).take hfd)) rfl
  | close hrow _ hH =>
    refine h.update (fun _ => hsome ((h _ _ hrow).close ?_)) rfl
    intro n hn
    exact hH _ n hrow hn
  | dup hrow hold hnew _ =>
    exact h.update (fun _ => hsome ((h _ _ hrow).point_free hnew fun n hn => ⟨_, hn⟩)) rfl
  | dup2 hrow hne _ _ => exact h.update (fun _ => hsome ((h _ _ hrow).dup2 hne)) rfl
  | pipe hrow _ hne hrd hwr =>
    refine h.update (fun _ => hsome ?_) rfl
    apply Row.Agrees.point_free
    · exact (h _ _ hrow).point_free hrd (by rintro n ⟨⟩)
    · rw [Row.point_fds, if_neg hne.symm, hwr]
    · rintro n ⟨⟩
  | fork hrow _ _ => exact h.update (fun _ => hsome (h _ _ hrow)) rfl
  | spawn _ hpln => exact h.update (fun _ => hsome hpln.agrees) rfl
  | reap => exact h.update (by rintro _ ⟨⟩) rfl
  | lose | read | write => exact h

end World

/-! ## Runs -/

namespace Kernel

variable {M : Mapper} {k k' k0 : Kernel} {pid : Pid} {p : Process}

/-- `sys_close` is not called for the last descriptor of an open file. -/
def ClosesShared (k : Kernel) : Event → Prop
  | .syscall _ _ (.close n) => ∀ x ∈ k.current, ∀ fd : Fd, fd.val = n → ∀ index < MAX_FILE_HANDLES,
      x.2.fdTypes fd = .fsFile index → stillReferenced x.2.fdTypes fd index = true
  | _ => True

instance (k : Kernel) (ev : Event) : Decidable (k.ClosesShared ev) := by
  induction ev using Event.casesOn with
  | syscall savedRsp frame call =>
    induction call using Syscall.casesOn <;> dsimp only [ClosesShared] <;> infer_instance
  | _ => dsimp only [ClosesShared]; infer_instance

def openFiles (p : Process) : Finset Fd :=
  Finset.univ.filter fun fd => ∃ index < MAX_FILE_HANDLES, p.fdTypes fd = .fsFile index

/-- Apart from 0, 1 and 2 the process has only descriptors that are files. -/
def OnlyFiles (p : Process) : Prop :=
  ∀ fd, 3 ≤ fd.val → p.fdTypes fd ≠ .none → fd ∈ openFiles p

lemma agrees_iff : p.row.Agrees → ∀ i : Fin MAX_FILE_HANDLES,
    (p.fileHandles i).isSome = true ↔ ∃ fd, p.fdTypes fd = .fsFile i.val := by
  intro h i
  have hi := h i.val
  rw [Row.handleAt_val] at hi
  exact hi

lemma card_openFiles (h : p.row.Agrees) (hfull : ∀ i, (p.fileHandles i).isSome = true) :
    MAX_FILE_HANDLES ≤ (openFiles p).card := by
  choose f hf using fun i => (agrees_iff h i).mp (hfull i)
  have hinj : Function.Injective f := by
    intro i j hij
    have hi := hf i
    rw [hij, hf j] at hi
    exact Fin.ext (FdType.fsFile.inj hi).symm
  calc MAX_FILE_HANDLES = (univ.image f).card := by
        rw [card_image_of_injective _ hinj, card_univ, Fintype.card_fin]
    _ ≤ (openFiles p).card := by
        apply card_le_card
        intro fd hfd
        obtain ⟨i, -, rfl⟩ := mem_image.mp hfd
        exact mem_filter.mpr ⟨mem_univ _, i.val, i.isLt, hf i⟩

lemma card_openFiles_of_full (honly : OnlyFiles p) (hfull : ∀ fd, p.fdTypes fd ≠ .none) :
    13 ≤ (openFiles p).card := by
  calc 13 = (univ.filter fun fd : Fd => 3 ≤ fd.val).card := by decide
    _ ≤ (openFiles p).card := by
        apply card_le_card
        intro fd hfd
        exact honly fd (mem_filter.mp hfd).2 (hfull fd)

lemma sysOpen_room {obj flags : Nat} (h : p.row.Agrees) (hcur : k.current = some (pid, p))
    (honly : OnlyFiles p) (hfew : (openFiles p).card < 13) :
    (k.sysOpen (.ok obj) flags).1 ≠ .error .EMFILE := by
  have hfd : firstFree p.fdTypes (List.finRange MAX_FDS) ≠ none := by
    intro hnone
    have hfull : ∀ fd, p.fdTypes fd ≠ .none := by
      intro fd
      simpa using List.find?_eq_none.mp hnone fd (List.mem_finRange fd)
    have := card_openFiles_of_full honly hfull
    omega
  have hslot :
      ((List.finRange MAX_FILE_HANDLES).find? fun i => (p.fileHandles i).isNone) ≠ none := by
    intro hnone
    have hfull : ∀ i, (p.fileHandles i).isSome = true := by
      intro i
      have hi := List.find?_eq_none.mp hnone i (List.mem_finRange i)
      simpa [Option.isSome_iff_ne_none] using hi
    have hcard := card_openFiles h hfull
    have : MAX_FILE_HANDLES = 16 := rfl
    omega
  simp only [sysOpen, hcur]
  split
  · rintro ⟨⟩
  split
  · rintro ⟨⟩
  split
  · rintro ⟨⟩
  rename_i hnone
  obtain ⟨fd, hfd⟩ := Option.ne_none_iff_exists'.mp hfd
  obtain ⟨slot, hslot⟩ := Option.ne_none_iff_exists'.mp hslot
  exact absurd hslot (hnone fd slot hfd)

lemma Steps.agreed {ev : Event} {g : Notes} (htidy : k.table.Tidy) (hcond : k.ClosesShared ev)
    (hagreed : (k.world g).Agreed) (h : k.Steps M ev k') : (k'.world g).Agreed := by
  have hfs : World.Steps World.ClosesShared (k.world g) (k'.world (k.note M g ev)) := by
    refine h.files htidy fun d hd => ?_
    cases ev with
    | syscall savedRsp frame call =>
      obtain ⟨pid, hpid, hdoes⟩ := hd
      cases call with
      | close n =>
        cases d with
        | closes pid' fd =>
          obtain ⟨rfl, hfd⟩ := hdoes
          intro row index hrow href
          obtain ⟨p, hp, rfl⟩ := Option.map_eq_some_iff.mp hrow
          -- a slot that is referred to is in range
          have hin : index < MAX_FILE_HANDLES := by
            have hsome := (hagreed pid' p.row hrow index).mpr ⟨fd, href⟩
            by_contra hout
            simp [Row.handleAt, hout] at hsome
          exact Row.stillReferenced_iff.mp
            (hcond (pid', p) (current_eq_some.mpr ⟨hpid, hp⟩) fd hfd index hin href)
        | _ => trivial
      | _ => cases d <;> trivial
    | _ => exact hd.elim
  have haft := hfs.invariant (fun _ _ hI hstep => World.Agreed.step hI hstep) hagreed
  -- the notes do not matter
  exact haft

/-- **Descriptors and handles agree** in every run in which `sys_close` is not called for the last
descriptor of an open file. -/
theorem Runs.handles_agree (hblank : k0.Blank) (h : Runs M ClosesShared k0 k) :
    (∀ pid p, k.procs pid = some p → ∀ i : Fin MAX_FILE_HANDLES,
      (p.fileHandles i).isSome = true ↔ ∃ fd, p.fdTypes fd = .fsFile i.val) ∧
    ∀ pid p obj flags, k.current = some (pid, p) → OnlyFiles p → (openFiles p).card < 13 →
      (k.sysOpen (.ok obj) flags).1 ≠ .error .EMFILE := by
  obtain ⟨g⟩ : Nonempty Notes := ⟨⟨0, fun _ _ => 0, fun _ => 0, fun _ _ => none⟩⟩
  have hagreed : (k.world g).Agreed := by
    induction h with
    | refl =>
      intro pid row hrow
      simp only [world, hblank.procs, Option.map_none] at hrow
      cases hrow
    | tail hprev hstep ih =>
      obtain ⟨ev, hcond, hsts⟩ := hstep
      exact hsts.agreed (Runs.sound hblank hprev).1.tidy hcond ih
  have hrow : ∀ pid p, k.procs pid = some p → p.row.Agrees := fun pid p hp =>
    hagreed pid p.row (world_rows hp)
  refine ⟨fun pid p hp => agrees_iff (hrow pid p hp), ?_⟩
  intro pid p obj flags hcur honly hfew
  exact sysOpen_room (hrow pid p (procs_of_current hcur)) hcur honly hfew

/-! ## A process that opens and closes -/

def startEvents : List Event :=
  [.spawnIdle (some 0x10000), .spawnUser tinyElf none (some 0x20000), .timer 0x1000 ⟨0, 0, 0⟩]

def openEvent : Event := call (.openFile (.ok 7) 2)

def currentMeets (test : Process → Bool) (k : Kernel) : Bool := k.current.any fun x => test x.2

lemma current_of_meets {test : Process → Bool} (h : currentMeets test k = true) :
    ∃ pid p, k.current = some (pid, p) ∧ test p = true := by
  rw [currentMeets, Option.any_eq_true] at h
  obtain ⟨⟨pid, p⟩, hcur, htest⟩ := h
  exact ⟨pid, p, hcur, htest⟩

/-- A file is opened, its descriptor duplicated, and the first descriptor closed. -/
theorem Runs.handles_agree_shared : ∃ k pid p, Runs referenceMapper ClosesShared emptyKernel k ∧
    k.current = some (pid, p) ∧ (openFiles p).card = 1 ∧
    (∀ i : Fin MAX_FILE_HANDLES, (p.fileHandles i).isSome = true ↔
      ∃ fd, p.fdTypes fd = .fsFile i.val) := by
  have hpl : plays referenceMapper ClosesShared
      (startEvents ++ [openEvent, call (.dup 3), call (.close 3)]) emptyKernel
      (currentMeets fun p => (openFiles p).card == 1) = true := by
    decide +kernel
  obtain ⟨k, hruns, htest⟩ := runs_of_plays hpl
  obtain ⟨pid, p, hcur, hcard⟩ := current_of_meets htest
  refine ⟨k, pid, p, hruns, hcur, by simpa using hcard, ?_⟩
  exact (Runs.handles_agree emptyKernel_blank hruns).1 pid p (procs_of_current hcur)

/-- Sixteen files are opened and closed, one at a time: all slots are in use, and the next
`sys_open` fails. -/
theorem close_keeps_handles : ∃ k pid p, Runs referenceMapper (fun _ _ => True) emptyKernel k ∧
    k.current = some (pid, p) ∧ (∀ i, (p.fileHandles i).isSome = true) ∧ openFiles p = ∅ ∧
    (k.sysOpen (.ok 7) 2).1 = .error .EMFILE := by
  have hpl : plays referenceMapper (fun _ _ => True)
      (startEvents ++
        (List.replicate 16 [openEvent, call (.close 3)]).flatten) emptyKernel (fun k =>
        currentMeets (fun p => decide (∀ i, (p.fileHandles i).isSome = true) &&
          decide (openFiles p = ∅)) k && (k.sysOpen (.ok 7) 2).1 == .error .EMFILE) = true := by
    decide +kernel
  obtain ⟨k, hruns, htest⟩ := runs_of_plays hpl
  rw [Bool.and_eq_true, beq_iff_eq] at htest
  obtain ⟨pid, p, hcur, hp⟩ := current_of_meets htest.1
  rw [Bool.and_eq_true, decide_eq_true_iff, decide_eq_true_iff] at hp
  exact ⟨k, pid, p, hruns, hcur, hp.1, hp.2, htest.2⟩

end Kernel

end Indominus.Sys
