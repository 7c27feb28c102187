import Indominus.Sys.ExecStack
import Indominus.Sys.HeapPages

/-!
# Sequences of `brk` calls

Shrinking to an unaligned break unmaps the page that the break lies in.
-/

namespace Indominus.Sys

open Lib Lib.Radix Memory List

variable {M : Mapper} {K : Nat → Prop} {exact : Prop} {R : Multiset Nat} {Z : Claims Nat}
  {s s' : Machine} {T n addr newEnd oldEnd v : Nat}

/-! ## Growing -/

/-- The pages from `addr` to `v` are mapped now, and nothing else has been. -/
structure HeapGrown (K : Nat → Prop) (exact : Prop) (T : Nat) (R : Multiset Nat) (Z : Claims Nat)
    (addr v : Nat) (s s' : Machine) : Prop where
  family : Family K exact s' (T ::ₘ R) Z
  keeps : KeepsView T s s'
  le : addr ≤ v
  aligned : v % PAGE_SIZE = 0
  max : v ≤ BRK_MAX
  mapped : ∀ a, addr ≤ a → a < v → (view s'.ram T a).isSome = true
  only : ∀ a < USER_SPACE_END, view s.ram T a = none → (view s'.ram T a).isSome = true →
    addr ≤ a ∧ a < v

lemma HeapGrown.refl (hfam : Family K exact s (T ::ₘ R) Z) (haddr : addr % PAGE_SIZE = 0)
    (hmax : addr ≤ BRK_MAX) : HeapGrown K exact T R Z addr addr s s := by
  refine ⟨hfam, .refl T s, le_refl _, haddr, hmax,
    fun a hlo hhi => by omega, fun a _ hnone hsome => ?_⟩
  rw [hnone] at hsome
  cases hsome

lemma HeapGrown.step {s1 : Machine} (hkps : KeepsView T s s1)
    (hpage : ∀ a < USER_SPACE_END, pathOf a = pathOf addr → (view s1.ram T a).isSome = true)
    (honly : ∀ a < USER_SPACE_END, pathOf a ≠ pathOf addr → view s1.ram T a = view s.ram T a)
    (haddr : addr % PAGE_SIZE = 0) (hrest : HeapGrown K exact T R Z (addr + PAGE_SIZE) v s1 s') :
    HeapGrown K exact T R Z addr v s s' := by
  have hv : v < USER_SPACE_END := lt_of_le_of_lt hrest.max (by decide)
  have hle := hrest.le
  have huser : addr < USER_SPACE_END := by omega
  refine ⟨hrest.family, hkps.trans hrest.keeps,
    by omega, hrest.aligned, hrest.max, fun a hlo hhi => ?_, fun a ha hnone hsome => ?_⟩
  · by_cases hin : a < addr + PAGE_SIZE
    · have hpath := (pathOf_eq_iff_page huser (hhi.trans hv) haddr).mpr ⟨hlo, hin⟩
      obtain ⟨b, hb⟩ := Option.isSome_iff_exists.mp (hpage a (hhi.trans hv) hpath)
      rw [hrest.keeps a (hhi.trans hv) b hb]
      rfl
    · exact hrest.mapped a (by omega) hhi
  by_cases hpath : pathOf a = pathOf addr
  · obtain ⟨hlo, hhi⟩ := (pathOf_eq_iff_page huser ha haddr).mp hpath
    exact ⟨hlo, by omega⟩
  · have hin := hrest.only a ha ((honly a ha hpath).trans hnone) hsome
    exact ⟨by omega, hin.2⟩

lemma growHeap_grows (hM : M.Documented) (hfam : Family K exact s (T ::ₘ R) Z)
    (haddr : addr % PAGE_SIZE = 0) (hmax : addr ≤ BRK_MAX) (hnew : newEnd ≤ BRK_MAX)
    (hok : growHeap M T newEnd n addr s = .ok (v, s')) : HeapGrown K exact T R Z addr v s s' := by
  induction n generalizing addr s with
  | zero =>
    cases hok
    exact .refl hfam haddr hmax
  | succ n ih =>
    rw [growHeap] at hok
    by_cases hlt : addr < newEnd
    · have huser : addr < USER_SPACE_END := by
        unfold BRK_MAX at hmax
        unfold USER_SPACE_END
        omega
      have hnext : (addr + PAGE_SIZE) % PAGE_SIZE = 0 ∧ addr + PAGE_SIZE ≤ BRK_MAX := by
        unfold BRK_MAX PAGE_SIZE at *
        omega
      rw [if_pos hlt, withVirt_of_lt huser, translateAddr, hM.translatePage huser] at hok
      cases he : pteAt s.ram 3 T (pathOf addr) with
      | some e =>
        rw [he] at hok
        have hpage : ∀ a < USER_SPACE_END, pathOf a = pathOf addr →
          (view s.ram T a).isSome = true := by
          intro a _ hpath
          rw [view, hpath, he]
          rfl
        exact .step (.refl T s) hpage (fun _ _ _ => rfl) haddr (ih hfam hnext.1 hnext.2 hok)
      | none =>
        rw [he] at hok
        cases hfr : mapFreshPage M s T addr with
        | error e => simp [hfr] at hok
        | ok r =>
          cases r with
          | none =>
            obtain ⟨rfl, rfl⟩ : addr = v ∧ s = s' := by simpa [hfr] using hok
            exact .refl hfam haddr hmax
          | some s1 =>
            simp only [hfr] at hok
            obtain ⟨f, content, hfill⟩ := mapFreshPage_filled hM hfam huser hfr
            refine .step (hfill.keeps hfam) (fun a ha hpath => ?_) (fun a ha hpath => ?_) haddr
              (ih hfill.family hnext.1 hnext.2 hok)
            · rw [hfill.view hfam ha, if_pos hpath]
              rfl
            · rw [hfill.view hfam ha, if_neg hpath]
    · obtain ⟨rfl, rfl⟩ : addr = v ∧ s = s' := by simpa [hlt] using hok
      exact .refl hfam haddr hmax

/-! ## Shrinking -/

/-- The pages that the shrinking loop goes through: those of `addr`, `addr + PAGE_SIZE` and so
on. -/
def Shrunk (addr oldEnd a : Nat) : Prop :=
  addr / PAGE_SIZE ≤ a / PAGE_SIZE ∧ addr + (a / PAGE_SIZE - addr / PAGE_SIZE) * PAGE_SIZE < oldEnd

instance (addr oldEnd a : Nat) : Decidable (Shrunk addr oldEnd a) :=
  inferInstanceAs (Decidable (_ ∧ _))

lemma shrinkHeap_shrinks (hM : M.Documented) (hfam : Family K exact s (T ::ₘ R) Z)
    (hend : oldEnd ≤ USER_SPACE_END) (hn : oldEnd ≤ addr + n * PAGE_SIZE)
    (hok : shrinkHeap M T oldEnd n addr s = .ok s') : Family K exact s' (T ::ₘ R) Z ∧
      ∀ a < USER_SPACE_END, view s'.ram T a = if Shrunk addr oldEnd a then none
        else view s.ram T a := by
  induction n generalizing addr s with
  | zero =>
    cases hok
    refine ⟨hfam, fun a _ => ?_⟩
    rw [if_neg]
    unfold Shrunk
    omega
  | succ n ih =>
    rw [shrinkHeap] at hok
    by_cases hlt : addr < oldEnd
    · have huser : addr < USER_SPACE_END := by omega
      rw [if_pos hlt, withVirt_of_lt huser] at hok
      cases hdrop : dropPage M Machine.freeFrame s T addr with
      | error e => simp [hdrop] at hok
      | ok s1 =>
        simp only [hdrop] at hok
        have hgone := dropPage_gone hM hfam huser hdrop
        obtain ⟨hfam', hview⟩ := ih hgone.family (by rw [Nat.add_mul] at hn; omega) hok
        refine ⟨hfam', fun a ha => ?_⟩
        rw [hview a ha, hgone.view a ha]
        have hpath := pathOf_eq_iff ha huser
        have hiff : Shrunk addr oldEnd a ↔ Shrunk (addr + PAGE_SIZE) oldEnd a ∨
          a / PAGE_SIZE = addr / PAGE_SIZE := by
          unfold Shrunk PAGE_SIZE
          omega
        by_cases hrest : Shrunk (addr + PAGE_SIZE) oldEnd a
        · rw [if_pos hrest, if_pos (hiff.mpr (.inl hrest))]
        · rw [if_neg hrest]
          exact if_congr (by rw [hpath, hiff]; simp [hrest]) rfl rfl
    obtain rfl : s = s' := by simpa [hlt] using hok
    refine ⟨hfam, fun a _ => ?_⟩
    rw [if_neg]
    unfold Shrunk
    omega

lemma pageSteps_mul (a b : Nat) : b ≤ a + pageSteps a b * PAGE_SIZE := by
  unfold pageSteps PAGE_SIZE
  omega

/-! ## One call -/

namespace Kernel

variable {k k' : Kernel} {pid : Pid} {p : Process} {newBrk : Nat} {r : SysResult}

/-- What a call does to the heap of `p` and to memory: what it returns, and where the heap ends. -/
inductive BrkOutcome (M : Mapper) (p : Process) (newBrk : Nat) (s : Machine) :
    SysResult → Nat → Machine → Prop
  | asked (hasked : newBrk = 0 ∨ newBrk < p.heapStart ∨ newBrk = p.heapEnd) :
      BrkOutcome M p newBrk s (.ok p.heapEnd) p.heapEnd s
  | refused {e : Errno} (hmax : BRK_MAX < newBrk) : BrkOutcome M p newBrk s (.error e) p.heapEnd s
  | grown {v : Nat} {s' : Machine} (hlt : p.heapEnd < newBrk) (hmax : newBrk ≤ BRK_MAX)
      (hgrow : growHeap M p.pml4Phys newBrk (pageSteps p.heapEnd newBrk) p.heapEnd s =
        .ok (v, s')) :
      BrkOutcome M p newBrk s (.ok v) v s'
  | shrunk {s' : Machine} (hlo : p.heapStart ≤ newBrk) (hhi : newBrk < p.heapEnd)
      (hshrink : shrinkHeap M p.pml4Phys p.heapEnd (pageSteps newBrk p.heapEnd) newBrk s = .ok s') :
      BrkOutcome M p newBrk s (.ok newBrk) newBrk s'

/-- The heap of the process when the call looks at it: placed at its first use. -/
def Placed (p p₀ : Process) : Prop :=
  (p.heapStart ≠ 0 ∧ p₀ = p) ∨
    p.heapStart = 0 ∧ ∃ x < 64, p₀ = { p with
      heapStart := USER_HEAP_BASE + x * PAGE_SIZE, heapEnd := USER_HEAP_BASE + x * PAGE_SIZE }

lemma initHeap_placed (k : Kernel) (p : Process) :
    Placed p (k.initHeap p).1 ∧ (k.initHeap p).2.machine = k.machine ∧
      (k.initHeap p).2.currentPid = k.currentPid := by
  rw [initHeap]
  by_cases hzero : p.heapStart = 0
  · rw [if_pos hzero]
    exact ⟨.inr ⟨hzero, _, Nat.mod_lt _ (by decide), rfl⟩, rfl, rfl⟩
  · rw [if_neg hzero]
    exact ⟨.inl ⟨hzero, rfl⟩, rfl, rfl⟩

lemma sysBrk_outcome (hcur : k.current = some (pid, p)) (hok : k.sysBrk M newBrk = .ok (r, k')) :
    ∃ p0 v, Placed p p0 ∧ BrkOutcome M p0 newBrk k.machine r v k'.machine ∧
      k'.current = some (pid, { p0 with heapEnd := v }) := by
  obtain ⟨hplc, hmac, hpid⟩ := initHeap_placed k p
  have hcrt : ∀ (s : Machine) (q : Process),
      ({ (k.initHeap p).2 with machine := s }.setProc pid (some q)).current = some (pid, q) := by
    intro s q
    refine current_eq_some.mpr ⟨hpid.trans (current_eq_some.mp hcur).1, ?_⟩
    simp [setProc]
  have hst : ((k.initHeap p).2.setProc pid (some (k.initHeap p).1)).machine = k.machine := hmac
  simp only [sysBrk, hcur] at hok
  refine ⟨(k.initHeap p).1, ?_⟩
  -- the branches of the source in its order
  by_cases hquery : newBrk = 0
  · rw [if_pos hquery] at hok
    cases hok
    exact ⟨_, hplc, hmac ▸ .asked (.inl hquery), hcrt _ _⟩
  rw [if_neg hquery] at hok
  by_cases hlow : newBrk < (k.initHeap p).1.heapStart
  · rw [if_pos hlow] at hok
    cases hok
    exact ⟨_, hplc, hmac ▸ .asked (.inr (.inl hlow)), hcrt _ _⟩
  rw [if_neg hlow] at hok
  by_cases hmax : newBrk > BRK_MAX
  · rw [if_pos hmax] at hok
    cases hok
    exact ⟨_, hplc, hmac ▸ .refused hmax, hcrt _ _⟩
  rw [if_neg hmax] at hok
  by_cases hgrw : newBrk > (k.initHeap p).1.heapEnd
  · rw [if_pos hgrw, hst] at hok
    cases hgrow :
        growHeap M (k.initHeap p).1.pml4Phys newBrk (pageSteps (k.initHeap p).1.heapEnd newBrk)
        (k.initHeap p).1.heapEnd k.machine with
    | error e => simp [hgrow] at hok
    | ok r =>
      obtain ⟨v, s⟩ := r
      simp only [hgrow] at hok
      cases hok
      refine ⟨v, hplc, .grown hgrw (Nat.le_of_not_lt hmax) hgrow, current_eq_some.mpr ⟨?_, ?_⟩⟩
      · exact hpid.trans (current_eq_some.mp hcur).1
      · simp [setProc]
  rw [if_neg hgrw] at hok
  by_cases hshrinks : newBrk < (k.initHeap p).1.heapEnd
  · rw [if_pos hshrinks, hst] at hok
    cases hshr : shrinkHeap M (k.initHeap p).1.pml4Phys (k.initHeap p).1.heapEnd
        (pageSteps newBrk (k.initHeap p).1.heapEnd) newBrk k.machine with
    | error e => simp [hshr] at hok
    | ok s =>
      simp only [hshr] at hok
      cases hok
      refine ⟨newBrk, hplc, .shrunk (Nat.le_of_not_lt hlow) hshrinks hshr,
        current_eq_some.mpr ⟨?_, ?_⟩⟩
      · exact hpid.trans (current_eq_some.mp hcur).1
      · simp [setProc]
  rw [if_neg hshrinks] at hok
  cases hok
  exact ⟨_, hplc, hmac ▸ .asked (.inr (.inr (by omega))), hcrt _ _⟩

/-! ## Sequences of calls -/

structure BrkCall where
  before : Kernel
  /-- `new_brk`. -/
  arg : Nat
  result : SysResult
  after : Kernel

inductive Brks (M : Mapper) (k : Kernel) : List BrkCall → Kernel → Prop
  | nil : Brks M k [] k
  | snoc {calls : List BrkCall} {k1 k2 : Kernel} {newBrk : Nat} {r : SysResult}
      (h : Brks M k calls k1)
      (hcall : k1.sysBrk M newBrk = .ok (r, k2)) : Brks M k (calls ++ [⟨k1, newBrk, r, k2⟩]) k2

/-- The call has mapped the page of `a`. -/
def BrkCall.Maps (c : BrkCall) (T a : Nat) : Prop :=
  view c.before.machine.ram T a = none ∧ (view c.after.machine.ram T a).isSome = true

/-- A call that has returned `v`, with the processes before and after it, keeps the heap. -/
structure BrkCall.Keeps (c : BrkCall) (past : List BrkCall) (p p' : Process) (v : Nat) : Prop where
  mapped : ∀ a, p'.heapStart ≤ a → a < v → (view c.after.machine.ram p.pml4Phys a).isSome = true
  unmapped : ∀ d ∈ past ++ [c], ∀ a < USER_SPACE_END, a % PAGE_SIZE = 0 →
    d.Maps p.pml4Phys a → v ≤ a →
    view c.after.machine.ram p.pml4Phys a = none
  bytes : ∀ a, p'.heapStart ≤ a → a < p.heapEnd → a < v →
    view c.after.machine.ram p.pml4Phys a = view c.before.machine.ram p.pml4Phys a

/-- Every call of the sequence keeps the heap of the process. -/
def HeapKept (pid : Pid) (calls : List BrkCall) : Prop :=
  ∀ past c rest, calls = past ++ c :: rest → ∀ v p p', c.result = .ok v →
    c.before.procs pid = some p →
    c.after.procs pid = some p' → c.Keeps past p p' v

/-- No call shrinks the heap to an unaligned break. -/
def AlignedShrinks (pid : Pid) (calls : List BrkCall) : Prop :=
  ∀ c ∈ calls, ∀ p, c.before.procs pid = some p → p.heapStart ≤ c.arg → c.arg < p.heapEnd →
    c.arg % PAGE_SIZE = 0

/-! ## Between the calls -/

/-- The pages of the heap from `lo` to `hi` are there, and those that calls have mapped above it are
not. -/
structure HeapRange (T : Nat) (calls : List BrkCall) (s : Machine) (lo hi : Nat) : Prop where
  loAligned : lo % PAGE_SIZE = 0
  hiAligned : hi % PAGE_SIZE = 0
  le : lo ≤ hi
  max : hi ≤ BRK_MAX
  mapped : ∀ a, lo ≤ a → a < hi → (view s.ram T a).isSome = true
  gone : ∀ d ∈ calls, ∀ a < USER_SPACE_END, d.Maps T a → hi ≤ a → view s.ram T a = none

namespace HeapRange

variable {calls : List BrkCall} {c : BrkCall} {lo hi : Nat}

lemma placed (h : HeapRange T calls s lo 0) {base : Nat} (hbase : base % PAGE_SIZE = 0)
    (hmax : base ≤ BRK_MAX) : HeapRange T calls s base base :=
  ⟨hbase, hbase, le_refl _, hmax, fun a hlo hhi => by omega,
    fun d hd a ha hmaps _ => h.gone d hd a ha hmaps (Nat.zero_le a)⟩

lemma same (h : HeapRange T calls s lo hi) (hbef : c.before.machine = s) :
    HeapRange T (calls ++ [c]) s lo hi := by
  refine ⟨h.loAligned, h.hiAligned, h.le, h.max, h.mapped, fun d hd a ha hmaps hle => ?_⟩
  rcases mem_append.mp hd with hd | hd
  · exact h.gone d hd a ha hmaps hle
  obtain rfl := mem_singleton.mp hd
  rw [← hbef]
  exact hmaps.1

lemma grown (h : HeapRange T calls s lo hi) (hbef : c.before.machine = s)
    (hgr : HeapGrown K exact T R Z hi v s s') : HeapRange T (calls ++ [c]) s' lo v := by
  have hle := hgr.le
  have hhi : hi < USER_SPACE_END := lt_of_le_of_lt h.max (by decide)
  -- a page that is new lies below the new break
  have hnew : ∀ a < USER_SPACE_END, view s.ram T a = none → v ≤ a → view s'.ram T a = none := by
    intro a ha hnone hva
    by_contra hsome
    have hin := hgr.only a ha hnone (Option.isSome_iff_ne_none.mpr hsome)
    omega
  refine ⟨h.loAligned, hgr.aligned, h.le.trans hle, hgr.max, fun a hlo hhi' => ?_,
    fun d hd a ha hmaps hva => hnew a ha ?_ hva⟩
  · by_cases hin : a < hi
    · obtain ⟨b, hb⟩ := Option.isSome_iff_exists.mp (h.mapped a hlo hin)
      rw [hgr.keeps a (hin.trans hhi) b hb]
      rfl
    · exact hgr.mapped a (by omega) hhi'
  rcases mem_append.mp hd with hd | hd
  · exact h.gone d hd a ha hmaps (hle.trans hva)
  obtain rfl := mem_singleton.mp hd
  rw [← hbef]
  exact hmaps.1

lemma shrunk_iff (hv : v % PAGE_SIZE = 0) (hhi : hi % PAGE_SIZE = 0) (a : Nat) :
    Shrunk v hi a ↔ v ≤ a ∧ a < hi := by
  unfold Shrunk PAGE_SIZE at *
  omega

lemma shrunk (h : HeapRange T calls s lo hi) (hbef : c.before.machine = s)
    (hv : v % PAGE_SIZE = 0) (hlo : lo ≤ v) (hhi : v ≤ hi)
    (hview : ∀ a < USER_SPACE_END, view s'.ram T a = if Shrunk v hi a then none
      else view s.ram T a) :
    HeapRange T (calls ++ [c]) s' lo v := by
  have hmax := h.max
  have huser : hi < USER_SPACE_END := lt_of_le_of_lt hmax (by decide)
  simp only [shrunk_iff hv h.hiAligned] at hview
  refine ⟨h.loAligned, hv, hlo, by omega, fun a hloa hav => ?_, fun d hd a ha hmaps hva => ?_⟩
  · rw [hview a (by omega), if_neg (by omega)]
    exact h.mapped a hloa (by omega)
  rw [hview a ha]
  by_cases hin : v ≤ a ∧ a < hi
  · rw [if_pos hin]
  rw [if_neg hin]
  rcases mem_append.mp hd with hd | hd
  · exact h.gone d hd a ha hmaps (by omega)
  obtain rfl := mem_singleton.mp hd
  rw [← hbef]
  exact hmaps.1

end HeapRange

/-- What is true of the running process between the calls. -/
structure HeapState (K : Nat → Prop) (exact : Prop) (T : Nat) (R : Multiset Nat) (Z : Claims Nat)
    (pid : Pid) (calls : List BrkCall) (k : Kernel) (p : Process) : Prop where
  current : k.current = some (pid, p)
  table : p.pml4Phys = T
  family : Family K exact k.machine (T ::ₘ R) Z
  range : HeapRange T calls k.machine p.heapStart p.heapEnd
  unplaced : p.heapStart = 0 → p.heapEnd = 0

section Step

variable {calls : List BrkCall}

lemma HeapState.placed (h : HeapState K exact T R Z pid calls k p) {p0 : Process}
    (hplc : Placed p p0) :
    p0.pml4Phys = T ∧ HeapRange T calls k.machine p0.heapStart p0.heapEnd ∧ p0.heapStart ≠ 0 ∧
      (p.heapEnd = p0.heapEnd ∨ p.heapEnd = 0) := by
  rcases hplc with ⟨hne, rfl⟩ | ⟨hzero, x, hx, rfl⟩
  · exact ⟨h.table, h.range, hne, .inl rfl⟩
  have hrg := h.range
  rw [h.unplaced hzero] at hrg
  have hbase : (USER_HEAP_BASE + x * PAGE_SIZE) % PAGE_SIZE = 0 ∧
    USER_HEAP_BASE + x * PAGE_SIZE ≤ BRK_MAX ∧
      USER_HEAP_BASE + x * PAGE_SIZE ≠ 0 := by
    unfold USER_HEAP_BASE PAGE_SIZE BRK_MAX
    omega
  exact ⟨h.table, hrg.placed hbase.1 hbase.2.1, hbase.2.2, .inr (h.unplaced hzero)⟩

section

variable (hM : M.Documented) (h : HeapState K exact T R Z pid calls k p)
  (hcall : k.sysBrk M newBrk = .ok (r, k'))

include hM h hcall

/-- One more call of `brk` in the run. -/
lemma HeapState.step (hal : p.heapStart ≤ newBrk → newBrk < p.heapEnd → newBrk % PAGE_SIZE = 0) :
    ∃ p', HeapState K exact T R Z pid (calls ++ [⟨k, newBrk, r, k'⟩]) k' p' ∧ ∀ v, r = .ok v →
      BrkCall.Keeps ⟨k, newBrk, r, k'⟩ calls p p' v := by
  obtain ⟨p0, v, hplc, hout, hcur'⟩ := sysBrk_outcome h.current hcall
  obtain ⟨htab, hrg, hne, hend⟩ := h.placed hplc
  have hmax := hrg.max
  have huser : p0.heapEnd < USER_SPACE_END := lt_of_le_of_lt hmax (by decide)
  -- what the sequence of calls has to keep follows from the range afterwards, but for the bytes
  have hkps : ∀ hrg' : HeapRange T (calls ++ [⟨k, newBrk, r, k'⟩]) k'.machine p0.heapStart v,
      (∀ a, p0.heapStart ≤ a → a < p0.heapEnd → a < v →
        view k'.machine.ram T a = view k.machine.ram T a) →
      BrkCall.Keeps ⟨k, newBrk, r, k'⟩ calls p { p0 with heapEnd := v } v := by
    intro hrg' hbs
    rw [← h.table] at hrg' hbs
    refine ⟨hrg'.mapped, fun d hd a ha _ hmaps hva => hrg'.gone d hd a ha hmaps hva, ?_⟩
    intro a hlo hold hav
    refine hbs a hlo ?_ hav
    omega
  have hsta : Family K exact k'.machine (T ::ₘ R) Z →
      HeapRange T (calls ++ [⟨k, newBrk, r, k'⟩]) k'.machine p0.heapStart v →
      HeapState K exact T R Z pid (calls ++ [⟨k, newBrk, r, k'⟩]) k' { p0 with heapEnd := v } :=
    fun hfam hrg' => ⟨hcur', htab, hfam, hrg', fun hzero => absurd hzero hne⟩
  refine ⟨{ p0 with heapEnd := v }, ?_⟩
  generalize hs' : k'.machine = s' at hout
  rw [hs'] at hsta hkps
  cases hout with
  | asked hasked =>
    have hrg' := hrg.same (c := ⟨k, newBrk, .ok p0.heapEnd, k'⟩) rfl
    refine ⟨hsta h.family hrg', ?_⟩
    rintro v ⟨⟩
    exact hkps hrg' fun _ _ _ _ => rfl
  | refused hmax' =>
    exact ⟨hsta h.family (hrg.same rfl), nofun⟩
  | grown hlt hmax' hgrow =>
    rw [htab] at hgrow
    have hgr := growHeap_grows hM h.family hrg.hiAligned hmax hmax' hgrow
    have hrg' := hrg.grown (c := ⟨k, newBrk, .ok v, k'⟩) rfl hgr
    refine ⟨hsta hgr.family hrg', ?_⟩
    rintro v ⟨⟩
    refine hkps hrg' fun a hlo hhi _ => ?_
    obtain ⟨b, hb⟩ := Option.isSome_iff_exists.mp (hrg.mapped a hlo hhi)
    rw [hb, hgr.keeps a (hhi.trans huser) b hb]
  | shrunk hlo hhi hshr =>
    have hsame : p0 = p := by
      rcases hplc with ⟨-, rfl⟩ | ⟨-, x, -, rfl⟩
      · rfl
      · exact absurd hlo (Nat.not_le_of_lt hhi)
    subst hsame
    have hv := hal hlo hhi
    rw [htab] at hshr
    obtain ⟨hfam', hview⟩ := shrinkHeap_shrinks hM h.family huser.le (pageSteps_mul _ _) hshr
    have hrg' := hrg.shrunk (c := ⟨k, newBrk, .ok newBrk, k'⟩) rfl hv hlo hhi.le hview
    refine ⟨hsta hfam' hrg', ?_⟩
    rintro v ⟨⟩
    refine hkps hrg' fun a _ _ hav => ?_
    rw [hview a (by omega), if_neg]
    rw [HeapRange.shrunk_iff hv hrg.hiAligned]
    omega

lemma HeapState.not_keeps (hlo : p.heapStart ≤ newBrk) (hhi : newBrk < p.heapEnd)
    (hunaligned : newBrk % PAGE_SIZE ≠ 0) : ∃ p', k'.procs pid = some p' ∧ r = .ok newBrk ∧
      ¬ BrkCall.Keeps ⟨k, newBrk, r, k'⟩ calls p p' newBrk := by
  obtain ⟨p0, v, hplc, hout, hcur'⟩ := sysBrk_outcome h.current hcall
  have hmax := h.range.max
  have hsame : p0 = p := by
    rcases hplc with ⟨-, rfl⟩ | ⟨hzero, -⟩
    · rfl
    · have hend := h.unplaced hzero
      omega
  subst hsame
  refine ⟨_, (procs_of_current hcur'), ?_⟩
  generalize hs' : k'.machine = s' at hout
  cases hout with
  | asked hasked =>
    have hne : newBrk ≠ 0 := by
      rintro rfl
      exact hunaligned rfl
    omega
  | refused hmax' => omega
  | grown hlt => omega
  | shrunk _ _ hshr =>
    refine ⟨rfl, fun hkps => ?_⟩
    have huser : p0.heapEnd < USER_SPACE_END := lt_of_le_of_lt hmax (by decide)
    obtain ⟨-, hview⟩ :=
      shrinkHeap_shrinks hM (h.table ▸ h.family) huser.le (pageSteps_mul _ _) hshr
    have hst := h.range.loAligned
    -- the byte below the break lies in the first page that is unmapped
    have hlast := hkps.mapped (newBrk - 1) (by unfold PAGE_SIZE at *; dsimp only; omega)
      (by unfold PAGE_SIZE at *; omega)
    have hnone := hview (newBrk - 1) (by omega)
    rw [if_pos (by unfold Shrunk PAGE_SIZE at *; omega)] at hnone
    rw [hs', hnone] at hlast
    cases hlast

end

end Step

/-! ## The whole sequence -/

section Runs

variable {calls : List BrkCall} {c : BrkCall}

lemma heapKept_snoc : HeapKept pid (calls ++ [c]) ↔ HeapKept pid calls ∧
    ∀ v p p', c.result = .ok v → c.before.procs pid = some p → c.after.procs pid = some p' →
      c.Keeps calls p p' v := by
  constructor
  · intro h
    refine ⟨fun past d rest heq => ?_, h calls c [] rfl⟩
    refine h past d (rest ++ [c]) ?_
    rw [heq, append_assoc, cons_append]
  rintro ⟨hinit, hlast⟩ past d rest heq
  rcases eq_nil_or_concat rest with rfl | ⟨rest', d', rfl⟩
  · obtain ⟨rfl, hd⟩ := append_inj' heq rfl
    obtain rfl := (cons.inj hd).1
    exact hlast
  · rw [concat_eq_append, ← cons_append, ← append_assoc] at heq
    exact hinit past d rest' (append_inj' heq rfl).1

lemma alignedShrinks_nil : AlignedShrinks pid [] := by
  intro c hc
  cases hc

lemma alignedShrinks_snoc : AlignedShrinks pid (calls ++ [c]) ↔ AlignedShrinks pid calls ∧
    ∀ p, c.before.procs pid = some p → p.heapStart ≤ c.arg → c.arg < p.heapEnd →
      c.arg % PAGE_SIZE = 0 := by
  simp only [AlignedShrinks, mem_append, mem_singleton]
  constructor
  · intro h
    exact ⟨fun d hd => h d (.inl hd), h c (.inr rfl)⟩
  rintro ⟨hinit, hlast⟩ d (hd | rfl)
  · exact hinit d hd
  · exact hlast

variable (hM : M.Documented) (hcur : k.current = some (pid, p))
  (hfam : Family K exact k.machine (p.pml4Phys ::ₘ R) Z)
  (hunused : p.heapStart = p.heapEnd ∧ p.heapStart % PAGE_SIZE = 0 ∧ p.heapEnd ≤ BRK_MAX)

include hM hcur hfam hunused

lemma Brks.kept (hrun : Brks M k calls k') (hal : AlignedShrinks pid calls) :
    HeapKept pid calls ∧ ∃ p', HeapState K exact p.pml4Phys R Z pid calls k' p' := by
  induction hrun with
  | nil =>
    obtain ⟨heq, hst, hmax⟩ := hunused
    refine ⟨fun past c rest hnil => ?_, p, hcur, rfl, hfam, ?_, fun hzero => heq ▸ hzero⟩
    · simp at hnil
    · exact ⟨hst, heq ▸ hst, heq.le, hmax, fun a hlo hhi => by omega, fun d hd => by cases hd⟩
  | snoc hrun hcall ih =>
    obtain ⟨hinit, hlast⟩ := alignedShrinks_snoc.mp hal
    obtain ⟨hkept, p1, hsta⟩ := ih hinit
    have hproc := (current_eq_some.mp hsta.current).2
    obtain ⟨p2, hsta', hkps⟩ := hsta.step hM hcall (hlast p1 hproc)
    refine ⟨heapKept_snoc.mpr ⟨hkept, fun v q q' hv hq hq' => ?_⟩, p2, hsta'⟩
    cases hproc.symm.trans hq
    cases (current_eq_some.mp hsta'.current).2.symm.trans hq'
    exact hkps v hv

/-- **Keeping the heap.**  Over any sequence of `brk` calls the heap stays mapped, what is above is
given back, and no byte changes, exactly if no request shrinks the heap to a break inside a page. -/
theorem Brks.heapKept_iff (hrun : Brks M k calls k') :
    HeapKept pid calls ↔ AlignedShrinks pid calls := by
  constructor
  · intro h
    induction hrun with
    | nil => exact alignedShrinks_nil
    | snoc hrun hcall ih =>
      obtain ⟨hinit, hlast⟩ := heapKept_snoc.mp h
      have hal := ih hinit
      obtain ⟨-, p₁, hsta⟩ := Brks.kept hM hcur hfam hunused hrun hal
      have hproc := (current_eq_some.mp hsta.current).2
      refine alignedShrinks_snoc.mpr ⟨hal, fun q hq hlo hhi => ?_⟩
      cases hproc.symm.trans hq
      by_contra hunaligned
      obtain ⟨p₂, hp2, hresult, hnot⟩ := hsta.not_keeps hM hcall hlo hhi hunaligned
      exact hnot (hlast _ _ p₂ hresult hproc hp2)
  · exact fun hal => (Brks.kept hM hcur hfam hunused hrun hal).1

end Runs

/-! ## A small heap -/

/-- A page is asked for and given back. -/
theorem Brks.heapKept_iff_page :
    ∃ calls k', Brks referenceMapper loneProcess calls k' ∧ calls.length = 2 ∧
    HeapKept initSlot calls := by
  have hmt : meets (loneProcess.sysBrk referenceMapper (USER_HEAP_BASE + 4096)) (fun x =>
      meets (x.2.sysBrk referenceMapper USER_HEAP_BASE) fun _ => true) = true := by
    decide +kernel
  obtain ⟨⟨r1, k1⟩, hfst, htest⟩ := exists_of_meets hmt
  obtain ⟨⟨r2, k2⟩, hsec, -⟩ := exists_of_meets htest
  have hrun := (Brks.nil.snoc hfst).snoc hsec
  have hcur : loneProcess.current = some (initSlot, loneUser) := rfl
  refine ⟨_, k2, hrun, rfl,
    (Brks.heapKept_iff referenceMapper_documented hcur firstSpace_family (by decide) hrun).mpr ?_⟩
  refine alignedShrinks_snoc.mpr ⟨alignedShrinks_snoc.mpr ⟨alignedShrinks_nil, ?_⟩, ?_⟩
  · intro p _ _ _
    show (USER_HEAP_BASE + 4096) % PAGE_SIZE = 0
    decide
  intro p _ _ _
  show USER_HEAP_BASE % PAGE_SIZE = 0
  decide

/-- A page is asked for, and half of it is given back: the whole page is gone. -/
theorem brk_unmaps_heap :
    ∃ calls k', Brks referenceMapper loneProcess calls k' ∧ ¬ HeapKept initSlot calls := by
  have hmt : meets (loneProcess.sysBrk referenceMapper (USER_HEAP_BASE + 4096)) (fun x =>
      meets (x.2.sysBrk referenceMapper (USER_HEAP_BASE + 2048)) fun y =>
        y.1 == .ok (USER_HEAP_BASE + 2048) && (x.2.procs initSlot).any fun p =>
        (y.2.procs initSlot).any fun p' =>
          p'.heapStart == USER_HEAP_BASE &&
          (view y.2.machine.ram p.pml4Phys USER_HEAP_BASE).isNone) = true := by
    decide +kernel
  obtain ⟨⟨r1, k1⟩, hfst, htest⟩ := exists_of_meets hmt
  obtain ⟨⟨r2, k2⟩, hsec, htest⟩ := exists_of_meets htest
  simp only [Bool.and_eq_true, beq_iff_eq, Option.any_eq_true, Option.isNone_iff_eq_none] at htest
  obtain ⟨rfl, p, hp, p', hp', hst, hnone⟩ := htest
  refine ⟨_, k2, (Brks.nil.snoc hfst).snoc hsec, fun hkept => ?_⟩
  have hkps := (heapKept_snoc.mp hkept).2 _ p p' rfl hp hp'
  have hmap := hkps.mapped USER_HEAP_BASE hst.le (by decide)
  rw [hnone] at hmap
  cases hmap

end Kernel

end Indominus.Sys
