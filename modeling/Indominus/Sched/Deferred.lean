import Indominus.Sched.Release
import Indominus.Sys.Quiet

/-!
# The deferred-free list

A process that dies on the CPU leaves its stack and page table on a list of eight entries, for the
next tick.
-/

namespace Indominus.Sys

open Lib Memory

namespace Kernel

variable {M : Mapper} {k k' k0 : Kernel}

/-! ## The calls of `defer_free` -/

/-- The kernel at the point where `schedule_force` calls `defer_free`, if it does. -/
def forceDefers (k : Kernel) (savedRsp : Nat) : Option Kernel :=
  let k := k.saveCurrentSp savedRsp
  match k.switchNextForce with
  | .error _ => none
  | .ok (_, k') =>
    match k.current with
    | none => none
    | some (_, p) =>
      if p.state = .zombie ∧ (p.kernelStackBase ≠ 0 ∨ p.pml4Phys ≠ 0) then some k'.loadCr3 else none

/-- The kernel at the point where `kill_process` calls `defer_free`, if it does. -/
def killDefers (k : Kernel) : Option Kernel :=
  match k.current with
  | none => none
  | some (_, p) =>
    if p.kernelStackBase ≠ 0 ∨ p.pml4Phys ≠ 0 then some k.switchKilled.2.loadCr3 else none

/-- The kernel at the point where the event makes the kernel call `defer_free`, if it does. -/
def defers (M : Mapper) (k : Kernel) : Event → Option Kernel
  | .syscall savedRsp frame call =>
    match (k.enter frame).handle M call with
    | .error _ => none
    | .ok (_, k) =>
      if k.forceSwitch
        then ({ k with forceSwitch := false } : Kernel).forceDefers savedRsp else none
  | .fault => k.killDefers
  | .store va _ =>
    match if va < USER_SPACE_END then storeTarget k.machine.ram k.cr3 va else none with
    | some _ => none
    | none =>
      if va < USER_SPACE_END then
        match handleCowFault k.machine k.cr3 va with
        | .ok (false, s) => ({ k with machine := s } : Kernel).killDefers
        | _ => none
      else k.killDefers
  | _ => none

/-- `defer_free` is called with the list full. -/
def Overflows (M : Mapper) (k : Kernel) (ev : Event) : Prop :=
  ∃ k1 ∈ k.defers M ev, MAX_DEFERRED ≤ k1.deferred.length

/-- The number of deaths since the last tick, after one more event. -/
def deaths (M : Mapper) (k : Kernel) (n : Nat) : Event → Nat
  | .timer _ _ => 0
  | ev => if (k.defers M ev).isSome then n + 1 else n

/-- The states that the kernel can get to, with the number of deaths since the last tick. -/
def DeathRuns (M : Mapper) : Kernel × Nat → Kernel × Nat → Prop :=
  Relation.ReflTransGen fun x y => ∃ ev, x.1.Steps M ev y.1 ∧ y.2 = x.1.deaths M x.2 ev

/-! ## What leaves the list alone -/

lemma reapZombie_deferred {slot : Pid} (h : k.reapZombie slot = .ok k') :
    k'.deferred = k.deferred := by
  cases hp : k.procs slot with
  | none =>
    simp only [reapZombie, hp] at h
    rw [Except.ok.inj h]
  | some p =>
    obtain ⟨s, rfl⟩ := reapZombie_eq hp h
    rfl

lemma reapAll_deferred {pids : List Nat} (h : reapAll pids k = .ok k') :
    k'.deferred = k.deferred := by
  induction pids generalizing k with
  | nil => rw [Except.ok.inj h]
  | cons pid pids ih =>
    rw [reapAll] at h
    split at h
    · cases h
    split at h
    · cases h
    · rename_i k1 hreap
      exact (ih h).trans (reapZombie_deferred hreap)

variable {pid : Pid} {p : Process} {r : SysResult} {sp savedRsp : Nat} {k1 : Kernel} {ev : Event}

lemma Remapped.deferred {R : Machine → Nat → List (Nat × Nat) → Prop} (h : Remapped k pid p R k') :
    k'.deferred = k.deferred := by
  obtain ⟨s, prng, heapStart, heapEnd, regions, -, rfl⟩ := h
  rfl

lemma handle_deferred {call : Syscall} (hcur : k.current.isSome)
    (h : k.handle M call = .ok (r, k')) : k'.deferred = k.deferred := by
  obtain ⟨⟨pid, p⟩, hcur⟩ := Option.isSome_iff_exists.mp hcur
  -- the calls that only move descriptors, states and signals
  have hqt : ∀ x : SysResult × Kernel, Quiet k x.2 →
      (Except.ok x : CallOutcome) = .ok (r, k') →
        k'.deferred = k.deferred := by
    intro x hx heq
    rw [Except.ok.inj heq] at hx
    exact hx.deferred
  cases call with
  | read dev fd bufPtr count => exact hqt _ (quiet_sysRead dev k fd bufPtr count) h
  | write dev fd bufPtr count => exact hqt _ (quiet_sysWrite dev k fd bufPtr count) h
  | openFile file flags => exact hqt _ (quiet_sysOpen k file flags) h
  | close fd => exact hqt _ (quiet_sysClose k fd) h
  | pipe => exact hqt _ (quiet_sysPipe k) h
  | dup fd => exact hqt _ (quiet_sysDup k fd) h
  | dup2 oldfd newfd => exact hqt _ (quiet_sysDup2 k oldfd newfd) h
  | fork stack extraStack =>
    obtain ⟨child, s1, b, s2, -, -, rfl | ⟨-, slot, base, -, -, rfl⟩⟩ :=
      sysFork_cases hcur h <;> rfl
  | exec file =>
    obtain ⟨k0, p0, s, prng, rfl, -, -, ⟨-, -, rfl⟩ | ⟨elf, pml4, entry, top, -, -, -, rfl⟩⟩ :=
      sysExec_result hcur h <;> exact (quiet_closeOnExec k).deferred
  | execve file argv =>
    obtain ⟨k0, p0, s, prng, rfl, -, -,
      ⟨-, -, rfl⟩ | ⟨elf, pml4, entry, top, -, -, ⟨-, -, rfl⟩ | ⟨-, -, rfl⟩⟩⟩ :=
      sysExecve_result hcur h <;> exact (quiet_closeOnExec k).deferred
  | exit code => exact hqt (.ok 0, k.sysExitCall code) (quiet_sysExitCall k code) h
  | waitpid childPid flags =>
    cases waits_sysWaitpid h with
    | same => rfl
    | block reason => exact (quiet_block k reason).deferred
    | reap _ _ hreap => exact reapZombie_deferred hreap
  | sleep ticks => exact hqt (.ok 0, k.sysSleep ticks) (quiet_block k _) h
  | yield => exact hqt (.ok 0, k.sysYield) ((Quiet.refl k).force _) h
  | kill target signum => exact hqt _ (quiet_sysKill k target signum) h
  | sigaction signum handler ptr => exact sysSigaction_deferred h
  | setpgid target pgid => exact hqt _ (quiet_sysSetpgid k target pgid) h
  | getpgid target => exact hqt (k.sysGetpgid target, k) (Quiet.refl k) h
  | brk newBrk => exact (sysBrk_cases hcur h).deferred
  | mmap length => exact (sysMmap_cases hcur h).deferred
  | munmap addr length => exact (sysMunmap_cases hcur h).deferred

lemma spawnUser_deferred {elf : List Byte} {parent stack : Option Nat} {r : Option Pid}
    (h : k.spawnUser M elf parent stack = .ok (r, k')) : k'.deferred = k.deferred := by
  obtain ⟨pml4, s1, b, s2, prng, -, -, -, ⟨-, -, s3, -, rfl⟩ | ⟨-, rip, rsp, hslot⟩⟩ :=
    spawnUser_cases h
  · rfl
  obtain ⟨gens, heq | ⟨slot, p, -, -, -, heq⟩⟩ := spawnUserSlot_cases
    ({ k with machine := s2, prng := prng } : Kernel) rip rsp pml4 parent stack
  all_goals
    rw [hslot] at heq
    have hdefd := congrArg Kernel.deferred heq
    exact hdefd

lemma enter_deferred (frame : Frame) : (k.enter frame).deferred = k.deferred := by
  unfold enter
  split
  · rfl
  split <;> rfl

lemma loadCr3_deferred (k : Kernel) : k.loadCr3.deferred = k.deferred := by
  unfold loadCr3
  split <;> rfl

lemma saveCurrentSp_deferred (k : Kernel) (sp : Nat) :
    (k.saveCurrentSp sp).deferred = k.deferred := by
  unfold saveCurrentSp
  split <;> rfl

lemma switchNextForce_deferred (h : k.switchNextForce = .ok (sp, k')) :
    k'.deferred = k.deferred := by
  obtain ⟨-, hsig⟩ := signalled_switchNextForce (H := fun _ _ => True)
    (fun _ _ _ _ _ _ => trivial) h
  exact hsig.goods.deferred

lemma switchKilled_deferred (k : Kernel) : k.switchKilled.2.deferred = k.deferred := by
  refine (setRunning_deferred _).trans ?_
  unfold killCurrent
  split
  · rfl
  dsimp only
  split <;> rfl

lemma killDefers_deferred (h : k.killDefers = some k1) : k1.deferred = k.deferred := by
  unfold killDefers at h
  split at h
  · cases h
  split at h
  · rw [← Option.some.inj h, loadCr3_deferred, switchKilled_deferred]
  · cases h

lemma forceDefers_deferred (h : k.forceDefers savedRsp = some k1) : k1.deferred = k.deferred := by
  unfold forceDefers at h
  dsimp only at h
  split at h
  · cases h
  rename_i hsw
  split at h
  · cases h
  split at h
  · rw [← Option.some.inj h, loadCr3_deferred, switchNextForce_deferred hsw,
      saveCurrentSp_deferred]
  · cases h

lemma handle_enter_deferred {frame : Frame} {call : Syscall} (huser : k.userRunning = true)
    (h : (k.enter frame).handle M call = .ok (r, k')) : k'.deferred = k.deferred := by
  obtain ⟨pid, p, hcur, -⟩ := userRunning_iff.mp huser
  obtain ⟨p', hcur', -⟩ := enter_current hcur frame
  rw [handle_deferred (Option.isSome_iff_exists.mpr ⟨_, hcur'⟩) h, enter_deferred]

lemma defers_deferred (hcan : k.canHappen ev = true) (h : k.defers M ev = some k1) :
    k1.deferred = k.deferred := by
  cases ev with
  | syscall savedRsp frame call =>
    simp only [defers] at h
    split at h
    · cases h
    rename_i r k2 hhdl
    split at h
    · have hkept := handle_enter_deferred hcan hhdl
      have hsame := forceDefers_deferred h
      exact hsame.trans hkept
    · cases h
  | fault => exact killDefers_deferred h
  | store va b =>
    simp only [defers] at h
    split at h
    · cases h
    split at h
    · split at h
      · have hsame := killDefers_deferred h
        exact hsame
      · cases h
    · exact killDefers_deferred h
  | spawnIdle | spawnKernel | spawnUser | spawnInit | timer | key | line | initRound => cases h

/-! ## Growth -/

lemma takeDead_length (h : k.takeDead pid p = .ok k') : k'.deferred.length =
      if p.kernelStackBase ≠ 0 ∨ p.pml4Phys ≠ 0 then k.deferred.length + 1
        else k.deferred.length := by
  unfold takeDead at h
  split at h
  · rename_i hheld
    rw [if_pos hheld]
    split at h
    · cases h
    rename_i k1 hdef
    have hlen : k1.deferred.length = k.deferred.length + 1 := by
      unfold deferFree at hdef
      split at hdef
      · rw [← Except.ok.inj hdef, List.length_append]
        rfl
      · cases hdef
    split at h <;> rw [← Except.ok.inj h] <;> exact hlen
  · rename_i hnone
    rw [if_neg hnone, Except.ok.inj h]

lemma fatalFault_length (h : k.fatalFault = .ok k') :
    k'.deferred.length = if k.killDefers.isSome then k.deferred.length + 1
      else k.deferred.length := by
  unfold fatalFault at h
  split at h
  · cases h
  rename_i sp k1 hkill
  split at h
  · cases h
  cases h
  unfold faultKill at hkill
  have hld : k.switchKilled.2.loadCr3.deferred = k.deferred := by
    rw [loadCr3_deferred, switchKilled_deferred]
  unfold killDefers
  cases hcur : k.current with
  | none =>
    simp only [hcur] at hkill
    rw [← ok_snd_inj hkill, hld]
    rfl
  | some current =>
    obtain ⟨pid, p⟩ := current
    simp only [hcur] at hkill
    cases htake : k.switchKilled.2.loadCr3.takeDead pid p with
    | error e =>
      simp only [htake] at hkill
      cases hkill
    | ok k2 =>
      simp only [htake] at hkill
      rw [← ok_snd_inj hkill, takeDead_length htake, hld]
      dsimp only
      split <;> rfl

lemma forcedSwitch_length (h : k.forcedSwitch savedRsp = .ok (sp, k')) : k'.deferred.length =
      if (k.forceDefers savedRsp).isSome then k.deferred.length + 1 else k.deferred.length := by
  unfold forcedSwitch at h
  dsimp only at h
  split at h
  · cases h
  rename_i sp1 k1 hsw
  have hld : k1.loadCr3.deferred = k.deferred := by
    rw [loadCr3_deferred, switchNextForce_deferred hsw, saveCurrentSp_deferred]
  simp only [forceDefers, hsw]
  cases hcur : (k.saveCurrentSp savedRsp).current with
  | none =>
    simp only [hcur] at h
    rw [orIdle_cases h, hld]
    rfl
  | some current =>
    obtain ⟨pid, p⟩ := current
    simp only [hcur] at h
    by_cases hzom : p.state = .zombie
    · rw [if_pos hzom] at h
      cases htake : k1.loadCr3.takeDead pid p with
      | error e =>
        simp only [htake] at h
        cases h
      | ok k2 =>
        simp only [htake] at h
        rw [orIdle_cases h, takeDead_length htake, hld]
        simp only [hzom, true_and]
        split <;> rfl
    rw [if_neg hzom] at h
    simp only [hzom, false_and, if_false]
    rw [orIdle_cases h, hld]
    rfl

/-- A death adds an entry to the list, and a tick empties it. -/
lemma Steps.deferred_length (h : k.Steps M ev k') :
    k'.deferred.length = k.deaths M k.deferred.length ev := by
  obtain ⟨hcan, hre⟩ := h
  cases ev with
  | spawnIdle stack =>
    simp only [react, spawnIdle] at hre
    split at hre
    · cases hre
    · cases hre
      rfl
  | spawnKernel stack =>
    cases hre
    unfold spawnKernel
    split
    · rfl
    split <;> rfl
  | spawnUser elf parent stack =>
    obtain ⟨r, hsp⟩ := map_snd_eq_ok.mp hre
    rw [spawnUser_deferred hsp]
    rfl
  | spawnInit elf stack =>
    simp only [react, spawnInit] at hre
    split at hre
    · cases hre
    all_goals
      rename_i hsp
      have hsame := spawnUser_deferred hsp
      cases hre
      exact congrArg List.length hsame
  | timer savedRsp frame =>
    obtain ⟨sp, htick⟩ := map_snd_eq_ok.mp hre
    rw [timerTick_deferred htick]
    rfl
  | key signal =>
    cases hre
    rfl
  | line =>
    cases hre
    rfl
  | syscall savedRsp frame call =>
    simp only [react, syscall] at hre
    split at hre
    · cases hre
    rename_i r k1 hhdl
    have hsame := handle_enter_deferred hcan hhdl
    simp only [deaths, defers, hhdl]
    unfold finishCall at hre
    split at hre
    · rename_i hfor
      obtain ⟨sp, hsw⟩ := map_snd_eq_ok.mp hre
      rw [if_pos hfor, forcedSwitch_length hsw, hsame]
    rename_i hfor
    rw [if_neg hfor, ← Except.ok.inj hre, hsame]
    rfl
  | fault => exact fatalFault_length hre
  | store va b =>
    simp only [react, storeByte] at hre
    simp only [deaths, defers]
    rcases Option.eq_none_or_eq_some
      (if va < USER_SPACE_END then storeTarget k.machine.ram k.cr3 va else none)
      with htgt | ⟨addr, htgt⟩
    · simp only [htgt] at hre ⊢
      by_cases hva : va < USER_SPACE_END
      · simp only [hva, if_true] at hre ⊢
        obtain ⟨r, hflt⟩ : ∃ r, r = handleCowFault k.machine k.cr3 va := ⟨_, rfl⟩
        rw [← hflt] at hre
        simp only [← hflt]
        cases r with
        | error e => cases hre
        | ok r =>
          obtain ⟨handled, s⟩ := r
          cases handled with
          | true =>
            cases hre
            rfl
          | false =>
            have hlen := fatalFault_length hre
            exact hlen
      · simp only [hva, if_false] at hre ⊢
        exact fatalFault_length hre
    simp only [htgt] at hre ⊢
    cases hre
    rfl
  | initRound =>
    rw [reapAll_deferred hre]
    rfl

/-! ## Runs -/

lemma DeathRuns.eq_length {n : Nat} (hemp : k0.deferred = []) (h : DeathRuns M (k0, 0) (k, n)) :
    n = k.deferred.length := by
  obtain ⟨x, hx⟩ : ∃ x, x = (k, n) := ⟨_, rfl⟩
  rw [← hx] at h
  suffices hlen : x.2 = x.1.deferred.length by rw [hx] at hlen; exact hlen
  clear hx
  induction h with
  | refl =>
    rw [hemp]
    rfl
  | tail _ hstep ih =>
    obtain ⟨ev, hsts, hcnt⟩ := hstep
    rw [hcnt, hsts.deferred_length, ih]

/-- Deaths can be counted along any run. -/
lemma Runs.deaths {cond : Kernel → Event → Prop} (h : Runs M cond k0 k) :
    ∃ n, DeathRuns M (k0, 0) (k, n) := by
  induction h with
  | refl => exact ⟨0, .refl⟩
  | tail _ hstep ih =>
    obtain ⟨n, hn⟩ := ih
    obtain ⟨ev, -, hsts⟩ := hstep
    exact ⟨_, hn.tail ⟨ev, hsts, rfl⟩⟩

/-- From any process table with an empty list: `defer_free` finds the list full exactly when a
process dies and eight have died since the last tick. -/
theorem DeathRuns.overflow_iff {n : Nat} {ev : Event} (hempty : k0.deferred = [])
    (hruns : DeathRuns M (k0, 0) (k, n)) (hcan : k.canHappen ev = true) :
    k.Overflows M ev ↔ (k.defers M ev).isSome ∧ MAX_DEFERRED ≤ n := by
  have hlen := hruns.eq_length hempty
  constructor
  · rintro ⟨k1, hk₁, hfull⟩
    rw [defers_deferred hcan hk₁, ← hlen] at hfull
    exact ⟨Option.isSome_iff_exists.mpr ⟨k1, hk₁⟩, hfull⟩
  rintro ⟨hsome, hfull⟩
  obtain ⟨k1, hk₁⟩ := Option.isSome_iff_exists.mp hsome
  refine ⟨k1, hk₁, ?_⟩
  rw [defers_deferred hcan hk₁, ← hlen]
  exact hfull

/-! ## Nine deaths -/

/-- Idle and nine user processes, the first running, each with a stack and a page table. -/
def crowdedKernel : Kernel :=
  { emptyKernel with
    procs := fun i =>
      if i.val = 0 then some (Process.newKernel 0 1 0x10000)
      else if i.val ≤ 9 then
        some { Process.newUser i.val 0x400000 0x500000 (2 + i.val) none 0
        (0x10000 * (i.val + 1)) with
          state := if i.val = 1 then .running else .ready }
      else none
    currentPid := some ⟨1, one_lt_maxProcesses⟩
    cr3 := 3 }

/-- Does the event find the list full, and does the kernel halt then? -/
def overflowsAt (M : Mapper) (k : Kernel) (ev : Event) : Bool :=
  k.canHappen ev && (k.defers M ev).any (fun k1 => decide (MAX_DEFERRED ≤ k1.deferred.length)) &&
    match k.react M ev with
    | .error e => e == .deferredSlotsFull
    | .ok _ => false

lemma overflows_of_overflowsAt (h : overflowsAt M k ev = true) :
    k.canHappen ev = true ∧ k.Overflows M ev ∧ k.react M ev = .error .deferredSlotsFull := by
  rw [overflowsAt, Bool.and_eq_true, Bool.and_eq_true, Option.any_eq_true] at h
  obtain ⟨⟨hcan, k1, hk1, hfull⟩, hhalt⟩ := h
  refine ⟨hcan, ⟨k1, hk1, of_decide_eq_true hfull⟩, ?_⟩
  split at hhalt
  · rename_i e herr
    rw [herr, beq_iff_eq.mp hhalt]
  · cases hhalt

lemma eight_exits : ∃ k, Runs referenceMapper (fun _ _ => True) crowdedKernel k ∧
    overflowsAt referenceMapper k (call (.exit 0)) = true := by
  have hpl : plays referenceMapper (fun _ _ => True) (List.replicate 8 (call (.exit 0)))
      crowdedKernel (fun k => overflowsAt referenceMapper k (call (.exit 0))) = true := by
    decide +kernel
  exact runs_of_plays hpl

/-- When the ninth process exits, eight deaths have been counted. -/
theorem DeathRuns.overflow_iff_ninth : ∃ k n, DeathRuns referenceMapper (crowdedKernel, 0) (k, n) ∧
    k.Overflows referenceMapper (call (.exit 0)) ∧ MAX_DEFERRED ≤ n := by
  obtain ⟨k, hruns, hat⟩ := eight_exits
  obtain ⟨hcan, hover, -⟩ := overflows_of_overflowsAt hat
  obtain ⟨n, hn⟩ := hruns.deaths
  exact ⟨k, n, hn, hover, ((DeathRuns.overflow_iff rfl hn hcan).mp hover).2⟩

/-- Eight processes exit one after the other, each giving the CPU to the next; the ninth finds the
list full and the kernel halts. -/
theorem nine_exits_overflow : ∃ k, Runs referenceMapper (fun _ _ => True) crowdedKernel k ∧
    k.canHappen (call (.exit 0)) = true ∧ k.Overflows referenceMapper (call (.exit 0)) ∧
    k.react referenceMapper (call (.exit 0)) = .error .deferredSlotsFull := by
  obtain ⟨k, hruns, hat⟩ := eight_exits
  exact ⟨k, hruns, overflows_of_overflowsAt hat⟩

end Kernel

end Indominus.Sys
