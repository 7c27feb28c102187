import Indominus.Lib.Custody
import Indominus.Sched.Custody

/-! # Dead processes are released exactly once -/

namespace Indominus.Sys

open Memory List Option

namespace Kernel

variable {M : Mapper} {k k' : Kernel} {ev : Event} {i : Pid} {r : Resource}

/-! ## Owners in the kernel -/

lemma holds_slot : k.table.Holds (.slot i) r ↔ ∃ p, k.procs i = some p ∧ r ∈ p.resources := by
  constructor
  · rintro ⟨q, h, hq, hh, hr⟩
    obtain ⟨p, hp, rfl⟩ := exists_of_table_tasks hq
    obtain ⟨p', hp', rfl⟩ := map_eq_some_iff.mp hh
    cases hp.symm.trans hp'
    exact ⟨p, hp, hr⟩
  · rintro ⟨p, hp, hr⟩
    exact ⟨p.task, p.holding, table_tasks hp, map_eq_some_iff.mpr ⟨p, hp, rfl⟩, hr⟩

lemma mem_owned : r ∈ k.owned ↔ k.table.Owned r := by
  rw [owned, mem_append, mem_flatMap, mem_flatMap]
  constructor
  · rintro (⟨i, -, hr⟩ | ⟨d, hd, hr⟩)
    · cases hp : k.procs i with
      | none => simp [hp] at hr
      | some p => exact ⟨.slot i, holds_slot.mpr ⟨p, hp, by simpa [hp] using hr⟩⟩
    · obtain ⟨n, hn⟩ := getElem?_of_mem hd
      exact ⟨.entry n, d, hn, hr⟩
  rintro ⟨o, ho⟩
  cases o with
  | slot i =>
    obtain ⟨p, hp, hr⟩ := holds_slot.mp ho
    exact .inl ⟨i, mem_finRange i, by simpa [hp] using hr⟩
  | entry n =>
    obtain ⟨d, hd, hr⟩ := ho
    exact .inr ⟨d, mem_of_getElem? hd, hr⟩

/-! ## The condition -/

variable {origin : Origin} {task : Task} {slot : Pid} {holding : Holding}

variable {t t' : Table} {gens : Pid → Nat} {l : List Resource}

variable {k0 : Kernel} {p : Process} {childPid savedRsp n : Nat}

lemma Supplies.given {h : Holding} (hev : ev.origin = some origin) (hheld : k.Supplies ev task h) :
    ev.stackGiven = some h.kernelStackBase ∧
      (origin = .user ∨ origin = .fork → k.tableGiven ev = some h.pml4Phys) := by
  cases ev with
  | spawnIdle stack | spawnKernel stack =>
    refine ⟨hheld, fun horigin => ?_⟩
    cases hev
    simp at horigin
  | spawnUser elf parent stack | spawnInit elf stack =>
    obtain ⟨hstk, -, s, htab⟩ := hheld
    refine ⟨hstk, fun _ => ?_⟩
    rw [tableGiven, htab]
    rfl
  | syscall savedRsp frame call =>
    cases call with
    | fork stack extraStack =>
      obtain ⟨hstk, s, htab⟩ := hheld
      refine ⟨hstk, fun _ => ?_⟩
      rw [tableGiven, htab]
      rfl
    | _ => cases hev
  | _ => cases hev

lemma Entrusts.parent (h : k.Entrusts ev) (hev : ev.origin = some origin)
    (hslot : origin = .idle ∧ slot = IDLE_PID ∨ k.freeSlot = some slot)
    (hnew : Creates k.table origin slot task holding gens) (hheld : k.Supplies ev task holding) :
    task.parentPid ≠ some slot.val := by
  cases hnew with
  | idle | kernel => rintro ⟨⟩
  | user hne parent =>
    have hfree : k.freeSlot = some slot := hslot.resolve_left fun hidle => hne hidle.2
    cases ev with
    | spawnUser elf parent' stack =>
      rw [hheld.2.1]
      exact h.2.1 slot hfree
    | spawnInit elf stack =>
      rw [hheld.2.1]
      rintro ⟨⟩
    | syscall savedRsp frame call => cases call <;> cases hev
    | _ => cases hev
  | @fork _ cur q hne hcur =>
    have hfree : k.freeSlot = some slot := hslot.resolve_left fun hidle => hne hidle.2
    obtain ⟨p, hp, -⟩ := exists_of_table_current hcur
    intro hself
    have hsls : cur = slot := Fin.ext (some.inj hself)
    have hnone := (freeSlot_cases hfree).1
    rw [← hsls, procs_of_current hp] at hnone
    cases hnone

lemma Entrusts.fresh (h : k.Entrusts ev) (hcan : k.canHappen ev = true)
    (hev : ev.origin = some origin) (hnew : Creates k.table origin slot task holding gens)
    (hheld : k.Supplies ev task holding) :
    holding.Whole task.isUser k.table.kernelPml4 ∧ ∀ r ∈ holding.resources task.isUser,
      r ≠ .pageTable k.table.kernelPml4 ∧ ¬k.table.Owned r := by
  obtain ⟨hstk, htable⟩ := hheld.given hev
  have hstacks := h.2.2.1 _ hstk
  have hkind : task.isUser = true ∧ k.tableGiven ev = some holding.pml4Phys ∨
      task.isUser = false ∧ holding.pml4Phys = k.kernelPml4 := by
    cases hnew with
    | idle | kernel =>
      refine .inr ⟨rfl, ?_⟩
      cases ev with
      | spawnIdle stack =>
        rw [canHappen, Bool.and_eq_true, onKernelTable, beq_iff_eq] at hcan
        exact hcan.1
      | spawnKernel stack =>
        rw [canHappen, onKernelTable, beq_iff_eq] at hcan
        exact hcan
      | syscall savedRsp frame call => cases call <;> cases hev
      | _ => cases hev
    | user => exact .inl ⟨rfl, htable (.inl rfl)⟩
    | fork _ hcur =>
      refine .inl ⟨?_, htable (.inr rfl)⟩
      obtain ⟨p, hp, rfl⟩ := exists_of_table_current hcur
      cases ev with
      | syscall savedRsp frame call =>
        obtain ⟨pid, q, hq, huser⟩ := userRunning_iff.mp hcan
        cases hp.symm.trans hq
        exact huser
      | _ => cases hev
  have hresume : holding.savedCr3 = 0 := by cases hnew <;> rfl
  refine ⟨⟨hstacks.1, ?_, .inl hresume⟩, fun r hr => ?_⟩
  · rcases hkind with ⟨huser, htab⟩ | ⟨huser, htab⟩
    · rw [huser]
      exact (h.2.2.2 _ htab).1
    · rw [huser]
      exact htab
  rcases mem_resources.mp hr with ⟨huser, -, rfl⟩ | ⟨-, rfl⟩
  · rcases hkind with ⟨-, htab⟩ | ⟨hnot, -⟩
    · obtain ⟨-, hker, hout⟩ := h.2.2.2 _ htab
      refine ⟨fun heq => hker (Resource.pageTable.inj heq), fun hown => ?_⟩
      exact hout (mem_owned.mpr hown)
    · rw [hnot] at huser
      cases huser
  · refine ⟨by rintro ⟨⟩, fun hown => ?_⟩
    exact hstacks.2 (mem_owned.mpr hown)

lemma Entrusts.permits (h : k.Entrusts ev) (hcan : k.canHappen ev = true) {hz : Hazard}
    (hocc : Occurs M k ev t hz) : Trusts t hz := by
  cases hocc with
  | create hev hslot hnew hheld =>
    exact ⟨h.parent hev hslot hnew hheld, h.fresh hcan hev hnew hheld⟩
  | exec | execve => cases h.1
  | _ => trivial

lemma Runs.canHappen {cond : Kernel → Event → Prop} (h : Runs M cond k k') :
    Runs M (fun k ev => cond k ev ∧ k.canHappen ev = true) k k' := by
  refine Relation.ReflTransGen.mono ?_ _ _ h
  rintro k k' ⟨ev, hcond, hstep⟩
  exact ⟨ev, ⟨hcond, hstep.1⟩, hstep⟩

/-- Whenever the kernel is left, everything has one owner, CR3 belongs to the current process, and
nobody is its own parent. -/
structure Orderly (k : Kernel) : Prop where
  sound : k.table.Sound
  custody : k.table.Custody
  onOwnTable : k.table.OnOwnTable
  notOwnParent : k.table.NotOwnParent

lemma Blank.orderly (hbl : k0.Blank) : k0.Orderly := by
  have hnone : ∀ o r, ¬k0.table.Holds o r := by
    rintro (i | n) r ho
    · obtain ⟨p, hp, -⟩ := holds_slot.mp ho
      rw [hbl.procs i] at hp
      cases hp
    obtain ⟨d, hd, -⟩ := ho
    change k0.deferred[n]? = some d at hd
    simp [hbl.deferred] at hd
  have hhols : ∀ i h, k0.table.holdings i ≠ some h := by
    intro i h
    simp [table, hbl.procs i]
  have hpid : ∀ i, k0.table.currentPid ≠ some i := by
    intro i
    change k0.currentPid ≠ some i
    simp [hbl.currentPid]
  refine ⟨hbl.all _, ⟨?_, ?_, ?_, ?_, hbl.all _, ?_⟩, ?_, ⟨hbl.all _, .inl hbl.initPid, ?_⟩⟩
  · exact fun o o' r ho => absurd ho (hnone o r)
  · exact fun o => hnone o _
  · exact fun i h hh => absurd hh (hhols i h)
  · exact fun i p h _ hh => absurd hh (hhols i h)
  · exact fun i hi => absurd hi (hpid i)
  · exact fun i h hi => absurd hi (hpid i)
  intro p hp
  rw [hbl.tasks] at hp
  cases hp

lemma Runs.custody (hbl : k0.Blank) (h : Runs M Entrusts k0 k) : k.Orderly := by
  have hst := hbl.orderly
  obtain ⟨hsnd, -, hc, hown, hn⟩ := Runs.table_invariant (H := Trusts)
    (I := fun t => t.Custody ∧ t.OnOwnTable ∧ t.NotOwnParent)
    (J := fun t => (t.Custody ∧ t.OnOwnTable ∧ t.NotOwnParent) ∧ t.Settled)
    (fun _ _ _ _ _ _ hcond hocc => hcond.1.permits hcond.2 hocc)
    (fun _ _ _ _ hI hmove =>
      ⟨hI.1.calm hI.2.1 hI.2.2 hmove, hI.2.1.calm hI.1 hmove, hI.2.2.calm hmove⟩)
    (fun _ _ _ hawk hI hmove =>
      ⟨⟨hI.1.givesUp hmove, hI.2.1.givesUp hmove, hI.2.2.givesUp hmove⟩,
      hawk.settled_givesUp hmove⟩)
    (fun _ _ hsnd hJ hmove => by
      obtain ⟨hc, hown⟩ := hJ.1.1.switch hsnd hJ.1.2.1 hJ.2 hmove
      exact ⟨hc, hown, hJ.1.2.2.switch hmove⟩)
    hbl ⟨hst.custody, hst.onOwnTable, hst.notOwnParent⟩ h.canHappen
  exact ⟨hsnd, hc, hown, hn⟩

/-! ## What is freed -/

lemma reapedBy_of_wouldReap (hsnd : k.table.Sound) (hreap : k.WouldReap childPid slot)
    (hp : k.procs slot = some p) : k.reapedBy childPid = some p := by
  obtain ⟨cur, q, hcur, hq, hzom, hpar, hch⟩ := hreap
  cases hp.symm.trans hq
  simp only [reapedBy, hcur]
  rcases hch with rfl | ⟨rfl, hfst⟩
  · have hslot : slot.val ≠ 0 := by
      intro hzero
      have hidle : slot = IDLE_PID := Fin.ext hzero
      have hsta : p.state = .ready ∨ p.state = .running :=
        ((hsnd slot p.task (table_tasks hp)).idle hidle).2
      rw [hzom] at hsta
      rcases hsta with hrdy | hrunning
      · cases hrdy
      · cases hrunning
    rw [if_neg hslot, isChildOf, pidSlot_val, bind_some, hp]
    simp [hpar, hzom]
  · rw [if_pos rfl, hfst]

lemma reapedBy_cases (h : k.reapedBy childPid = some p) :
    ∃ cur slot, k.currentPid = some cur ∧ k.procs slot = some p ∧ p.state = .zombie ∧
      hasParent p cur (k.getGeneration cur) = true ∧ (childPid ≠ 0 ∧ childPid = slot.val ∨
        childPid = 0 ∧ k.findAnyZombieChild cur = some p) := by
  rw [reapedBy] at h
  split at h
  · cases h
  rename_i cur hcur
  split at h
  · rename_i hzero
    obtain ⟨slot, hp, htest⟩ := firstProcess_eq_some h
    rw [Bool.and_eq_true, beq_iff_eq] at htest
    exact ⟨cur, slot, hcur, hp, htest.2, htest.1, .inr ⟨hzero, h⟩⟩
  rename_i hzero
  split at h
  · rename_i hch
    rw [filter_eq_some_iff, bind_eq_some_iff] at h
    obtain ⟨⟨slot, hslot, hp⟩, hzom⟩ := h
    rw [isChildOf, hslot, bind_some, hp] at hch
    exact ⟨cur, slot, hcur, hp, beq_iff_eq.mp hzom, hch,
      .inl ⟨hzero, (val_of_pidSlot hslot).symm⟩⟩
  · cases h

lemma Occurs.reap_frees {pipes : PipeViews} (hsnd : k.table.Sound)
    (hocc : Occurs M k ev t (.reap slot pipes)) (hr : t.Holds (.slot slot) r) : r ∈ k.frees ev := by
  cases hocc with
  | @reap savedRsp childPid flags frame _ p hreap hp =>
    rw [← table_enter (k := k) frame] at hr hsnd
    obtain ⟨q, hq, hr⟩ := holds_slot.mp hr
    cases hp.symm.trans hq
    rw [frees, reapedBy_of_wouldReap hsnd hreap hp]
    exact hr
  | @reapInit done rest _ p k1 hzombies hdone hp =>
    obtain ⟨q, hq, hr⟩ := holds_slot.mp hr
    rw [frees, hzombies, mem_flatMap]
    refine ⟨slot.val, by simp, ?_⟩
    rw [pidSlot_val, bind_some, procs_of_reapAll hdone hq]
    exact hr

lemma Occurs.create_gives (hocc : Occurs M k ev t (.create origin slot task holding))
    (hr : r ∈ holding.resources task.isUser) : r ∈ k.gives ev := by
  cases hocc with
  | create hev hslot hnew hheld =>
    obtain ⟨hstk, htab⟩ := hheld.given hev
    rw [gives, mem_append]
    rcases mem_resources.mp hr with ⟨huser, -, rfl⟩ | ⟨-, rfl⟩
    · right
      have horigin : origin = .user ∨ origin = .fork := by
        cases hnew with
        | idle | kernel => cases huser
        | user => exact .inl rfl
        | fork => exact .inr rfl
      rw [htab horigin]
      simp
    left
    rw [hstk]
    simp

/-! ## The books of one step -/

/-- What is not freed is where it was, and nothing is new but what has been handed out. -/
structure Accounts (k : Kernel) (ev : Event) (t : Table) : Prop where
  keeps : ∀ o r, k.table.Holds o r → r ∉ k.frees ev → t.Holds o r
  only : ∀ o r, t.Holds o r → r ∈ k.gives ev ∨ k.table.Holds o r
  current : ∀ i, t.currentPid = some i → k.currentPid = some i

lemma calm_currentPid {H : Permits} (hstep : Calm H t t') :
    t'.currentPid = t.currentPid ∨ t'.currentPid = none := by
  cases hstep with
  | load => exact .inl t.sameLife_load.currentPid
  | lose => exact .inr rfl
  | _ => exact .inl rfl

lemma Accounts.calm (hsnd : k.table.Sound) (hcond : k.Entrusts ev) (h : k.Accounts ev t)
    (hstep : Calm (Occurs M k ev) t t') : k.Accounts ev t' := by
  have hcur : ∀ i, t'.currentPid = some i → k.currentPid = some i := by
    intro i hi
    rcases calm_currentPid hstep with heq | hnone
    · exact h.current i (heq ▸ hi)
    · rw [hnone] at hi
      cases hi
  cases hstep.goods with
  | same hsame =>
    exact ⟨fun o r ho hr => hsame.holds.mpr (h.keeps o r ho hr),
      fun o r ho => h.only o r (hsame.holds.mp ho), hcur⟩
  | give hocc hhol =>
    refine ⟨fun o r ho hr => (hhol o r).mpr (.inl (h.keeps o r ho hr)), fun o r ho => ?_, hcur⟩
    rcases (hhol o r).mp ho with ho | ⟨-, hr⟩
    · exact h.only o r ho
    · exact .inl (hocc.create_gives hr)
  | take hocc hhol =>
    refine ⟨fun o r ho hr => (hhol o r).mpr ⟨h.keeps o r ho hr, ?_⟩,
      fun o r ho => h.only o r ((hhol o r).mp ho).1, hcur⟩
    rintro rfl
    exact hr (hocc.reap_frees hsnd (h.keeps _ r ho hr))
  | drain hocc hhol =>
    refine ⟨fun o r ho hr => (hhol o r).mpr ⟨h.keeps o r ho hr, ?_⟩,
      fun o r ho => h.only o r ((hhol o r).mp ho).1, hcur⟩
    cases o with
    | slot i => exact ⟨i, rfl⟩
    | entry n =>
      -- the whole list is freed
      obtain ⟨d, hd, hrd⟩ := ho
      cases hocc
      exact absurd (mem_flatMap.mpr ⟨d, mem_of_getElem? hd, hrd⟩) hr
  | exec hocc =>
    cases hocc with
    | exec | execve => cases hcond.1

/-- What has become of ownership when the kernel is left. -/
structure Transfers (k : Kernel) (ev : Event) (k' : Kernel) : Prop where
  slot : ∀ i r, k.table.Holds (.slot i) r → r ∉ k.frees ev →
    k'.table.Holds (.slot i) r ∨ ∃ n, k'.table.Holds (.entry n) r
  entry : ∀ n r, k.table.Holds (.entry n) r → r ∉ k.frees ev → k'.table.Holds (.entry n) r
  only : ∀ o r, k'.table.Holds o r → r ∈ k.gives ev ∨ k.table.Holds o r ∨
    ∃ n i, o = .entry n ∧ k.currentPid = some i ∧ k.table.Holds (.slot i) r

lemma Accounts.transfers (h : k.Accounts ev k'.table) : k.Transfers ev k' :=
  ⟨fun _ r ho hr => .inl (h.keeps _ r ho hr), fun _ r => h.keeps _ r,
    fun o r ho => (h.only o r ho).imp_right .inl⟩

/-- An event moves ownership only as the bookkeeping says. -/
lemma Steps.transfers (hsnd : k.table.Sound) (hcond : k.Entrusts ev) (hstep : k.Steps M ev k') :
    k.Transfers ev k' := by
  obtain ⟨t1, hclm, hrest⟩ := hstep.refines (H := Occurs M k ev) hsnd.tidy fun _ _ hocc => hocc
  have hacc : k.Accounts ev t1 := by
    clear hrest
    induction hclm with
    | refl => exact ⟨fun _ _ ho _ => ho, fun _ _ => .inr, fun _ => id⟩
    | tail _ hlast ih => exact ih.calm hsnd hcond hlast
  rcases hrest with rfl | ⟨t2, hup, hsw⟩
  · exact hacc.transfers
  have hsame := hup.goods
  have hcur : t2.currentPid = t1.currentPid := by cases hup <;> rfl
  have hacc2 : k.Accounts ev t2 :=
    ⟨fun o r ho hr => hsame.holds.mpr (hacc.keeps o r ho hr),
      fun o r ho => hacc.only o r (hsame.holds.mp ho), fun i hi => hacc.current i (hcur ▸ hi)⟩
  rcases hsw.goods with hsame' | ⟨v, p, h, hv, -, hh, hhol⟩
  · refine ⟨fun i r ho hr => .inl ?_, fun n r ho hr => ?_, fun o r ho => ?_⟩
    · exact hsame'.holds.mpr (hacc2.keeps _ r ho hr)
    · exact hsame'.holds.mpr (hacc2.keeps _ r ho hr)
    · exact (hacc2.only o r (hsame'.holds.mp ho)).imp_right .inl
  -- a dead process has been buried
  obtain ⟨hpid, hp⟩ := Table.current_eq_some.mp hv
  have hburied : ∀ r, r ∈ h.resources p.isUser ↔ t2.Holds (.slot v) r := by
    intro r
    refine ⟨fun hr => ⟨p, h, hp, hh, hr⟩, ?_⟩
    rintro ⟨p', h', hp', hh', hr⟩
    cases hp.symm.trans hp'
    cases hh.symm.trans hh'
    exact hr
  refine ⟨fun i r ho hr => ?_, fun n r ho hr => ?_, fun o r ho => ?_⟩
  · have hkept := hacc2.keeps _ r ho hr
    by_cases hi : i = v
    · subst hi
      exact .inr ⟨_, (hhol _ r).mpr (.inr ⟨rfl, (hburied r).mpr hkept⟩)⟩
    · refine .inl ((hhol _ r).mpr (.inl ⟨hkept, ?_⟩))
      exact fun heq => hi (Owner.slot.inj heq)
  · exact (hhol _ r).mpr (.inl ⟨hacc2.keeps _ r ho hr, by rintro ⟨⟩⟩)
  rcases (hhol o r).mp ho with ⟨ho, -⟩ | ⟨rfl, hr⟩
  · exact (hacc2.only o r ho).imp_right .inl
  · refine (hacc2.only _ r ((hburied r).mp hr)).imp_right fun hslot => .inr ?_
    exact ⟨_, v, rfl, hacc2.current v hpid, hslot⟩

/-! ## What is freed is gone -/

lemma setRunning_deferred (next : Pid) : (k.setRunning next).deferred = k.deferred := by
  rw [setRunning]
  split <;> rfl

lemma beginTick_deferred (h : k.beginTick = .ok k') : k'.deferred = [] := by
  rw [beginTick] at h
  split at h
  · cases h
  rename_i k1 hdr
  rw [drainDeferredFree] at hdr
  split at hdr
  · cases hdr
  cases hdr
  rw [← Except.ok.inj h, wakeIfPending]
  split <;> rfl

lemma timerTick_deferred {sp : Nat} (h : k.timerTick savedRsp = .ok (sp, k')) :
    k'.deferred = [] := by
  rw [timerTick] at h
  split at h
  · cases h
  rename_i k1 hbeg
  have hemp := beginTick_deferred hbeg
  split at h
  · have hk : (k1.firstDispatch savedRsp).2 = k' := congrArg Prod.snd (Except.ok.inj h)
    rw [← hk, firstDispatch]
    split
    · exact hemp
    · dsimp only [dispatchFirst]
      split <;> exact (setRunning_deferred _).trans hemp
  split at h
  · cases h
  rename_i sp1 k2 htick
  obtain rfl := orIdle_cases h
  have hsv : (k1.saveCurrentSp savedRsp).countTick.deferred = [] := by
    change (k1.saveCurrentSp savedRsp).table.deferred = []
    rw [table_saveCurrentSp]
    exact hemp
  have hk2 : k2.deferred = [] := by
    rw [onTick] at htick
    split at htick
    · obtain ⟨-, hsig⟩ := signalled_switchNextForce (H := fun _ _ => True)
        (fun _ _ _ _ _ _ => trivial) htick
      exact hsig.goods.deferred.trans hsv
    have hk : (k1.saveCurrentSp savedRsp).countTick.currentStackPointer.2 = k2 :=
      congrArg Prod.snd (Except.ok.inj htick)
    rw [← hk, currentStackPointer]
    split
    · exact hsv
    split
    · exact hsv
    split
    · exact hsv
    · exact (setRunning_deferred _).trans hsv
  change k2.loadCr3.table.deferred = []
  rw [table_loadCr3, Table.sameGoods_load.deferred]
  exact hk2

lemma finishCall_none (h : k.finishCall savedRsp = .ok k') (hnone : k.procs i = none) :
    k'.procs i = none := by
  rw [finishCall] at h
  split at h
  · obtain ⟨sp, hsw⟩ := map_snd_eq_ok.mp h
    have hmove := switch_forcedSwitch (H := fun _ _ => True) (fun _ _ _ _ _ _ => trivial) hsw
    cases hp' : k'.procs i with
    | none => rfl
    | some p' =>
      obtain ⟨q, hq, -⟩ := hmove.kin (table_tasks hp')
      obtain ⟨p, hp, -⟩ := exists_of_table_tasks hq
      cases hnone.symm.trans hp
  · cases h
    exact hnone

lemma reapZombie_none {pid : Pid} (h : k.reapZombie pid = .ok k') : k'.procs pid = none := by
  cases hp : k.procs pid with
  | none =>
    simp only [reapZombie, hp] at h
    cases h
    exact hp
  | some p =>
    obtain ⟨s, rfl⟩ := reapZombie_eq hp h
    exact setProc_procs_self _

lemma reapAll_none {pids : List Nat} (h : reapAll pids k = .ok k') (hn : n ∈ pids)
    (hi : pidSlot n = some i) : k'.procs i = none := by
  induction pids generalizing k with
  | nil => cases hn
  | cons pid pids ih =>
    rw [reapAll] at h
    split at h
    · cases h
    rename_i slot hslot
    split at h
    · cases h
    rename_i k1 hreap
    rcases mem_cons.mp hn with rfl | hn
    · cases hi.symm.trans hslot
      cases hp : k'.procs i with
      | none => rfl
      | some p =>
        have hp1 := procs_of_reapAll h hp
        rw [reapZombie_none hreap] at hp1
        cases hp1
    · exact ih h hn

lemma sysWaitpid_none {flags : Nat} {res : SysResult} (htidy : k.table.Tidy)
    (hreap : k.reapedBy childPid = some p) (hp : k.procs i = some p)
    (h : k.sysWaitpid childPid flags = .ok (res, k')) : k'.procs i = none := by
  obtain ⟨cur, slot, hcur, hslot, hzom, hpar, hch⟩ := reapedBy_cases hreap
  have hpid : p.pid = i.val := htidy.pid i p.task (table_tasks hp)
  have hi : slot = i := Fin.ext ((htidy.pid slot p.task (table_tasks hslot)).symm.trans hpid)
  have hwait : k.waitFor i.val flags = .ok (res, k') := by
    simp only [sysWaitpid, hcur] at h
    rcases hch with ⟨hzero, rfl⟩ | ⟨rfl, hfst⟩
    · have hch : k.isChildOf slot.val cur (k.getGeneration cur) = true := by
        rw [isChildOf, pidSlot_val, bind_some, hslot]
        exact hpar
      rwa [if_neg hzero, if_neg (not_not.mpr hch), hi] at h
    · rw [if_pos rfl] at h
      simpa only [hfst, hpid] using h
  simp only [waitFor, pidSlot_val, hp, hzom] at hwait
  rw [if_pos (by rfl)] at hwait
  split at hwait
  · cases hwait
  rename_i k1 hrpd
  cases hwait
  exact reapZombie_none hrpd

lemma not_holds_of_none (hnone : k.procs i = none) (r : Resource) : ¬k.table.Holds (.slot i) r := by
  intro ho
  obtain ⟨p, hp, -⟩ := holds_slot.mp ho
  cases hnone.symm.trans hp

/-- What an event frees had an owner, which was not running and has nothing left. -/
lemma Steps.freed (hord : k.Orderly) (hstep : k.Steps M ev k') (hr : r ∈ k.frees ev) :
    ∃ o, k.table.Holds o r ∧ (∀ i, o = .slot i → k.currentPid ≠ some i) ∧
      ∀ r, ¬k'.table.Holds o r := by
  obtain ⟨hcan, hre⟩ := hstep
  cases ev with
  | timer savedRsp frame =>
    obtain ⟨d, hd, hrd⟩ := mem_flatMap.mp hr
    obtain ⟨n, hn⟩ := getElem?_of_mem hd
    obtain ⟨sp, htick⟩ := map_snd_eq_ok.mp hre
    refine ⟨.entry n, ⟨d, hn, hrd⟩, by rintro i ⟨⟩, ?_⟩
    rintro r ⟨d', hd', -⟩
    change k'.deferred[n]? = some d' at hd'
    simp [timerTick_deferred htick] at hd'
  | syscall savedRsp frame call =>
    cases call with
    | waitpid childPid flags =>
      have henter := table_enter (k := k) frame
      rw [frees] at hr
      cases hreap : (k.enter frame).reapedBy childPid with
      | none =>
        rw [hreap] at hr
        cases hr
      | some p =>
        rw [hreap] at hr
        obtain ⟨cur, slot, hcur, hslot, -, hpar, -⟩ := reapedBy_cases hreap
        refine ⟨.slot slot, henter ▸ holds_slot.mpr ⟨p, hslot, hr⟩, ?_, ?_⟩
        · -- the process that reaps is the parent
          rintro _ ⟨⟩ hself
          have hpid : (k.enter frame).currentPid = k.currentPid := congrArg Table.currentPid henter
          cases hcur.symm.trans (hpid.trans hself)
          rw [hasParent, Bool.and_eq_true, beq_iff_eq] at hpar
          exact hord.notOwnParent.other cur p.task (henter ▸ table_tasks hslot) hpar.1
        apply not_holds_of_none
        change k.syscall M savedRsp frame _ = _ at hre
        rw [Kernel.syscall] at hre
        split at hre
        · cases hre
        rename_i res k1 hhdl
        have htidy : (k.enter frame).table.Tidy := henter ▸ hord.sound.tidy
        exact finishCall_none hre (sysWaitpid_none htidy hreap hslot hhdl)
    | _ => cases hr
  | initRound =>
    obtain ⟨n, hn, hr⟩ := mem_flatMap.mp hr
    obtain ⟨slot, q, rfl, hq, -, hpar⟩ := mem_initZombies hord.sound.tidy hn
    obtain ⟨p, hp, rfl⟩ := exists_of_table_tasks hq
    rw [pidSlot_val, bind_some, hp] at hr
    refine ⟨.slot slot, holds_slot.mpr ⟨p, hp, hr⟩, ?_, ?_⟩
    · -- the reaper is process 1
      rintro _ ⟨⟩ hself
      simp only [canHappen, reaperRunning] at hcan
      split at hcan
      · rename_i cur q hcur
        rw [Bool.and_eq_true, beq_iff_eq] at hcan
        obtain rfl := some.inj ((current_eq_some.mp hcur).1.symm.trans hself)
        refine hord.notOwnParent.other cur p.task hq ?_
        rw [hpar, hcan.1]
      · cases hcan
    · exact not_holds_of_none (reapAll_none hre hn (pidSlot_val slot))
  | _ => cases hr

/-! ## The books balance -/

/-- A run with what it frees, each step of which meets a condition. -/
def Releases (M : Mapper) (cond : Kernel → Event → Prop) : Kernel → List Resource → Kernel → Prop :=
  Lib.Frees (fun k ev k' => cond k ev ∧ k.Steps M ev k') frees

def Reached (M : Mapper) (k : Kernel) : Prop := ∃ k0 : Kernel, k0.Blank ∧ Runs M Entrusts k0 k

lemma Reached.orderly (h : Reached M k) : k.Orderly := by
  obtain ⟨k0, hbl, hrun⟩ := h
  exact hrun.custody hbl

lemma Reached.step (h : Reached M k) (hcond : k.Entrusts ev) (hstep : k.Steps M ev k') :
    Reached M k' := by
  obtain ⟨k0, hbl, hrun⟩ := h
  exact ⟨k0, hbl, hrun.tail ⟨ev, hcond, hstep⟩⟩

lemma Releases.kept (hrun : Releases M Entrusts k l k') (hk : Reached M k) (hr : r ∉ l)
    (ho : k.table.Holds (.slot i) r ∨ ∃ n, k.table.Holds (.entry n) r) :
    Reached M k' ∧ (k'.table.Holds (.slot i) r ∨ ∃ n, k'.table.Holds (.entry n) r) := by
  refine Lib.Frees.invariant (P := fun k => Reached M k ∧
    (k.table.Holds (.slot i) r ∨ ∃ n, k.table.Holds (.entry n) r)) ?_ hrun hr ⟨hk, ho⟩
  rintro k ev k' ⟨hk, ho⟩ ⟨hcond, hstep⟩ hr
  refine ⟨hk.step hcond hstep, ?_⟩
  have htrs := hstep.transfers hk.orderly.sound hcond
  rcases ho with hslot | ⟨n, hent⟩
  · exact htrs.slot i r hslot hr
  · exact .inr ⟨n, htrs.entry n r hent hr⟩

lemma Releases.deferred (hrun : Releases M Entrusts k l k') (hk : Reached M k) (hr : r ∉ l)
    (ho : k.table.Holds (.entry n) r) : k'.table.Holds (.entry n) r := by
  refine (Lib.Frees.invariant (P := fun k => Reached M k ∧ k.table.Holds (.entry n) r) ?_ hrun hr
    ⟨hk, ho⟩).2
  rintro k ev k' ⟨hk, ho⟩ ⟨hcond, hstep⟩ hr
  have htrs := hstep.transfers hk.orderly.sound hcond
  exact ⟨hk.step hcond hstep, htrs.entry n r ho hr⟩

end Kernel

end Indominus.Sys
