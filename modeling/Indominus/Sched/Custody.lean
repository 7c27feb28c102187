import Indominus.Sched.Family
import Indominus.Sched.Goods
import Indominus.Sched.Zombies

/-!
# Custody

Nothing has two owners, and a process that owns nothing any more never runs again.
-/

namespace Indominus.Sys

open Memory Option

structure Task.AtRest (p : Task) : Prop where
  user : p.isUser = true
  zombie : p.state = .zombie
  reason : p.wakeReason.forChild = false

lemma Task.AtRest.not_blocked {p : Task} (hrest : p.AtRest) : p.state ≠ .blocked := by
  rw [hrest.zombie]
  rintro ⟨⟩

/-- The holding of a process with a stack and a page table, on which it will resume. -/
structure Holding.Whole (h : Holding) (isUser : Bool) (kernelPml4 : Nat) : Prop where
  stack : h.kernelStackBase ≠ 0
  table : if isUser then h.pml4Phys ≠ 0 else h.pml4Phys = kernelPml4
  resume : h.savedCr3 = 0 ∨ h.savedCr3 = h.pml4Phys

namespace Table

variable {H : Permits} {t t' : Table} {i v : Pid} {o : Owner} {r : Resource}
  {p : Task} {h : Holding} {f : Pid → Task → Task}

/-- The process has all that it needs, or it has left everything and will not run again. -/
def Fit (t : Table) (i : Pid) (p : Task) (h : Holding) : Prop :=
  h.Whole p.isUser t.kernelPml4 ∨ h.goods = (0, 0) ∧ p.AtRest ∧ t.currentPid ≠ some i

structure Custody (t : Table) : Prop where
  sole : ∀ o o' r, t.Holds o r → t.Holds o' r → o = o'
  kernel : ∀ o, ¬t.Holds o (.pageTable t.kernelPml4)
  paired : ∀ i h, t.holdings i = some h → ∃ p, t.tasks i = some p
  fit : ∀ i p h, t.tasks i = some p → t.holdings i = some h → t.Fit i p h
  mortal : t.All fun _ p => p.state = .zombie → p.isUser = true
  present : ∀ i, t.currentPid = some i → i ≠ IDLE_PID → t.tasks i ≠ none

def OnOwnTable (t : Table) : Prop :=
  ∀ i h, t.currentPid = some i → t.holdings i = some h → t.cr3 = h.pml4Phys

/-- No process is its own parent; and init has none, which is why it stays so when init adopts. -/
structure NotOwnParent (t : Table) : Prop where
  other : t.All fun i p => p.parentPid ≠ some i.val
  init : t.initPid = IDLE_PID ∨ t.tasks t.initPid ≠ none
  none : ∀ p, t.tasks t.initPid = some p → p.parentPid = none

end Table

/-- What a new task owns is new and complete, and it is not its own parent.  There is no exec. -/
def Trusts (t : Table) : Hazard → Prop
  | .create _ slot task holding => task.parentPid ≠ some slot.val ∧
      holding.Whole task.isUser t.kernelPml4 ∧
      ∀ r ∈ holding.resources task.isUser, r ≠ .pageTable t.kernelPml4 ∧ ¬t.Owned r
  | .exec => False
  | _ => True

namespace Table

variable {t t' : Table} {i v : Pid} {o : Owner} {r : Resource} {p : Task} {h : Holding}
  {f : Pid → Task → Task}

/-! ## Changes of tasks -/

/-- Some tasks are changed. -/
lemma Custody.mapWhere {g : Task → Task} {a : Pid → Task → Prop} [∀ i p, Decidable (a i p)]
    (hc : t.Custody) (hg : ∀ p, (g p).isUser = p.isUser)
    (hdies : ∀ i p, a i p → t.tasks i = some p → (g p).state = .zombie → p.isUser = true)
    (hrest : ∀ i p, a i p → t.tasks i = some p → t.currentPid ≠ some i → p.AtRest → (g p).AtRest) :
    (t.mapTasks fun i p => if a i p then g p else p).Custody := by
  have hgds : t.SameGoods (t.mapTasks fun i p => if a i p then g p else p) := by
    refine sameGoods_mapTasks fun i p => ?_
    split
    · exact hg p
    · rfl
  refine ⟨?_, ?_, ?_, ?_, ?_, ?_⟩
  · intro o o' r ho ho'
    exact hc.sole o o' r (hgds.holds.mp ho) (hgds.holds.mp ho')
  · intro o ho
    exact hc.kernel o (hgds.holds.mp ho)
  · intro i h hh
    obtain ⟨p, hp⟩ := hc.paired i h hh
    exact ⟨_, map_eq_some_iff.mpr ⟨p, hp, rfl⟩⟩
  · intro i q h hq hh
    obtain ⟨p, hp, ⟨-, rfl⟩ | ⟨hi, rfl⟩⟩ := exists_of_where hq
    · exact hc.fit i q h hp hh
    rcases hc.fit i p h hp hh with hwh | ⟨hemp, hrests, hcur⟩
    · left
      rw [hg]
      exact hwh
    · exact .inr ⟨hemp, hrest i p hi hp hcur hrests, hcur⟩
  · intro i q hq hzom
    obtain ⟨p, hp, ⟨-, rfl⟩ | ⟨hi, rfl⟩⟩ := exists_of_where hq
    · exact hc.mortal i q hp hzom
    · exact (hg p).trans (hdies i p hi hp hzom)
  intro i hi hidle
  rw [mapTasks_tasks, Ne, map_eq_none_iff]
  exact hc.present i hi hidle

lemma Custody.wake (hc : t.Custody) {who : Pid → Bool}
    (hwho : ∀ i p, who i = true → t.tasks i = some p → ¬p.AtRest) : (t.wake who).Custody :=
  hc.mapWhere (fun _ => rfl) (fun _ _ _ _ hzom => by cases hzom) fun i p hi hp _ hrest =>
    absurd hrest (hwho i p hi hp)

lemma Custody.update (g : Task → Task) (hc : t.Custody) (hg : ∀ p, (g p).isUser = p.isUser)
    (hdies : ∀ p, t.tasks v = some p → (g p).state = .zombie → p.isUser = true)
    (hv : t.currentPid = some v ∨ ∀ p, t.tasks v = some p → ¬p.AtRest) :
    (t.update v g).Custody := by
  refine hc.mapWhere hg (fun i p hi hp => hdies p (hi ▸ hp)) fun i p hi hp hcur hrest => ?_
  subst hi
  exact absurd hrest (hv.resolve_left hcur p hp)

lemma Custody.kill (hc : t.Custody) (hcur : t.current = some (v, p)) (huser : p.isUser = true) :
    (t.kill v).Custody := by
  obtain ⟨hpid, hp⟩ := current_eq_some.mp hcur
  have hadopt : (t.adopt v).Custody :=
    hc.mapWhere (fun _ => rfl) (fun i q _ hq hzom => hc.mortal i q hq hzom)
      fun _ _ _ _ _ hrest => ⟨hrest.user, hrest.zombie, hrest.reason⟩
  refine hadopt.update Task.dead (fun _ => rfl) (fun q hq _ => ?_) (.inl hpid)
  obtain ⟨q0, hq0, rfl⟩ := map_eq_some_iff.mp hq
  cases hp.symm.trans hq0
  exact (adopted_isUser v p).trans huser

lemma Custody.suspend (hc : t.Custody) : t.suspend.Custody := by
  refine hc.mapWhere (fun _ => rfl) (fun _ _ _ _ hzom => by cases hzom) fun i p hi _ _ hrest => ?_
  rw [hrest.zombie] at hi
  cases hi.2

lemma Custody.wakeParent (hc : t.Custody) {q : Task} : (t.wakeParent v q).Custody := by
  refine hc.wake fun i p hi hp hrest => ?_
  simp only [hp, Bool.and_eq_true, beq_iff_eq] at hi
  have hwhy := hrest.reason
  rw [hi.2.2] at hwhy
  cases hwhy

/-! ## Changes of holdings -/

lemma Custody.congr (hc : t.Custody) (htsk : t'.tasks = t.tasks)
    (hhols : t'.holdings = t.holdings) (hdefd : t'.deferred = t.deferred)
    (hcur : t'.currentPid = t.currentPid) (hker : t'.kernelPml4 = t.kernelPml4) : t'.Custody := by
  have hgds : t.SameGoods t' :=
    ⟨fun i => by rw [htsk], fun i => by rw [hhols], hdefd⟩
  refine ⟨?_, ?_, ?_, ?_, ?_, ?_⟩
  · intro o o' r ho ho'
    exact hc.sole o o' r (hgds.holds.mp ho) (hgds.holds.mp ho')
  · intro o ho
    rw [hker] at ho
    exact hc.kernel o (hgds.holds.mp ho)
  · rw [htsk, hhols]
    exact hc.paired
  · rw [htsk, hhols]
    intro i p h hp hh
    rw [Fit, hcur, hker]
    exact hc.fit i p h hp hh
  · rw [All, htsk]
    exact hc.mortal
  · rw [htsk, hcur]
    exact hc.present

lemma Custody.run (hc : t.Custody) {next : Pid} (hnext : t.CanRun next)
    (hawk : ∀ p, t.tasks next = some p → ¬p.AtRest) : (t.run next).Custody := by
  have hup : (t.update next fun p => { p with state := .running }).Custody :=
    hc.update _ (fun _ => rfl) (fun _ _ hzom => by cases hzom) (.inr hawk)
  refine ⟨hup.sole, hup.kernel, hup.paired, ?_, hup.mortal, ?_⟩
  · intro i q h hq hh
    rcases hup.fit i q h hq hh with hwh | ⟨hemp, hrest, -⟩
    · exact .inl hwh
    refine .inr ⟨hemp, hrest, ?_⟩
    rintro ⟨⟩
    -- the chosen task is running now
    obtain ⟨q0, -, rfl⟩ := map_eq_some_iff.mp hq
    have hzom := hrest.zombie
    beta_reduce at hzom
    rw [if_pos rfl] at hzom
    cases hzom
  rintro i ⟨⟩ hidle
  obtain ⟨p, hp, -⟩ := hnext.resolve_right hidle
  obtain ⟨q, hq⟩ := (bred_run (D := fun _ => False) next).stays hp
  intro hnone
  cases hq.symm.trans hnone

lemma Custody.save (hc : t.Custody) (hown : t.OnOwnTable) : t.save.Custody := by
  have hgds : t.SameGoods t.save := sameGoods_save
  refine ⟨?_, ?_, ?_, ?_, hc.mortal, hc.present⟩
  · intro o o' r ho ho'
    exact hc.sole o o' r (hgds.holds.mp ho) (hgds.holds.mp ho')
  · intro o ho
    exact hc.kernel o (hgds.holds.mp ho)
  · intro i h hh
    obtain ⟨h0, hh0, -⟩ := map_eq_some_iff.mp hh
    exact hc.paired i h0 hh0
  intro i p h hp hh
  obtain ⟨h0, hh0, rfl⟩ := map_eq_some_iff.mp hh
  rcases hc.fit i p h0 hp hh0 with hwh | ⟨hemp, hrest, hcur⟩
  · left
    split
    · rename_i hi
      exact ⟨hwh.stack, hwh.table, .inr (hown i h0 hi hh0)⟩
    · exact hwh
  right
  rw [if_neg hcur]
  exact ⟨hemp, hrest, hcur⟩

lemma OnOwnTable.save (hown : t.OnOwnTable) : t.save.OnOwnTable := by
  intro i h hi hh
  change t.currentPid = some i at hi
  obtain ⟨h0, hh0, rfl⟩ := map_eq_some_iff.mp hh
  rw [if_pos hi]
  exact hown i h0 hi hh0

lemma load_holdings (t : Table) : t.load.holdings = t.holdings := by
  rw [Table.load]
  split <;> rfl

lemma loadFirst_holdings (t : Table) : t.loadFirst.holdings = t.holdings := by
  rw [Table.loadFirst]
  split <;> rfl

lemma Custody.load (hc : t.Custody) : t.load.Custody := by
  refine hc.congr t.sameLife_load.tasks t.load_holdings sameGoods_load.deferred
    t.sameLife_load.currentPid ?_
  rw [Table.load]
  split <;> rfl

lemma Custody.loadFirst (hc : t.Custody) : t.loadFirst.Custody := by
  refine hc.congr t.sameLife_loadFirst.tasks t.loadFirst_holdings sameGoods_loadFirst.deferred
    t.sameLife_loadFirst.currentPid ?_
  rw [Table.loadFirst]
  split <;> rfl

lemma Custody.current_whole (hc : t.Custody) (hcur : t.currentPid = some i)
    (hh : t.holdings i = some h) : ∃ p, t.tasks i = some p ∧ h.Whole p.isUser t.kernelPml4 := by
  obtain ⟨p, hp⟩ := hc.paired i h hh
  refine ⟨p, hp, (hc.fit i p h hp hh).resolve_right ?_⟩
  rintro ⟨-, -, hnot⟩
  exact hnot hcur

lemma Custody.onOwnTable_load (hc : t.Custody) : t.load.OnOwnTable := by
  intro i h hi hh
  rw [t.sameLife_load.currentPid] at hi
  rw [load_holdings] at hh
  obtain ⟨p, -, hwh⟩ := hc.current_whole hi hh
  simp only [Table.load, hi, bind_some, hh]
  split
  · rename_i hsv
    exact hwh.resume.resolve_left hsv
  · rfl

lemma onOwnTable_loadFirst (t : Table) : t.loadFirst.OnOwnTable := by
  intro i h hi hh
  rw [t.sameLife_loadFirst.currentPid] at hi
  rw [loadFirst_holdings] at hh
  simp [Table.loadFirst, hi, hh]

lemma Custody.bury (hc : t.Custody) (hp : t.tasks v = some p) (hrest : p.AtRest)
    (hcur : t.currentPid ≠ some v) (hh : t.holdings v = some h) {h0 : Holding}
    (hgds : h.goods = h0.goods) : (t.bury v p.isUser h0).Custody := by
  have hlife := t.sameLife_bury v p.isUser h0
  have hker : (t.bury v p.isUser h0).kernelPml4 = t.kernelPml4 := by
    rw [Table.bury]
    split <;> rfl
  have hold : ∀ r, r ∈ h0.resources p.isUser → t.Holds (.slot v) r := by
    intro r hr
    refine ⟨p, h, hp, hh, ?_⟩
    obtain ⟨hstk, htab⟩ := Prod.mk.inj hgds
    rwa [Holding.resources, hstk, htab]
  refine ⟨?_, ?_, ?_, ?_, ?_, ?_⟩
  · intro o o' r ho ho'
    rw [holds_bury hp hh hgds] at ho ho'
    rcases ho with ⟨ho, hne⟩ | ⟨rfl, hr⟩ <;> rcases ho' with ⟨ho', hne'⟩ | ⟨rfl, hr'⟩
    · exact hc.sole o o' r ho ho'
    · exact absurd (hc.sole _ _ r ho (hold r hr')) hne
    · exact absurd (hc.sole _ _ r ho' (hold r hr)) hne'
    · rfl
  · intro o ho
    rw [hker, holds_bury hp hh hgds] at ho
    rcases ho with ⟨ho, -⟩ | ⟨-, hr⟩
    · exact hc.kernel o ho
    · exact hc.kernel _ (hold _ hr)
  · intro i h' hh'
    rw [hlife.tasks]
    rw [Table.bury] at hh'
    split at hh'
    · obtain ⟨h1, hh1, -⟩ := map_eq_some_iff.mp hh'
      exact hc.paired i h1 hh1
    · exact hc.paired i h' hh'
  · intro i q h' hq hh'
    rw [hlife.tasks] at hq
    rw [Fit, hker, hlife.currentPid]
    rw [Table.bury] at hh'
    split at hh'
    · obtain ⟨h1, hh1, rfl⟩ := map_eq_some_iff.mp hh'
      split
      · rename_i hi
        subst hi
        cases hp.symm.trans hq
        exact .inr ⟨rfl, hrest, hcur⟩
      · exact hc.fit i q h1 hq hh1
    · exact hc.fit i q h' hq hh'
  · rw [All, hlife.tasks]
    exact hc.mortal
  · rw [hlife.tasks, hlife.currentPid]
    exact hc.present

lemma Custody.insert (hc : t.Custody) {slot : Pid} {task : Task} {holding : Holding}
    (hfree : t.tasks slot = none) (hwh : holding.Whole task.isUser t.kernelPml4)
    (hnew : ∀ r ∈ holding.resources task.isUser, r ≠ .pageTable t.kernelPml4 ∧ ¬t.Owned r)
    (hali : task.state ≠ .zombie) (htsk : t'.tasks = Function.update t.tasks slot (some task))
    (hhols : t'.holdings = Function.update t.holdings slot (some holding))
    (hdefd : t'.deferred = t.deferred) (hcur : t'.currentPid = t.currentPid)
    (hker : t'.kernelPml4 = t.kernelPml4) : t'.Custody := by
  have hhol : ∀ o r, t'.Holds o r ↔ _ := fun o r => holds_insert hfree htsk hhols hdefd
  refine ⟨?_, ?_, ?_, ?_, ?_, ?_⟩
  · intro o o' r ho ho'
    rw [hhol] at ho ho'
    rcases ho with ho | ⟨rfl, hr⟩ <;> rcases ho' with ho' | ⟨rfl, hr'⟩
    · exact hc.sole o o' r ho ho'
    · exact absurd ⟨o, ho⟩ (hnew r hr').2
    · exact absurd ⟨o', ho'⟩ (hnew r hr).2
    · rfl
  · intro o ho
    rw [hker, hhol] at ho
    rcases ho with ho | ⟨-, hr⟩
    · exact hc.kernel o ho
    · exact (hnew _ hr).1 rfl
  · intro i h hh
    rw [htsk, Function.update_apply]
    rw [hhols, Function.update_apply] at hh
    split
    · exact ⟨task, rfl⟩
    rename_i hi
    rw [if_neg hi] at hh
    exact hc.paired i h hh
  · intro i p h hp hh
    rw [htsk, Function.update_apply] at hp
    rw [hhols, Function.update_apply] at hh
    rw [Fit, hker, hcur]
    split at hp
    · rename_i hi
      rw [if_pos hi] at hh
      cases hp
      cases hh
      exact .inl hwh
    rename_i hi
    rw [if_neg hi] at hh
    exact hc.fit i p h hp hh
  · intro i p hp hzom
    rw [htsk, Function.update_apply] at hp
    split at hp
    · cases hp
      exact absurd hzom hali
    · exact hc.mortal i p hp hzom
  intro i hi hidle
  rw [hcur] at hi
  rw [htsk, Function.update_apply]
  split
  · rintro ⟨⟩
  · exact hc.present i hi hidle

lemma Custody.erase (hc : t.Custody) {slot : Pid} (hslot : t.currentPid ≠ some slot)
    (htsk : t'.tasks = Function.update t.tasks slot none)
    (hhols : t'.holdings = Function.update t.holdings slot none)
    (hdefd : t'.deferred = t.deferred) (hcur : t'.currentPid = t.currentPid)
    (hker : t'.kernelPml4 = t.kernelPml4) : t'.Custody := by
  have hhol : ∀ o r, t'.Holds o r ↔ _ := fun o r => holds_erase htsk hhols hdefd
  have hne : ∀ i (h : Holding), t'.holdings i = some h → i ≠ slot ∧ t.holdings i = some h := by
    intro i h hh
    rw [hhols, Function.update_apply] at hh
    split at hh
    · cases hh
    · rename_i hi
      exact ⟨hi, hh⟩
  have htask : ∀ i, i ≠ slot → t'.tasks i = t.tasks i := by
    intro i hi
    rw [htsk, Function.update_of_ne hi]
  refine ⟨?_, ?_, ?_, ?_, ?_, ?_⟩
  · intro o o' r ho ho'
    exact hc.sole o o' r ((hhol o r).mp ho).1 ((hhol o' r).mp ho').1
  · intro o ho
    rw [hker] at ho
    exact hc.kernel o ((hhol o _).mp ho).1
  · intro i h hh
    obtain ⟨hi, hh⟩ := hne i h hh
    rw [htask i hi]
    exact hc.paired i h hh
  · intro i p h hp hh
    obtain ⟨hi, hh⟩ := hne i h hh
    rw [htask i hi] at hp
    rw [Fit, hker, hcur]
    exact hc.fit i p h hp hh
  · intro i p hp hzom
    rw [htsk, Function.update_apply] at hp
    split at hp
    · cases hp
    · exact hc.mortal i p hp hzom
  intro i hi hidle
  rw [hcur] at hi
  rw [htask i fun heq => hslot (heq ▸ hi)]
  exact hc.present i hi hidle

lemma Custody.drain (hc : t.Custody) : Custody { t with deferred := [] } := by
  refine ⟨?_, ?_, hc.paired, hc.fit, hc.mortal, hc.present⟩
  · intro o o' r ho ho'
    exact hc.sole o o' r (holds_drain.mp ho).1 (holds_drain.mp ho').1
  · intro o ho
    exact hc.kernel o (holds_drain.mp ho).1

/-! ## Parents -/

section

variable (hn : t.NotOwnParent)

include hn

lemma NotOwnParent.transfer {D : Pid → Prop} (hbred : t.Bred D t')
    (hinit : t'.initPid = t.initPid) : t'.NotOwnParent := by
  refine ⟨?_, ?_, ?_⟩
  · intro i p' hp'
    obtain ⟨p, hp, hkin⟩ := hbred.kin hp'
    rw [hkin.parentPid]
    exact hn.other i p hp
  · rw [hinit]
    refine hn.init.imp_right fun hsome => ?_
    obtain ⟨p, hp⟩ := ne_none_iff_exists'.mp hsome
    obtain ⟨p', hp'⟩ := hbred.stays hp
    rw [hp']
    rintro ⟨⟩
  rw [hinit]
  intro p' hp'
  obtain ⟨p, hp, hkin⟩ := hbred.kin hp'
  rw [hkin.parentPid]
  exact hn.none p hp

lemma NotOwnParent.kill (v : Pid) : (t.kill v).NotOwnParent := by
  have hpar : ∀ i p', (t.kill v).tasks i = some p' →
      ∃ p, t.tasks i = some p ∧ p'.parentPid = (t.adopted v p).parentPid := by
    intro i p' hp'
    obtain ⟨p, hp, rfl⟩ := exists_of_kill hp'
    refine ⟨p, hp, ?_⟩
    split <;> rfl
  refine ⟨?_, ?_, ?_⟩
  · intro i p' hp'
    obtain ⟨p, hp, heq⟩ := hpar i p' hp'
    rw [heq, adopted]
    split
    · rename_i hch
      intro hself
      have hi : t.initPid = i := Fin.ext (some.inj hself)
      rw [hn.none p (hi ▸ hp)] at hch
      cases hch
    · exact hn.other i p hp
  · refine hn.init.imp_right fun hsome => ?_
    rwa [kill_tasks, Ne, map_eq_none_iff]
  intro p' hp'
  obtain ⟨p, hp, heq⟩ := hpar _ p' hp'
  have hnone := hn.none p hp
  rw [heq, adopted_of_ne, hnone]
  rw [hnone]
  rintro ⟨⟩

lemma NotOwnParent.wake (who : Pid → Bool) : (t.wake who).NotOwnParent :=
  hn.transfer (D := fun _ => False) (bred_wake who) rfl

lemma NotOwnParent.calm (hstep : Calm Trusts t t') : t'.NotOwnParent := by
  have hother : t'.All fun i p => p.parentPid ≠ some i.val := by
    intro i p' hp'
    rcases hstep.kin hp' with ⟨p, hp, hkin⟩ | ⟨-, _, _, _, -, htrust, -⟩
    · rw [hkin.parentPid]
      exact hn.other i p hp
    · exact htrust.1
  rcases hstep.init with hsame | ⟨q, hq, hpar, -⟩
  · refine ⟨hother, ?_, ?_⟩ <;> rw [hsame]
    · refine hn.init.imp_right fun hsome => ?_
      obtain ⟨p, hp⟩ := ne_none_iff_exists'.mp hsome
      rcases hstep.stays hp with ⟨⟨p', hp', -⟩, -⟩ | ⟨-, cur, -, hpar⟩
      · rw [hp']
        rintro ⟨⟩
      · rw [hn.none p hp] at hpar
        cases hpar
    intro p' hp'
    rcases hstep.kin hp' with ⟨p, hp, hkin⟩ | ⟨hfree, _, _, _, hnew, -⟩
    · rw [hkin.parentPid]
      exact hn.none p hp
    -- a new task in the slot of init can only be the idle process
    have hidle : t.initPid = IDLE_PID := hn.init.resolve_right fun hsome => hsome hfree
    rw [hidle] at hnew
    cases hnew with
    | idle => rfl
    | kernel hne | user hne | fork hne => exact absurd rfl hne
  · refine ⟨hother, .inr ?_, fun p' hp' => some.inj (hq.symm.trans hp') ▸ hpar⟩
    rw [hq]
    rintro ⟨⟩

lemma NotOwnParent.givesUp (hstep : GivesUp Trusts t t') : t'.NotOwnParent := by
  rcases hstep.death with hbred | ⟨v, q, who, -, -, rfl⟩
  · exact hn.transfer hbred hstep.same.2
  · exact (hn.kill v).wake who

lemma NotOwnParent.switch (hstep : Switch Trusts t t') : t'.NotOwnParent := by
  obtain ⟨_, -, hbred⟩ := hstep.bred
  exact hn.transfer hbred hstep.same.2

end

/-! ## Moves -/

/-- Frames, tables and stacks keep one owner in every calm step. -/
lemma Custody.calm (hc : t.Custody) (hown : t.OnOwnTable) (hn : t.NotOwnParent)
    (hstep : Calm Trusts t t') : t'.Custody := by
  have hlive : ∀ {targets : Pid → Bool},
      (∀ i, targets i = true → i ≠ IDLE_PID ∧
        ∃ p, t.tasks i = some p ∧ p.isUser = true ∧ p.state ≠ .zombie) →
      ∀ i p, targets i = true → t.tasks i = some p → p.isUser = true ∧ ¬p.AtRest := by
    intro targets htgts i p hi hp
    obtain ⟨-, q, hq, huser, hali⟩ := htgts i hi
    cases hp.symm.trans hq
    exact ⟨huser, fun hrest => hali hrest.zombie⟩
  cases hstep with
  | wake pipes who hwho =>
    have hpip : Custody { t with pipes := pipes } := hc.congr rfl rfl rfl rfl rfl
    exact hpip.wake fun i p hi hp hrest => hrest.not_blocked (hwho i p hi hp).1
  | openPipe | bump | setInit => exact hc.congr rfl rfl rfl rfl rfl
  | foreground targets htgts =>
    apply Custody.wake
    · exact hc.mapWhere (g := Task.dead) (fun _ => rfl)
        (fun i p hi hp _ => (hlive htgts i p hi hp).1)
        fun i p hi hp _ hrest => absurd hrest (hlive htgts i p hi hp).2
    -- whoever is woken waits for a child
    intro i q hi hq hrest
    obtain ⟨p, hp, hor⟩ := exists_of_where hq
    rw [Bool.and_eq_true, decide_eq_true_iff] at hi
    obtain ⟨-, z, -, hwts⟩ := hi
    have hwhy : p.wakeReason.forChild = false := by
      rcases hor with ⟨-, rfl⟩ | ⟨-, rfl⟩ <;> exact hrest.reason
    cases hwhy.symm.trans (forChild_of_waitsFor hp hwts)
  | stop targets htgts =>
    exact hc.mapWhere (g := Task.stopped) (fun _ => rfl) (fun _ _ _ _ hzom => by cases hzom)
      fun i p hi hp _ hrest => absurd hrest (hlive htgts i p hi hp).2
  | @reap slot cur p pipes hp _ hcur hpar =>
    have hoth : t.currentPid ≠ some slot := by
      intro hself
      -- a process that reaped itself would be its own parent
      obtain rfl := some.inj (hcur.symm.trans hself)
      exact hn.other cur p hp hpar
    exact hc.erase hoth rfl rfl rfl rfl rfl
  | create hfree hnew htrust =>
    refine hc.insert hfree htrust.2.1 htrust.2.2 ?_ rfl rfl rfl rfl rfl
    cases hnew <;> rintro ⟨⟩
  | exec _ _ _ _ hexec => exact hexec.elim
  | drain => exact hc.drain
  | save => exact hc.save hown
  | load => exact hc.load
  | lose =>
    refine ⟨hc.sole, hc.kernel, hc.paired, fun i p h hp hh => ?_, hc.mortal, fun i hi => ?_⟩
    · exact (hc.fit i p h hp hh).imp_right fun hgone => ⟨hgone.1, hgone.2.1, by rintro ⟨⟩⟩
    · cases hi

lemma OnOwnTable.calm (hown : t.OnOwnTable) (hc : t.Custody) (hstep : Calm Trusts t t') :
    t'.OnOwnTable := by
  cases hstep with
  | wake | openPipe | bump | setInit | foreground | stop | drain => exact hown
  | reap =>
    intro i h hi hh
    change Function.update t.holdings _ none i = some h at hh
    rw [Function.update_apply] at hh
    split at hh
    · cases hh
    · exact hown i h hi hh
  | @create origin slot task holding _ hfree hnew =>
    intro i h hi hh
    change Function.update t.holdings slot (some holding) i = some h at hh
    rw [Function.update_apply] at hh
    split at hh
    · -- the current slot can only be empty if there is no idle process yet
      rename_i hslot
      subst hslot
      cases hh
      have hidle : i = IDLE_PID := by
        by_contra hne
        exact hc.present i hi hne hfree
      cases hnew with
      | idle => rfl
      | kernel hne | user hne | fork hne => exact absurd hidle hne
    · exact hown i h hi hh
  | exec _ _ _ _ hexec => exact hexec.elim
  | save => exact hown.save
  | load => exact hc.onOwnTable_load
  | lose =>
    intro i h hi
    cases hi

/-- If the current process is dead, no wake-up is meant for it. -/
def Settled (t : Table) : Prop :=
  ∀ i p, t.currentPid = some i → t.tasks i = some p → p.state = .zombie →
    p.wakeReason.forChild = false

lemma Custody.givesUp (hc : t.Custody) (hstep : GivesUp Trusts t t') : t'.Custody := by
  cases hstep with
  | nothing => exact hc
  | block hcur =>
    refine hc.update _ (fun _ => rfl) (fun _ _ hzom => ?_) (.inl (current_eq_some.mp hcur).1)
    cases hzom
  | exit hcur huser =>
    refine (hc.kill hcur huser).wake fun i p hi hp hrest => ?_
    simp only [isBlocked, hp, Bool.and_eq_true, beq_iff_eq] at hi
    exact hrest.not_blocked hi.1.2
  | fault hcur huser => exact hc.kill hcur huser

lemma OnOwnTable.givesUp (hown : t.OnOwnTable) (hstep : GivesUp Trusts t t') : t'.OnOwnTable := by
  cases hstep <;> exact hown

lemma CurrentAwake.settled_givesUp (hawk : t.CurrentAwake) (hstep : GivesUp Trusts t t') :
    t'.Settled := by
  have hkill : ∀ v, (t.kill v).Settled := by
    intro v i p' hi hp' _
    obtain ⟨p, hp, rfl⟩ := exists_of_kill hp'
    have hnone := hawk i p hi hp
    split
    · rw [Task.dead, adopted_wakeReason, hnone]
      rfl
    · rw [adopted_wakeReason, hnone]
      rfl
  cases hstep with
  | nothing =>
    intro i p hi hp _
    rw [hawk i p hi hp]
    rfl
  | block hcur =>
    intro i q hi hq hzom
    obtain ⟨p, -, ⟨hne, rfl⟩ | ⟨-, rfl⟩⟩ := exists_of_where hq
    · exact absurd (some.inj (hi.symm.trans (current_eq_some.mp hcur).1)) hne
    · cases hzom
  | exit =>
    intro i q hi hq hzom
    obtain ⟨p, hp, ⟨-, rfl⟩ | ⟨-, rfl⟩⟩ := exists_of_where hq
    · exact hkill _ i q hi hp hzom
    · rfl
  | fault => exact hkill _

lemma Custody.signalled (hc : t.Custody) (hstep : Signalled Trusts t t') : t'.Custody := by
  -- the signal goes to the process that has the CPU
  have hupd : ∀ {v : Pid} {p : Task} (g : Task → Task), (∀ p, (g p).isUser = p.isUser) →
      t.current = some (v, p) → p.isUser = true → (t.update v g).Custody := by
    intro v p g hg hcur huser
    obtain ⟨hpid, hp⟩ := current_eq_some.mp hcur
    refine hc.update g hg (fun q hq _ => ?_) (.inl hpid)
    exact some.inj (hp.symm.trans hq) ▸ huser
  cases hstep with
  | nothing => exact hc
  | killed hcur huser => exact (hupd Task.dead (fun _ => rfl) hcur huser).wakeParent
  | badStack hcur huser => exact hupd Task.dead (fun _ => rfl) hcur huser
  | stopped hcur huser => exact (hupd Task.stopped (fun _ => rfl) hcur huser).wakeParent
  | ignored => exact hc.wakeParent

lemma wakeParent_atRest {q : Task} (hp : t.tasks i = some p) (hrest : p.AtRest) :
    (t.wakeParent v q).tasks i = some p := by
  change (t.tasks i).map _ = some p
  rw [hp, map_some]
  beta_reduce
  rw [if_neg]
  simp only [hp, Bool.and_eq_true, beq_iff_eq]
  rintro ⟨-, -, hwts⟩
  have hwhy := hrest.reason
  rw [hwts] at hwhy
  cases hwhy

lemma signalled_atRest (hstep : Signalled Trusts t t') (hcur : t.currentPid ≠ some i)
    (hp : t.tasks i = some p) (hrest : p.AtRest) : t'.tasks i = some p := by
  have hoth : ∀ {v : Pid} {q : Task} (g : Task → Task), t.current = some (v, q) →
      (t.update v g).tasks i = some p := by
    intro v q g hv
    rw [update_tasks, if_neg, hp]
    rintro rfl
    exact hcur (current_eq_some.mp hv).1
  cases hstep with
  | nothing => exact hp
  | killed hv => exact wakeParent_atRest (hoth Task.dead hv) hrest
  | badStack hv => exact hoth Task.dead hv
  | stopped hv => exact wakeParent_atRest (hoth Task.stopped hv) hrest
  | ignored => exact wakeParent_atRest hp hrest

lemma signalled_currentPid (hstep : Signalled Trusts t t') : t'.currentPid = t.currentPid := by
  cases hstep <;> rfl

lemma OnOwnTable.bury (hown : t.OnOwnTable) (hcur : t.currentPid ≠ some v) {isUser : Bool} :
    (t.bury v isUser h).OnOwnTable := by
  intro i h' hi hh'
  rw [(t.sameLife_bury v isUser h).currentPid] at hi
  rw [Table.bury] at hh' ⊢
  split at hh'
  · rename_i hgds
    obtain ⟨h0, hh0, rfl⟩ := map_eq_some_iff.mp hh'
    have hne : i ≠ v := by
      rintro rfl
      exact hcur hi
    rw [if_pos hgds, if_neg hne]
    exact hown i h0 hi hh0
  rename_i hgds
  rw [if_neg hgds]
  exact hown i h' hi hh'

lemma suspend_of_zombie (hp : t.tasks i = some p) (hzom : p.state = .zombie) :
    t.suspend.tasks i = some p := by
  rw [Table.suspend, mapTasks_tasks, hp, map_some, if_neg]
  rintro ⟨-, hrun⟩
  rw [hzom] at hrun
  cases hrun

lemma Sound.not_atRest (hsnd : t.Sound) (hnext : t.CanRun i) (hp : t.tasks i = some p) :
    ¬p.AtRest := by
  intro hrest
  rcases hnext with ⟨q, hq, hrdy⟩ | rfl
  · cases hp.symm.trans hq
    rw [hrest.zombie] at hrdy
    cases hrdy
  · exact (hsnd _ p hp).ne_idle hrest.user rfl

/-- The dead are buried on the way to the next process. -/
lemma Custody.switch (hsnd : t.Sound) (hc : t.Custody) (hown : t.OnOwnTable)
    (hsettled : t.Settled) (hstep : Switch Trusts t t') : t'.Custody ∧ t'.OnOwnTable := by
  obtain ⟨next, hsave, hnext, hsig, hload, hbury⟩ := hstep
  rename_i t0 t1 t2
  obtain ⟨h0, hlife⟩ : t0.Custody ∧ t.SameLife t0 := by
    rcases hsave with rfl | rfl
    · exact ⟨hc, rfl, rfl, rfl, rfl, rfl⟩
    · exact ⟨hc.save hown, t.sameLife_save⟩
  have hsuspended : t0.suspend.Sound := Sound.suspend (All.sameLife hsnd hlife)
  have hrun : (t0.suspend.run next).Custody :=
    h0.suspend.run hnext fun p hp => hsuspended.not_atRest hnext hp
  have h1 : t1.Custody := hrun.signalled hsig
  have h2 : t2.Custody ∧ t2.OnOwnTable ∧ t1.SameLife t2 := by
    rcases hload with rfl | ⟨-, rfl⟩
    · exact ⟨h1.load, h1.onOwnTable_load, t1.sameLife_load⟩
    · exact ⟨h1.loadFirst, onOwnTable_loadFirst t1, t1.sameLife_loadFirst⟩
  rcases hbury with rfl | ⟨v, p, h, hcur, hzom, hh, rfl⟩
  · exact ⟨h2.1, h2.2.1⟩
  obtain ⟨hpid, hp⟩ := current_eq_some.mp hcur
  have hrest : p.AtRest := ⟨hc.mortal v p hp hzom, hzom, hsettled v p hpid hp hzom⟩
  have hpsuspend : t0.suspend.tasks v = some p := suspend_of_zombie (hlife.tasks ▸ hp) hzom
  have hne : next ≠ v := by
    rintro rfl
    exact hsuspended.not_atRest hnext hpsuspend hrest
  -- it is still a zombie at rest when it is buried, and another process has the CPU
  have hp1 : t1.tasks v = some p := by
    refine signalled_atRest hsig (fun hself => hne (some.inj hself)) ?_ hrest
    change (t0.suspend.update next _).tasks v = some p
    rw [update_tasks, if_neg hne.symm, hpsuspend]
  have hp2 : t2.tasks v = some p := h2.2.2.tasks ▸ hp1
  have hcur2 : t2.currentPid ≠ some v := by
    rw [h2.2.2.currentPid, signalled_currentPid hsig]
    exact fun hself => hne (some.inj hself)
  obtain ⟨h', hh', hgds⟩ := (sameGoods_switch hsave hsig hload).exists_holding hh
  exact ⟨h2.1.bury hp2 hrest hcur2 hh' hgds, h2.2.1.bury hcur2⟩

end Table

end Indominus.Sys
