import Indominus.Sched.Invariants
import Indominus.Sys.Release

/-! # Who owns the stacks and the page tables -/

namespace Indominus.Sys

open Memory

inductive Owner
  | slot (i : Pid)
  | entry (n : Nat)

def Holding.resources (h : Holding) (isUser : Bool) : List Resource :=
  Sys.resources isUser h.kernelStackBase h.pml4Phys

def Holding.goods (h : Holding) : Nat × Nat := (h.kernelStackBase, h.pml4Phys)

namespace Table

variable {H : Permits} {t t1 t' : Table} {i v : Pid} {o : Owner} {r : Resource}
  {p : Task} {h : Holding} {f : Pid → Task → Task}

def Holds (t : Table) : Owner → Resource → Prop
  | .slot i, r => ∃ p h, t.tasks i = some p ∧ t.holdings i = some h ∧ r ∈ h.resources p.isUser
  | .entry n, r => ∃ d, t.deferred[n]? = some d ∧ r ∈ d.resources

def Owned (t : Table) (r : Resource) : Prop := ∃ o, t.Holds o r

/-! ## Changes that leave everything where it is -/

/-- The second table has the same stacks and page tables in the same places. -/
structure SameGoods (t t' : Table) : Prop where
  users : ∀ i, (t'.tasks i).map Task.isUser = (t.tasks i).map Task.isUser
  holdings : ∀ i, (t'.holdings i).map Holding.goods = (t.holdings i).map Holding.goods
  deferred : t'.deferred = t.deferred

lemma SameGoods.refl (t : Table) : t.SameGoods t := ⟨fun _ => rfl, fun _ => rfl, rfl⟩

lemma SameGoods.trans (h : t.SameGoods t1) (h' : t1.SameGoods t') : t.SameGoods t' :=
  ⟨fun i => (h'.users i).trans (h.users i), fun i => (h'.holdings i).trans (h.holdings i),
    h'.deferred.trans h.deferred⟩

lemma holds_slot_iff : t.Holds (.slot i) r ↔ ∃ u g, (t.tasks i).map Task.isUser = some u ∧
    (t.holdings i).map Holding.goods = some g ∧ r ∈ Sys.resources u g.1 g.2 := by
  constructor
  · rintro ⟨p, h, hp, hh, hr⟩
    exact ⟨p.isUser, h.goods, by rw [hp]; rfl, by rw [hh]; rfl, hr⟩
  rintro ⟨u, g, hu, hg, hr⟩
  obtain ⟨p, hp, rfl⟩ := Option.map_eq_some_iff.mp hu
  obtain ⟨h, hh, rfl⟩ := Option.map_eq_some_iff.mp hg
  exact ⟨p, h, hp, hh, hr⟩

lemma SameGoods.holds (h : t.SameGoods t') : t'.Holds o r ↔ t.Holds o r := by
  cases o with
  | slot i => rw [holds_slot_iff, holds_slot_iff, h.users, h.holdings]
  | entry n => rw [Holds, Holds, h.deferred]

lemma sameGoods_mapTasks (hf : ∀ i p, (f i p).isUser = p.isUser) : t.SameGoods (t.mapTasks f) := by
  refine ⟨fun i => ?_, fun _ => rfl, rfl⟩
  rw [mapTasks_tasks, Option.map_map]
  exact congrFun (congrArg Option.map (funext fun p => hf i p)) _

lemma sameGoods_update {g : Task → Task} (hg : ∀ p, (g p).isUser = p.isUser) :
    t.SameGoods (t.update v g) := by
  refine sameGoods_mapTasks fun i p => ?_
  split
  · exact hg p
  · rfl

lemma sameGoods_wake (who : Pid → Bool) : t.SameGoods (t.wake who) := by
  refine sameGoods_mapTasks fun i p => ?_
  split <;> rfl

lemma sameGoods_kill (v : Pid) : t.SameGoods (t.kill v) := by
  have hadopt : t.SameGoods (t.adopt v) := sameGoods_mapTasks fun _ p => adopted_isUser v p
  exact hadopt.trans (sameGoods_update fun _ => rfl)

lemma sameGoods_suspend : t.SameGoods t.suspend := by
  refine sameGoods_mapTasks fun i p => ?_
  split <;> rfl

lemma sameGoods_run (next : Pid) : t.SameGoods (t.run next) := by
  have h : t.SameGoods (t.update next fun p => { p with state := .running }) :=
    sameGoods_update fun _ => rfl
  exact ⟨h.users, h.holdings, h.deferred⟩

lemma sameGoods_save : t.SameGoods t.save := by
  refine ⟨fun _ => rfl, fun i => ?_, rfl⟩
  rw [save, Option.map_map]
  refine congrFun (congrArg Option.map (funext fun h => ?_)) _
  split <;> rfl

lemma sameGoods_load : t.SameGoods t.load := by
  rw [load]
  split <;> exact ⟨fun _ => rfl, fun _ => rfl, rfl⟩

lemma sameGoods_loadFirst : t.SameGoods t.loadFirst := by
  rw [loadFirst]
  split <;> exact ⟨fun _ => rfl, fun _ => rfl, rfl⟩

/-! ## Changes of owners -/

lemma holds_insert {slot : Pid} {task : Task} {holding : Holding} (hfree : t.tasks slot = none)
    (htsk : t'.tasks = Function.update t.tasks slot (some task))
    (hhols : t'.holdings = Function.update t.holdings slot (some holding))
    (hdefd : t'.deferred = t.deferred) :
    t'.Holds o r ↔ t.Holds o r ∨ o = .slot slot ∧ r ∈ holding.resources task.isUser := by
  cases o with
  | slot i =>
    by_cases hi : i = slot
    · subst hi
      simp [Holds, htsk, hhols, hfree]
    · simp [Holds, htsk, hhols, hi]
  | entry n => simp [Holds, hdefd]

lemma holds_erase {slot : Pid} (htsk : t'.tasks = Function.update t.tasks slot none)
    (hhols : t'.holdings = Function.update t.holdings slot none)
    (hdefd : t'.deferred = t.deferred) : t'.Holds o r ↔ t.Holds o r ∧ o ≠ .slot slot := by
  cases o with
  | slot i =>
    by_cases hi : i = slot
    · subst hi
      simp [Holds, htsk]
    · simp [Holds, htsk, hhols, hi]
  | entry n => simp [Holds, hdefd]

lemma holds_drain : Holds { t with deferred := [] } o r ↔ t.Holds o r ∧ ∃ i, o = .slot i := by
  cases o with
  | slot i => simp [Holds]
  | entry n => simp [Holds]

lemma holds_bury (hp : t.tasks v = some p) {h0 : Holding} (hh : t.holdings v = some h)
    (hgds : h.goods = h0.goods) : (t.bury v p.isUser h0).Holds o r ↔ t.Holds o r ∧ o ≠ .slot v ∨
      o = .entry t.deferred.length ∧ r ∈ h0.resources p.isUser := by
  obtain ⟨hstk, htab⟩ := Prod.mk.inj hgds
  rw [bury]
  split
  · cases o with
    | slot i =>
      by_cases hi : i = v
      · subst hi
        simp [Holds, hp, hh, Holding.resources, Sys.resources]
      · cases hq : t.holdings i <;> simp [Holds, hi, hq]
    | entry n =>
      simp only [Holds, List.getElem?_append, List.getElem?_singleton]
      rcases Nat.lt_trichotomy n t.deferred.length with hn | rfl | hn
      · simp [hn, hn.ne]
      · simp [Deferred.resources, Holding.resources]
      have hout : ¬n < t.deferred.length := hn.not_gt
      have hzero : n - t.deferred.length ≠ 0 := (Nat.sub_pos_of_lt hn).ne'
      simp [hout, hzero, hn.ne']
  -- nothing is owned, so nothing moves
  rename_i hnone
  rw [not_or] at hnone
  have hemp : h0.resources p.isUser = [] := by
    simp [Holding.resources, Sys.resources, hnone.1, hnone.2]
  have hnot : ¬t.Holds (.slot v) r := by
    rintro ⟨p', h', hp', hh', hr⟩
    cases hp.symm.trans hp'
    cases hh.symm.trans hh'
    rw [Holding.resources, hstk, htab] at hr
    rw [Holding.resources] at hemp
    rw [hemp] at hr
    cases hr
  rw [hemp]
  refine ⟨fun ho => .inl ⟨ho, ?_⟩, fun ho => ?_⟩
  · rintro rfl
    exact hnot ho
  rcases ho with ⟨ho, -⟩ | ⟨-, hr⟩
  · exact ho
  · cases hr

end Table

open Table

variable {H : Permits} {t t' : Table}

inductive Goods (H : Permits) (t t' : Table) : Prop
  | same (hsame : t.SameGoods t')
  | give {origin : Origin} {slot : Pid} {task : Task} {holding : Holding}
      (hperm : H t (.create origin slot task holding))
      (hholds : ∀ o r, t'.Holds o r ↔
        t.Holds o r ∨ o = .slot slot ∧ r ∈ holding.resources task.isUser)
  | take {slot : Pid} {pipes : PipeViews} (hperm : H t (.reap slot pipes))
      (hholds : ∀ o r, t'.Holds o r ↔ t.Holds o r ∧ o ≠ .slot slot)
  | drain (hperm : H t .drain) (hholds : ∀ o r, t'.Holds o r ↔ t.Holds o r ∧ ∃ i, o = .slot i)
  | exec (hperm : H t .exec)

lemma Calm.goods (hstep : Calm H t t') : Goods H t t' := by
  cases hstep with
  | wake pipes who =>
    have hwake := sameGoods_wake (t := { t with pipes := pipes }) who
    exact .same ⟨hwake.users, hwake.holdings, hwake.deferred⟩
  | openPipe | bump | setInit | lose => exact .same ⟨fun _ => rfl, fun _ => rfl, rfl⟩
  | foreground targets =>
    refine .same (SameGoods.trans (sameGoods_mapTasks fun i p => ?_) (sameGoods_wake _))
    split <;> rfl
  | stop targets =>
    refine .same (sameGoods_mapTasks fun i p => ?_)
    split <;> rfl
  | reap pipes _ _ _ _ h => exact .take h fun _ _ => holds_erase rfl rfl rfl
  | create hfree _ h => exact .give h fun _ _ => holds_insert hfree rfl rfl rfl
  | exec _ _ _ _ h => exact .exec h
  | drain h => exact .drain h fun _ _ => holds_drain
  | save => exact .same sameGoods_save
  | load => exact .same sameGoods_load

lemma GivesUp.goods (hstep : GivesUp H t t') : t.SameGoods t' := by
  cases hstep with
  | nothing => exact .refl t
  | block => exact sameGoods_update fun _ => rfl
  | exit => exact (sameGoods_kill _).trans (sameGoods_wake _)
  | fault => exact sameGoods_kill _

lemma Signalled.goods (hstep : Signalled H t t') : t.SameGoods t' := by
  cases hstep with
  | nothing => exact .refl t
  | killed => exact (sameGoods_update (g := Task.dead) fun _ => rfl).trans (sameGoods_wake _)
  | badStack => exact sameGoods_update fun _ => rfl
  | stopped => exact (sameGoods_update (g := Task.stopped) fun _ => rfl).trans (sameGoods_wake _)
  | ignored => exact sameGoods_wake _

lemma sameGoods_switch {t0 t1 t2 : Table} {next : Pid} (hsave : t0 = t ∨ t0 = t.save)
    (hsig : Signalled H (t0.suspend.run next) t1)
    (hload : t2 = t1.load ∨ t.currentPid = none ∧ t2 = t1.loadFirst) : t.SameGoods t2 := by
  have h0 : t.SameGoods t0 := by
    rcases hsave with rfl | rfl
    · exact .refl t0
    · exact sameGoods_save
  have h1 : t.SameGoods t1 :=
    ((h0.trans sameGoods_suspend).trans (sameGoods_run next)).trans hsig.goods
  rcases hload with rfl | ⟨-, rfl⟩
  · exact h1.trans sameGoods_load
  · exact h1.trans sameGoods_loadFirst

lemma Table.SameGoods.exists_holding (hsame : t.SameGoods t') {i : Pid} {h : Holding}
    (hh : t.holdings i = some h) : ∃ h', t'.holdings i = some h' ∧ h'.goods = h.goods :=
  Option.map_eq_some_iff.mp ((hsame.holdings i).trans (congrArg _ hh))

lemma Switch.goods (hstep : Switch H t t') : t.SameGoods t' ∨
    ∃ v p h, t.current = some (v, p) ∧ p.state = .zombie ∧ t.holdings v = some h ∧ ∀ o r,
      t'.Holds o r ↔ t.Holds o r ∧ o ≠ .slot v ∨
        o = .entry t.deferred.length ∧ r ∈ h.resources p.isUser := by
  obtain ⟨next, hsave, -, hsig, hload, hbury⟩ := hstep
  have hsame := sameGoods_switch hsave hsig hload
  rcases hbury with rfl | ⟨v, p, h, hcur, hzom, hh, rfl⟩
  · exact .inl hsame
  refine .inr ⟨v, p, h, hcur, hzom, hh, fun o r => ?_⟩
  have hp : t.tasks v = some p := (Table.current_eq_some.mp hcur).2
  obtain ⟨p2, hp2, huser⟩ := Option.map_eq_some_iff.mp ((hsame.users v).trans (congrArg _ hp))
  obtain ⟨h2, hh2, hgds⟩ := hsame.exists_holding hh
  rw [← huser, holds_bury hp2 hh2 hgds, hsame.holds, hsame.deferred]

end Indominus.Sys
