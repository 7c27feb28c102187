import Indominus.Sched.Family

/-!
# Parents and the reuse of process numbers

A process records the generation of its parent.  The child of a fork has generation 0, whatever its
slot says. A lineage beside the kernel says who the parent really is.
-/

namespace Indominus.Sys

open Memory Option Function

structure Lineage where
  now : Nat
  birth : Pid → Nat
  parent : Pid → Option Nat
  adopted : Pid → Bool

namespace Lineage

def start : Lineage where
  now := 0
  birth _ := 0
  parent _ := none
  adopted _ := false

/-- The birth of the process that the event makes the parent of a new process. -/
def creator (l : Lineage) (k : Kernel) : Event → Option Nat
  | .spawnUser _ (some n) _ =>
    (pidSlot n).bind fun slot => if (k.procs slot).isSome then some (l.birth slot) else none
  | .syscall _ _ (.fork _ _) => k.currentPid.map l.birth
  | _ => none

/-- Does the running process die in the event and leave its children to init? -/
def leaves (k : Kernel) : Event → Bool
  | .syscall _ _ (.exit _) => true
  | ev => k.faults ev

/-- The lineage after an event.  Whoever appears in an empty slot has been born in this event. -/
def after (l : Lineage) (k : Kernel) (ev : Event) : Lineage where
  now := l.now + 1
  birth i := if (k.procs i).isNone then l.now else l.birth i
  parent i := if (k.procs i).isNone then l.creator k ev else l.parent i
  adopted i :=
    match k.procs i with
    | none => false
    | some q => l.adopted i ||
        leaves k ev && q.parentPid.isSome && q.parentPid == k.currentPid.map fun v => v.val

variable {l : Lineage} {k : Kernel} {ev : Event} {i : Pid} {p : Process}

lemma after_birth (hp : k.procs i = some p) : (l.after k ev).birth i = l.birth i := by
  simp [after, hp]

lemma after_birth_free (hfree : k.procs i = none) : (l.after k ev).birth i = l.now := by
  simp [after, hfree]

lemma after_parent (hp : k.procs i = some p) : (l.after k ev).parent i = l.parent i := by
  simp [after, hp]

lemma after_parent_free (hfree : k.procs i = none) : (l.after k ev).parent i = l.creator k ev := by
  simp [after, hfree]

lemma adopted_of_after (hp : k.procs i = some p) (h : (l.after k ev).adopted i = false) :
    l.adopted i = false := by
  simp only [after, hp, Bool.or_eq_false_iff] at h
  exact h.1

lemma after_adopted {v : Pid} (hp : k.procs i = some p) (hleaves : leaves k ev = true)
    (hcur : k.currentPid = some v) (hpar : p.parentPid = some v.val) :
    (l.after k ev).adopted i = true := by
  simp [after, hp, hleaves, hcur, hpar]

end Lineage

/-! ## The invariant -/

/-- The table says the same about parents as the lineage. -/
structure Table.Follows (t : Table) (l : Lineage) : Prop where
  generation : ∀ i p, t.tasks i = some p → i ≠ IDLE_PID → p.generation = t.generations i
  born : ∀ i p, t.tasks i = some p → l.birth i < l.now
  distinct : ∀ i j p q, t.tasks i = some p → t.tasks j = some q → l.birth i = l.birth j → i = j
  past : ∀ i p b, t.tasks i = some p → l.parent i = some b → b < l.now
  link : ∀ c w q p, t.tasks c = some q → t.tasks w = some p → l.adopted c = false →
    (q.IsChild w (t.generations w) ↔ l.parent c = some (l.birth w))
  bound : ∀ c w q, t.tasks c = some q → l.adopted c = false → q.parentPid = some w.val →
    w ≠ IDLE_PID ∧ q.parentGeneration ≤ t.generations w

namespace Table

variable {t t' : Table} {l : Lineage}

lemma Follows.transfer (h : t.Follows l)
    (hkin : ∀ i p', t'.tasks i = some p' → ∃ p, t.tasks i = some p ∧
      p'.generation = p.generation ∧ (l.adopted i = false → p.Kin p'))
    (hgens : t'.generations = t.generations) : t'.Follows l where
  generation i p' hp' hi := by
    obtain ⟨p, hp, hgen, -⟩ := hkin i p' hp'
    rw [hgen, hgens]
    exact h.generation i p hp hi
  born i p' hp' := by
    obtain ⟨p, hp, -⟩ := hkin i p' hp'
    exact h.born i p hp
  distinct i j p' q' hp' hq' := by
    obtain ⟨p, hp, -⟩ := hkin i p' hp'
    obtain ⟨q, hq, -⟩ := hkin j q' hq'
    exact h.distinct i j p q hp hq
  past i p' b hp' := by
    obtain ⟨p, hp, -⟩ := hkin i p' hp'
    exact h.past i p b hp
  link c w q' p' hq' hp' had := by
    obtain ⟨q, hq, -, hk⟩ := hkin c q' hq'
    obtain ⟨p, hp, -⟩ := hkin w p' hp'
    rw [(hk had).isChild, hgens]
    exact h.link c w q p hq hp had
  bound c w q' hq' had := by
    obtain ⟨q, hq, -, hk⟩ := hkin c q' hq'
    rw [(hk had).parentPid, (hk had).parentGeneration, hgens]
    exact h.bound c w q hq had

lemma Follows.of_kin (h : t.Follows l)
    (hkin : ∀ i p', t'.tasks i = some p' → ∃ p, t.tasks i = some p ∧ p.Kin p')
    (hgens : t'.generations = t.generations) : t'.Follows l := by
  refine h.transfer (fun i p' hp' => ?_) hgens
  obtain ⟨p, hp, hk⟩ := hkin i p' hp'
  exact ⟨p, hp, hk.generation, fun _ => hk⟩

variable {slot : Pid}

lemma Follows.bump (h : t.Follows l) (hfree : t.tasks slot = none)
    (hwrap : t.generations slot + 1 < 2 ^ 32) (htsk : t'.tasks = t.tasks)
    (hgens : t'.generations = t.bumped slot) : t'.Follows l := by
  have hsame : ∀ i p, t'.tasks i = some p → t'.generations i = t.generations i := by
    intro i p hp
    rw [hgens, bumped, update_of_ne]
    rintro rfl
    rw [htsk, hfree] at hp
    cases hp
  have hle : ∀ i, t.generations i ≤ t'.generations i := by
    intro i
    rw [hgens, bumped, update_apply]
    split
    · rename_i hi
      rw [hi, Nat.mod_eq_of_lt hwrap]
      exact Nat.le_succ _
    · exact le_rfl
  refine ⟨fun i p hp hi => ?_, fun i p hp => h.born i p (htsk ▸ hp), fun i j p q hp hq =>
    h.distinct i j p q (htsk ▸ hp) (htsk ▸ hq), fun i p b hp => h.past i p b (htsk ▸ hp),
    fun c w q p hq hp had => ?_, fun c w q hq had hpar => ?_⟩
  · rw [hsame i p hp]
    exact h.generation i p (htsk ▸ hp) hi
  · rw [hsame w p hp]
    exact h.link c w q p (htsk ▸ hq) (htsk ▸ hp) had
  · obtain ⟨hidle, hbnd⟩ := h.bound c w q (htsk ▸ hq) had hpar
    exact ⟨hidle, hbnd.trans (hle w)⟩

/-- The parent on record of a new task is the one that the lineage names. -/
structure Descends (t t' : Table) (l : Lineage) (slot : Pid) (task : Task) : Prop where
  past : ∀ b, l.parent slot = some b → b < l.birth slot
  link : ∀ w p, t.tasks w = some p →
    (task.IsChild w (t.generations w) ↔ l.parent slot = some (l.birth w))
  not_self : ¬task.IsChild slot (t'.generations slot)
  bound : ∀ w, task.parentPid = some w.val →
    w ≠ IDLE_PID ∧ task.parentGeneration ≤ t'.generations w

/-- The generations when a task has come to an empty slot. -/
structure Counts (t t' : Table) (l : Lineage) (slot : Pid) (task : Task) : Prop where
  generation : slot ≠ IDLE_PID → task.generation = t'.generations slot
  others : ∀ i, i ≠ slot → t'.generations i = t.generations i
  le : t.generations slot ≤ t'.generations slot
  childless : ∀ c q, t.tasks c = some q → l.adopted c = false →
    ¬q.IsChild slot (t'.generations slot)

/-- What has to be known of a new task in an empty slot and of its place in the lineage. -/
structure Newborn (t t' : Table) (l : Lineage) (slot : Pid) (task : Task) : Prop
    extends Descends t t' l slot task, Counts t t' l slot task where
  now : l.birth slot < l.now
  adopted : l.adopted slot = false
  older : ∀ i p, t.tasks i = some p → l.birth i < l.birth slot ∧
    ∀ b, l.parent i = some b → b < l.birth slot

lemma Follows.insert (h : t.Follows l) {task : Task} (hnew : Newborn t t' l slot task)
    (htsk : t'.tasks = Function.update t.tasks slot (some task)) : t'.Follows l := by
  -- a task is the new one or an old one in another slot
  have hcas : ∀ i p, t'.tasks i = some p → i = slot ∧ p = task ∨ i ≠ slot ∧ t.tasks i = some p := by
    intro i p hp
    rw [htsk, update_apply] at hp
    split at hp
    · exact .inl ⟨‹_›, (some.inj hp).symm⟩
    · exact .inr ⟨‹_›, hp⟩
  constructor
  case generation =>
    intro i p hp hi
    rcases hcas i p hp with ⟨rfl, rfl⟩ | ⟨hne, hp⟩
    · exact hnew.generation hi
    · rw [hnew.others i hne]
      exact h.generation i p hp hi
  case born =>
    intro i p hp
    rcases hcas i p hp with ⟨rfl, -⟩ | ⟨-, hp⟩
    · exact hnew.now
    · exact h.born i p hp
  case distinct =>
    intro i j p q hp hq hbirth
    rcases hcas i p hp with ⟨rfl, -⟩ | ⟨-, hp⟩ <;> rcases hcas j q hq with ⟨rfl, -⟩ | ⟨-, hq⟩
    · rfl
    · exact absurd hbirth (hnew.older j q hq).1.ne'
    · exact absurd hbirth (hnew.older i p hp).1.ne
    · exact h.distinct i j p q hp hq hbirth
  case past =>
    intro i p b hp hb
    rcases hcas i p hp with ⟨rfl, -⟩ | ⟨-, hp⟩
    · exact (hnew.past b hb).trans hnew.now
    · exact h.past i p b hp hb
  case link =>
    intro c w q p hq hp had
    rcases hcas c q hq with ⟨rfl, rfl⟩ | ⟨hc, hq⟩ <;> rcases hcas w p hp with ⟨rfl, -⟩ | ⟨hw, hp⟩
    · exact iff_of_false hnew.not_self fun hpar => (hnew.past _ hpar).ne rfl
    · rw [hnew.others w hw]
      exact hnew.link w p hp
    · exact iff_of_false (hnew.childless c q hq had)
        fun hpar => ((hnew.older c q hq).2 _ hpar).ne rfl
    · rw [hnew.others w hw]
      exact h.link c w q p hq hp had
  case bound =>
    intro c w q hq had hpar
    rcases hcas c q hq with ⟨rfl, rfl⟩ | ⟨hc, hq⟩
    · exact hnew.bound w hpar
    obtain ⟨hidle, hbnd⟩ := h.bound c w q hq had hpar
    refine ⟨hidle, hbnd.trans ?_⟩
    by_cases hw : w = slot
    · exact hw ▸ hnew.le
    · exact (hnew.others w hw).ge

end Table

/-! ## Runs -/

namespace Kernel

variable {M : Mapper} {k k' : Kernel} {l : Lineage} {ev : Event} {slot : Pid} {task : Task}
  {holding : Holding} {gens : Pid → Nat}

/-- A fork finds a slot with counter 0 that nobody has on record as parent; no counter wraps; idle
is given no children. -/
def FreshSlots (k : Kernel) : Event → Prop
  | .syscall _ _ (.fork _ _) => ∀ slot ∈ k.freeSlot, k.generations slot = 0 ∧
      ∀ i, ∀ q ∈ k.procs i, hasParent q slot 0 = false
  | .spawnKernel _ | .spawnInit _ _ => ∀ slot ∈ k.freeSlot, k.generations slot + 1 < 2 ^ 32
  | .spawnUser _ parent _ => parent ≠ some IDLE_PID.val ∧
      ∀ slot ∈ k.freeSlot, k.generations slot + 1 < 2 ^ 32
  | _ => True

instance (k : Kernel) (ev : Event) : Decidable (k.FreshSlots ev) := by
  induction ev using Event.casesOn with
  | syscall savedRsp frame call =>
    induction call using Syscall.casesOn <;> dsimp only [FreshSlots] <;> infer_instance
  | _ =>
    dsimp only [FreshSlots]
    infer_instance

def Traces (M : Mapper) (cond : Kernel → Event → Prop) :
    Kernel × Lineage → Kernel × Lineage → Prop :=
  Relation.ReflTransGen fun x y =>
    ∃ ev, cond x.1 ev ∧ x.1.Steps M ev y.1 ∧ y.2 = x.2.after x.1 ev

variable {cond : Kernel → Event → Prop} {x y : Kernel × Lineage} {t' t : Table} {stack : Option Nat}

lemma Traces.runs (h : Traces M cond x y) : Runs M cond x.1 y.1 := by
  induction h with
  | refl => exact .refl
  | tail _ hlast ih =>
    obtain ⟨ev, hcond, hstep, -⟩ := hlast
    exact ih.tail ⟨ev, hcond, hstep⟩

lemma follows_after (h : k.table.Follows l) : k.table.Follows (l.after k ev) := by
  have hproc : ∀ i t, k.table.tasks i = some t → ∃ p, k.procs i = some p :=
    fun i t ht => (exists_of_table_tasks ht).imp fun _ => And.left
  constructor
  case generation => exact h.generation
  case born =>
    intro i t ht
    obtain ⟨p, hp⟩ := hproc i t ht
    rw [Lineage.after_birth hp]
    exact (h.born i t ht).trans (Nat.lt_succ_self _)
  case distinct =>
    intro i j t u ht hu
    obtain ⟨p, hp⟩ := hproc i t ht
    obtain ⟨q, hq⟩ := hproc j u hu
    rw [Lineage.after_birth hp, Lineage.after_birth hq]
    exact h.distinct i j t u ht hu
  case past =>
    intro i t b ht
    obtain ⟨p, hp⟩ := hproc i t ht
    rw [Lineage.after_parent hp]
    exact fun hb => (h.past i t b ht hb).trans (Nat.lt_succ_self _)
  case link =>
    intro c w q p hq hp had
    obtain ⟨q', hq'⟩ := hproc c q hq
    obtain ⟨p', hp'⟩ := hproc w p hp
    rw [Lineage.after_parent hq', Lineage.after_birth hp']
    exact h.link c w q p hq hp (Lineage.adopted_of_after hq' had)
  case bound =>
    intro c w q hq had
    obtain ⟨q', hq'⟩ := hproc c q hq
    exact h.bound c w q hq (Lineage.adopted_of_after hq' had)

lemma descends_of_none (hpar : task.parentPid = none) (hctr : (l.after k ev).parent slot = none) :
    Table.Descends k.table t' (l.after k ev) slot task := by
  have hno : ∀ w gen, ¬task.IsChild w gen := by
    rintro w gen ⟨hw, -⟩
    rw [hpar] at hw
    cases hw
  refine ⟨fun b hb => ?_, fun w p hp => iff_of_false (hno w _) fun hb => ?_, hno slot _,
    fun w hw => ?_⟩
  · rw [hctr] at hb
    cases hb
  · rw [hctr] at hb
    cases hb
  · rw [hpar] at hw
    cases hw

lemma counts_of_spawn (h : k.table.Follows l) (hwrap : k.generations slot + 1 < 2 ^ 32)
    (hgen : task.generation = (k.generations slot + 1) % 2 ^ 32)
    (hgens : t'.generations = k.table.bumped slot) :
    Table.Counts k.table t' (l.after k ev) slot task := by
  have hslot : t'.generations slot = k.generations slot + 1 := by
    rw [hgens, Table.bumped, update_self]
    exact Nat.mod_eq_of_lt hwrap
  refine ⟨fun _ => ?_, fun i hi => ?_, ?_, fun c q hq had hch => ?_⟩
  · rw [hgen, hslot]
    exact Nat.mod_eq_of_lt hwrap
  · rw [hgens]
    exact update_of_ne hi _ _
  · rw [hslot]
    exact Nat.le_succ _
  -- the generation on record is an older one
  obtain ⟨q', hq', -⟩ := exists_of_table_tasks hq
  have hbnd := (h.bound c slot q hq (Lineage.adopted_of_after hq' had) hch.1).2
  rw [hch.2, hslot] at hbnd
  exact absurd hbnd (Nat.not_succ_le_self _)

lemma descends_of_parent {w0 : Pid} {p0 : Process} (h : k.table.Follows l)
    (hfree : k.procs slot = none) (hp0 : k.procs w0 = some p0) (hidle : w0 ≠ IDLE_PID)
    (hpar : task.parentPid = some w0.val) (hgen : task.parentGeneration = p0.generation)
    (hctr : (l.after k ev).parent slot = some (l.birth w0))
    (hoths : ∀ i, i ≠ slot → t'.generations i = k.generations i) :
    Table.Descends k.table t' (l.after k ev) slot task := by
  have hne : w0 ≠ slot := by
    rintro rfl
    rw [hp0] at hfree
    cases hfree
  have hgen0 : task.parentGeneration = k.generations w0 :=
    hgen.trans (h.generation w0 p0.task (table_tasks hp0) hidle)
  have heq : ∀ w : Pid, task.parentPid = some w.val → w = w0 := fun w hw =>
    Fin.ext (some.inj (hw.symm.trans hpar))
  refine ⟨fun b hb => ?_, fun w p hp => ?_, fun hself => hne (heq slot hself.1).symm,
    fun w hw => ?_⟩
  · rw [Lineage.after_birth_free hfree]
    cases hctr.symm.trans hb
    exact h.born w0 p0.task (table_tasks hp0)
  · obtain ⟨p', hp', -⟩ := exists_of_table_tasks hp
    rw [hctr, Lineage.after_birth hp']
    constructor
    · intro hch
      rw [heq w hch.1]
    intro hbirth
    obtain rfl := h.distinct w0 w p0.task p (table_tasks hp0) hp (some.inj hbirth)
    exact ⟨hpar, hgen0⟩
  · obtain rfl := heq w hw
    exact ⟨hidle, (hgen0.trans (hoths w hne).symm).le⟩

lemma descends_of_missing {n : Nat} (hpar : task.parentPid = some n)
    (hmis : ∀ w : Pid, w.val = n → k.procs w = none) (hidle : n ≠ IDLE_PID.val)
    (hgen : task.parentGeneration = 0) (hctr : (l.after k ev).parent slot = none)
    (hpos : 0 < t'.generations slot) : Table.Descends k.table t' (l.after k ev) slot task := by
  have heq : ∀ w : Pid, task.parentPid = some w.val → w.val = n := fun w hw =>
    some.inj (hw.symm.trans hpar)
  refine ⟨fun b hb => ?_, fun w p hp => iff_of_false (fun hch => ?_) fun hb => ?_,
    fun hself => ?_, fun w hw => ⟨?_, ?_⟩⟩
  · rw [hctr] at hb
    cases hb
  · obtain ⟨p', hp', -⟩ := exists_of_table_tasks hp
    rw [hmis w (heq w hch.1)] at hp'
    cases hp'
  · rw [hctr] at hb
    cases hb
  · exact hpos.ne (hgen.symm.trans hself.2)
  · rintro rfl
    exact hidle (heq _ hw).symm
  · rw [hgen]
    exact Nat.zero_le _

lemma descends_of_spawnUser {elf : List Byte} {parent : Option Nat} (h : k.table.Follows l)
    (hfree : k.procs slot = none) (hidle : parent ≠ some IDLE_PID.val)
    (hpar : task.parentPid = parent) (hgen : task.parentGeneration = k.table.generationOf parent)
    (hoths : ∀ i, i ≠ slot → t'.generations i = k.generations i) (hpos : 0 < t'.generations slot) :
    Table.Descends k.table t' (l.after k (.spawnUser elf parent stack)) slot task := by
  have hctr : (l.after k (.spawnUser elf parent stack)).parent slot =
      l.creator k (.spawnUser elf parent stack) := Lineage.after_parent_free hfree
  cases parent with
  | none => exact descends_of_none hpar hctr
  | some n =>
  have hn : n ≠ IDLE_PID.val := fun hn => hidle (congrArg some hn)
  cases hslot : pidSlot n with
  | none =>
    refine descends_of_missing hpar (fun w hw => ?_) hn ?_ ?_ hpos
    · rw [← hw, pidSlot_val] at hslot
      cases hslot
    · simp [hgen, Table.generationOf, hslot]
    · simp [hctr, Lineage.creator, hslot]
  | some w0 =>
  have hval : w0.val = n := val_of_pidSlot hslot
  cases hp0 : k.procs w0 with
  | none =>
    refine descends_of_missing hpar (fun w hw => ?_) hn ?_ ?_ hpos
    · rw [Fin.ext (hw.trans hval.symm), hp0]
    · simp [hgen, Table.generationOf, hslot, table_tasks_eq_none.mpr hp0]
    · simp [hctr, Lineage.creator, hslot, hp0]
  | some p0 =>
    refine descends_of_parent h hfree hp0 ?_ (hval ▸ hpar) ?_ ?_ hoths
    · rintro rfl
      exact hn hval.symm
    · simp only [hgen, Table.generationOf, bind_some, hslot, table_tasks hp0]
      rfl
    · simp [hctr, Lineage.creator, hslot, hp0]

lemma newborn_fork {savedRsp : Nat} {frame : Frame} {extraStack : Option Nat} {cur : Pid}
    {p : Process} (hsnd : k.table.Sound) (h : k.table.Follows l) (hzero : k.generations slot = 0)
    (hunused : ∀ i, ∀ q ∈ k.procs i, hasParent q slot 0 = false) (hfree : k.procs slot = none)
    (hcur : k.current = some (cur, p)) (huser : p.isUser = true)
    (hpar : task.parentPid = some cur.val) (hpgen : task.parentGeneration = p.generation)
    (hgen : task.generation = 0) (hgens : t'.generations = k.generations) :
    Table.Descends k.table t'
      (l.after k (.syscall savedRsp frame (.fork stack extraStack))) slot task ∧
      Table.Counts k.table t' (l.after k (.syscall savedRsp frame (.fork stack extraStack))) slot
        task := by
  obtain ⟨hpid, hp⟩ := current_eq_some.mp hcur
  constructor
  · refine descends_of_parent h hfree hp ((hsnd cur _ (table_tasks hp)).ne_idle huser) hpar hpgen
      ?_ fun i _ => by rw [hgens]
    rw [Lineage.after_parent_free hfree, Lineage.creator, hpid]
    rfl
  refine ⟨fun _ => ?_, fun i _ => ?_, ?_, fun c q hq had hch => ?_⟩
  · rw [hgen, hgens, hzero]
  · rw [hgens]
    rfl
  · rw [hgens]
    exact le_rfl
  rw [hgens, hzero] at hch
  obtain ⟨q', hq', rfl⟩ := exists_of_table_tasks hq
  have hno := hunused c q' hq'
  rw [hasParent_iff.mpr hch] at hno
  cases hno

/-- A new task names as parent the process that the history names. -/
lemma newborn {origin : Origin} (hsnd : k.table.Sound) (h : k.table.Follows l)
    (hcond : k.FreshSlots ev) (hcan : k.canHappen ev = true)
    (hocc : Occurs M k ev t (.create origin slot task holding))
    (hnew : Creates t origin slot task holding gens) (hgens : t'.generations = gens) :
    Table.Newborn t t' (l.after k ev) slot task := by
  have hfree := Occurs.slot_free hcan hocc
  cases hocc with
  | create hev hslot _ hheld =>
  -- what does not depend on the kind of process
  have hmake : Table.Descends k.table t' (l.after k ev) slot task ∧
      Table.Counts k.table t' (l.after k ev) slot task →
      Table.Newborn k.table t' (l.after k ev) slot task := by
    rintro ⟨hdescends, hcounts⟩
    refine { hdescends, hcounts with now := ?_, adopted := ?_, older := ?_ }
    · rw [Lineage.after_birth_free hfree]
      exact Nat.lt_succ_self _
    · simp [Lineage.after, hfree]
    intro i p hp
    obtain ⟨p', hp', -⟩ := exists_of_table_tasks hp
    rw [Lineage.after_birth hp', Lineage.after_birth_free hfree, Lineage.after_parent hp']
    exact ⟨h.born i p hp, fun b hb => h.past i p b hp hb⟩
  cases hnew with
  | idle stack =>
    have hctr : (l.after k ev).parent IDLE_PID = none := by
      rw [Lineage.after_parent_free hfree]
      cases ev with
      | spawnIdle => rfl
      | syscall savedRsp frame call => cases call <;> cases hev
      | _ => cases hev
    refine hmake ⟨descends_of_none rfl hctr, fun hne => absurd rfl hne, fun i _ => by rw [hgens],
      by rw [hgens], fun c q hq had hch => ?_⟩
    obtain ⟨q', hq', -⟩ := exists_of_table_tasks hq
    exact (h.bound c _ q hq (Lineage.adopted_of_after hq' had) hch.1).1 rfl
  | kernel hne stack =>
    have hslot : k.freeSlot = some slot := hslot.resolve_left fun hidle => hne hidle.2
    cases ev with
    | spawnKernel =>
      exact hmake ⟨descends_of_none rfl (Lineage.after_parent_free hfree),
        counts_of_spawn h (hcond slot hslot) rfl hgens⟩
    | syscall savedRsp frame call => cases call <;> cases hev
    | _ => cases hev
  | user hne parent pml4 stack =>
    have hslot : k.freeSlot = some slot := hslot.resolve_left fun hidle => hne hidle.2
    cases ev with
    | spawnUser elf parent' stack' =>
      obtain rfl : parent = parent' := hheld.2.1
      refine hmake ⟨descends_of_spawnUser h hfree hcond.1 rfl rfl (fun i hi => ?_) ?_,
        counts_of_spawn h (hcond.2 slot hslot) rfl hgens⟩
      · rw [hgens]
        exact update_of_ne hi _ _
      · rw [hgens, Table.bumped, update_self]
        exact (Nat.mod_eq_of_lt (hcond.2 slot hslot)).symm ▸ Nat.succ_pos _
    | spawnInit =>
      obtain rfl : parent = none := hheld.2.1
      exact hmake ⟨descends_of_none rfl (Lineage.after_parent_free hfree),
        counts_of_spawn h (hcond slot hslot) rfl hgens⟩
    | syscall savedRsp frame call => cases call <;> cases hev
    | _ => cases hev
  | fork hne hcur pml4 stack =>
    have hslot : k.freeSlot = some slot := hslot.resolve_left fun hidle => hne hidle.2
    obtain ⟨p, hp, rfl⟩ := exists_of_table_current hcur
    cases ev with
    | syscall savedRsp frame call =>
      cases call with
      | fork stack extraStack =>
        obtain ⟨hzero, hunused⟩ := hcond slot hslot
        obtain ⟨_, q, hq, huser⟩ := userRunning_iff.mp hcan
        cases hq.symm.trans hp
        exact hmake (newborn_fork hsnd h hzero hunused hfree hp huser rfl rfl rfl hgens)
      | _ => cases hev
    | _ => cases hev

lemma follows_calm (hsnd : k.table.Sound) (hk : k.table.Follows l) (hcond : k.FreshSlots ev)
    (hcan : k.canHappen ev = true) (h : t.Follows (l.after k ev))
    (hstep : Calm (Occurs M k ev) t t') : t'.Follows (l.after k ev) := by
  rcases hstep.family with ⟨origin, slot, task, holding, gens, -, hnew, hocc, htsk, hgens⟩ |
    ⟨slot, hfree, hocc, htsk, hgens⟩ | ⟨⟨slot, _, _, -, -, -, -, htsk⟩ | hbred, hgens⟩
  · exact h.insert (newborn hsnd hk hcond hcan hocc hnew hgens) htsk
  · refine h.bump hfree ?_ htsk hgens
    cases hocc with
    | bump hev hslot =>
      cases ev with
      | spawnKernel | spawnInit => exact hcond slot hslot
      | spawnUser => exact hcond.2 slot hslot
      | syscall savedRsp frame call => cases call <;> simp [Event.origin] at hev
      | _ => simp [Event.origin] at hev
  · refine h.of_kin (fun i p' hp' => ⟨p', ?_, .refl p'⟩) hgens
    rw [htsk] at hp'
    exact Table.All.erase (P := fun i p => t.tasks i = some p) (fun _ _ hp => hp) _ i p' hp'
  · exact h.of_kin (fun _ _ => hbred.kin) hgens

lemma follows_givesUp (h : t.Follows (l.after k ev)) (hstep : GivesUp (Occurs M k ev) t t') :
    t'.Follows (l.after k ev) := by
  rcases hstep.death with hbred | ⟨v, q, who, hcur, hdies, rfl⟩
  · exact h.of_kin (fun _ _ => hbred.kin) hstep.same.1
  -- the children of the process that dies have been marked
  have hmk : ∀ i p, t.tasks i = some p → (l.after k ev).adopted i = false →
      p.parentPid ≠ some v.val := by
    intro i p hp had hpar
    have hleaves : Lineage.leaves k ev = true ∧ t = k.table := by
      rcases hdies with hocc | hocc
      · cases hocc with
        | exit => exact ⟨rfl, rfl⟩
      cases hocc with
      | fault hev =>
        refine ⟨?_, rfl⟩
        cases ev with
        | syscall savedRsp frame call => cases hev
        | _ => exact hev
    obtain ⟨hleaves, rfl⟩ := hleaves
    obtain ⟨p', hp', rfl⟩ := exists_of_table_tasks hp
    rw [Lineage.after_adopted hp' hleaves (Table.current_eq_some.mp hcur).1 hpar] at had
    cases had
  refine h.transfer (fun i p' hp' => ?_) rfl
  obtain ⟨p1, hp1, hkin⟩ := (Table.bred_wake (D := fun _ => False) who).kin hp'
  obtain ⟨p, hp, rfl⟩ := Table.exists_of_kill hp1
  have had : (t.adopted v p).Kin p' := by
    refine .trans ?_ hkin
    split <;> exact ⟨rfl, rfl, rfl⟩
  refine ⟨p, hp, had.generation.trans (Table.adopted_generation v p), fun hnot => ?_⟩
  rw [Table.adopted_of_ne (hmk i p hp hnot)] at had
  exact had

lemma follows_step (hsnd : k.table.Sound) (h : k.table.Follows l) (hcond : k.FreshSlots ev)
    (hstep : k.Steps M ev k') : k'.table.Follows (l.after k ev) :=
  Table.Step.preserves (I := fun t => t.Follows (l.after k ev))
    (J := fun t => t.Follows (l.after k ev))
    (fun _ _ ht hmove => follows_calm hsnd h hcond hstep.1 ht hmove)
    (fun _ _ ht hmove => follows_givesUp ht hmove)
    (fun _ _ ht hmove => ht.of_kin (fun _ _ => hmove.kin) hmove.same.1) (follows_after h)
    (hstep.refines hsnd.tidy fun _ _ hocc => hocc)

/-- In runs with `FreshSlots`, every process except idle carries the generation of its slot, and
`is_child_of` names exactly the process that spawned or forked it. -/
theorem Traces.parenthood (M : Mapper) (k0 k : Kernel) (l : Lineage) (hblank : k0.Blank)
    (h : Traces M FreshSlots (k0, .start) (k, l)) :
    (∀ i p, k.procs i = some p → i ≠ IDLE_PID → p.generation = k.getGeneration i) ∧
    ∀ c w q p, k.procs c = some q → k.procs w = some p → l.adopted c = false →
      (k.isChildOf c.val w (k.getGeneration w) = true ↔ l.parent c = some (l.birth w)) := by
  have hst : k0.table.Follows .start := by
    constructor <;> intro i <;> simp [hblank.tasks]
  have hfollows : ∀ x, Traces M FreshSlots (k0, .start) x → x.1.table.Follows x.2 := by
    intro x hx
    induction hx with
    | refl => exact hst
    | tail hprev hlast ih =>
      obtain ⟨ev, hcond, hstep, hl⟩ := hlast
      rw [hl]
      exact follows_step (Runs.sound hblank (Traces.runs hprev)).1 ih hcond hstep
  have hf : k.table.Follows l := hfollows (k, l) h
  refine ⟨fun i p hp hi => hf.generation i p.task (table_tasks hp) hi, ?_⟩
  intro c w q p hq hp had
  rw [isChildOf, pidSlot_val, bind_some, hq]
  exact hasParent_iff.trans (hf.link c w q.task p.task (table_tasks hq) (table_tasks hp) had)

/-- Like `play`, with the lineage. -/
def trace (M : Mapper) (cond : Kernel → Event → Prop) [∀ k ev, Decidable (cond k ev)] :
    List Event → Kernel × Lineage → Option (Kernel × Lineage)
  | [], x => some x
  | ev :: evs, (k, l) =>
    if cond k ev ∧ k.canHappen ev = true then
      match k.react M ev with
      | .error _ => none
      | .ok k' => trace M cond evs (k', l.after k ev)
    else none

lemma traces_of_trace [∀ k ev, Decidable (cond k ev)] {evs : List Event}
    (h : trace M cond evs x = some y) : Traces M cond x y := by
  induction evs generalizing x with
  | nil => exact some.inj h ▸ .refl
  | cons ev evs ih =>
    rw [trace] at h
    split at h
    · rename_i hmay
      split at h
      · cases h
      · rename_i k' hre
        exact .head ⟨ev, hmay.1, ⟨hmay.2, hre⟩, rfl⟩ (ih h)
    · cases h

/-- Init forks into a slot that has never been used. -/
theorem Traces.parenthood_fork :
    ∃ k l, Traces referenceMapper FreshSlots (emptyKernel, .start) (k, l) ∧
    l.parent childSlot = some (l.birth initSlot) ∧
    k.isChildOf childSlot.val initSlot (k.getGeneration initSlot) = true := by
  have htrace : (trace referenceMapper FreshSlots
      (bootEvents ++ [call (.fork (some 0x40000) (some 0x50000))]) (emptyKernel, .start)).any
      (fun x => (x.1.procs initSlot).isSome && (x.1.procs childSlot).isSome &&
        !x.2.adopted childSlot &&
        x.2.parent childSlot == some (x.2.birth initSlot)) = true := by
    decide +kernel
  rw [any_eq_true] at htrace
  obtain ⟨⟨k, l⟩, hplay, htest⟩ := htrace
  simp only [Bool.and_eq_true, isSome_iff_exists, Bool.not_eq_true', beq_iff_eq] at htest
  obtain ⟨⟨⟨⟨p, hp⟩, q, hq⟩, had⟩, hpar⟩ := htest
  have htraces := traces_of_trace hplay
  refine ⟨k, l, htraces, hpar, ?_⟩
  exact ((parenthood _ _ k l emptyKernel_blank htraces).2 childSlot initSlot q p hq hp had).mpr
    hpar

/-- Init forks into the slot of a reaped process: when that child forks, `is_child_of` denies that
it is the parent. -/
theorem Runs.parenthood_denied : ∃ k k' p q, Runs referenceMapper (fun _ _ => True) emptyKernel k ∧
    k.currentPid = some childSlot ∧ k.procs childSlot = some p ∧ p.state = .running ∧
    p.generation ≠ k.getGeneration childSlot ∧
    k.Steps referenceMapper (call (.fork (some 0x70000) (some 0x80000))) k' ∧
    k.procs grandchildSlot = none ∧ k'.procs grandchildSlot = some q ∧
    k'.isChildOf grandchildSlot.val childSlot (k'.getGeneration childSlot) = false := by
  have hplay : plays referenceMapper (fun _ _ => True)
      ([.spawnIdle (some 0x10000), .spawnKernel (some 0x20000), .spawnInit tinyElf (some 0x30000),
        .spawnUser tinyElf (some 1) (some 0x40000), .timer 0x1000 ⟨0, 0, 0⟩] ++ quantum ++
        [call .yield, call (.exit 0), .initRound] ++ quantum ++
        [call (.fork (some 0x50000) (some 0x60000)), call .yield]) emptyKernel
      (fun k => k.currentPid == some childSlot &&
        (k.procs childSlot).any (fun p => p.state == .running &&
          p.generation != k.getGeneration childSlot) &&
        (k.procs grandchildSlot).isNone &&
        k.stepMeets referenceMapper (call (.fork (some 0x70000) (some 0x80000))) fun k' =>
          (k'.procs grandchildSlot).isSome &&
            !k'.isChildOf grandchildSlot.val childSlot (k'.getGeneration childSlot)) = true := by
    decide +kernel
  obtain ⟨k, hruns, htest⟩ := runs_of_plays hplay
  simp only [Bool.and_eq_true, any_eq_true, beq_iff_eq, bne_iff_ne,
    isNone_iff_eq_none] at htest
  obtain ⟨⟨⟨hcur, p, hp, hrun, hgen⟩, hnone⟩, hmt⟩ := htest
  obtain ⟨k', hstep, haft⟩ := steps_of_stepMeets hmt
  simp only [Bool.and_eq_true, isSome_iff_exists, Bool.not_eq_true'] at haft
  obtain ⟨⟨q, hq⟩, hdenied⟩ := haft
  exact ⟨k, k', p, q, hruns, hcur, hp, hrun, hgen, hstep, hnone, hq, hdenied⟩

end Kernel

end Indominus.Sys
