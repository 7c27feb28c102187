import Indominus.Sys.System

/-!
# The process table as an abstract machine

A step says what one entry to the kernel can do to the table, without memory contents, registers or
descriptors.
-/

namespace Indominus.Sys

/-! ## Tasks and tables -/

structure Task where
  pid : Nat
  state : ProcessState
  wakeReason : WakeReason
  isUser : Bool
  parentPid : Option Nat
  parentGeneration : Nat
  generation : Nat
  fdFlags : Fd → Nat

structure Holding where
  kernelStackBase : Nat
  pml4Phys : Nat
  savedCr3 : Nat

structure PipeView where
  nread : Nat
  nwrite : Nat
  readOpen : Bool
  writeOpen : Bool
  deriving DecidableEq

abbrev PipeViews := PipeIdx → Option PipeView

/-- The part of the kernel that this machine knows. -/
@[ext]
structure Table where
  tasks : Pid → Option Task
  holdings : Pid → Option Holding
  generations : Pid → Nat
  currentPid : Option Pid
  initPid : Pid
  pipes : PipeViews
  deferred : List Deferred
  cr3 : Nat
  kernelPml4 : Nat

def Process.task (p : Process) : Task where
  pid := p.pid
  state := p.state
  wakeReason := p.wakeReason
  isUser := p.isUser
  parentPid := p.parentPid
  parentGeneration := p.parentGeneration
  generation := p.generation
  fdFlags := p.fdFlags

def Process.holding (p : Process) : Holding where
  kernelStackBase := p.kernelStackBase
  pml4Phys := p.pml4Phys
  savedCr3 := p.savedCr3

def Pipe.view (p : Pipe) : PipeView where
  nread := p.nread
  nwrite := p.nwrite
  readOpen := p.readOpen
  writeOpen := p.writeOpen

def Kernel.table (k : Kernel) : Table where
  tasks pid := (k.procs pid).map Process.task
  holdings pid := (k.procs pid).map Process.holding
  generations := k.generations
  currentPid := k.currentPid
  initPid := k.initPid
  pipes i := (k.pipes i).map Pipe.view
  deferred := k.deferred
  cr3 := k.cr3
  kernelPml4 := k.kernelPml4

namespace Task

def woken (p : Task) : Task := { p with state := .ready, wakeReason := .none }

def dead (p : Task) : Task := { p with state := .zombie }

def stopped (p : Task) : Task := { p with state := .blocked, wakeReason := .none }

def blockedOn (reason : WakeReason) (p : Task) : Task :=
  { p with state := .blocked, wakeReason := reason }

/-- `is_child_of`, for this task. -/
def IsChild (p : Task) (parent : Pid) (parentGen : Nat) : Prop :=
  p.parentPid = some parent.val ∧ p.parentGeneration = parentGen

/-- Does the task wait for a pipe that is ready for it?  This is the test of `keyboard_wake`. -/
def pipeReady (pipes : PipeViews) (p : Task) : Bool :=
  match p.wakeReason with
  | .pipeRead idx =>
    match (Kernel.pipeSlot idx).bind pipes with
    | some q => decide (q.nread < q.nwrite) || !q.writeOpen
    | none => false
  | .pipeWrite idx =>
    match (Kernel.pipeSlot idx).bind pipes with
    | some q => decide (q.nwrite < (q.nread + PIPE_SIZE) % 2 ^ 32) || !q.readOpen
    | none => false
  | _ => false

end Task

namespace Table

def current (t : Table) : Option (Pid × Task) :=
  match t.currentPid with
  | none => none
  | some pid => (t.tasks pid).map fun p => (pid, p)

def mapTasks (t : Table) (f : Pid → Task → Task) : Table :=
  { t with tasks := fun i => (t.tasks i).map (f i) }

def update (t : Table) (pid : Pid) (f : Task → Task) : Table :=
  t.mapTasks fun i p => if i = pid then f p else p

def wake (t : Table) (who : Pid → Bool) : Table :=
  t.mapTasks fun i p => if who i then p.woken else p

/-- A task after the death of `old`: a child of `old` goes to init. -/
def adopted (t : Table) (old : Pid) (p : Task) : Task :=
  if p.parentPid = some old.val then
    { p with parentPid := some t.initPid.val, parentGeneration := t.generations t.initPid }
  else p

/-- `reparent_orphans_to_init`. -/
def adopt (t : Table) (old : Pid) : Table := t.mapTasks fun _ p => t.adopted old p

/-- A task dies and its children go to init. -/
def kill (t : Table) (pid : Pid) : Table := (t.adopt pid).update pid Task.dead

/-- Does the task in the slot wait for the given child or for any child? -/
def waitsFor (t : Table) (i : Pid) (child : Nat) : Bool :=
  match t.tasks i with
  | some p => p.wakeReason == .waitForChild child || p.wakeReason == .waitForChild 0
  | none => false

def isBlocked (t : Table) (i : Pid) : Bool :=
  match t.tasks i with
  | some p => p.state == .blocked
  | none => false

/-- `sys_exit`: the blocked tasks that wait for this one, or for any child, are woken. -/
def exit (t : Table) (pid : Pid) : Table :=
  (t.kill pid).wake fun i =>
    i != IDLE_PID && (t.kill pid).isBlocked i && (t.kill pid).waitsFor i pid.val

/-- Ctrl-C: the targets die, and whoever waits for one of them, or for any child, is woken, whatever
its state. -/
def foregroundKill (t : Table) (targets : Pid → Bool) : Table :=
  (t.mapTasks fun i p => if targets i then p.dead else p).wake fun i =>
    i != IDLE_PID && decide (∃ z, targets z = true ∧ t.waitsFor i z.val = true)

/-- Ctrl-Z: the targets stop. -/
def foregroundStop (t : Table) (targets : Pid → Bool) : Table :=
  t.mapTasks fun i p => if targets i then p.stopped else p

/-- A parent that waits for this very child is woken, whatever its state. -/
def wakeParent (t : Table) (v : Pid) (p : Task) : Table :=
  t.wake fun i =>
    p.parentPid == some i.val &&
      match t.tasks i with
      | some q => q.generation == p.parentGeneration && q.wakeReason == .waitForChild v.val
      | none => false

/-- The running task goes back to the ready ones. -/
def suspend (t : Table) : Table :=
  t.mapTasks fun i p =>
    if t.currentPid = some i ∧ p.state = .running then { p with state := .ready } else p

def run (t : Table) (next : Pid) : Table :=
  { t.update next fun p => { p with state := .running } with currentPid := some next }

def CanRun (t : Table) (next : Pid) : Prop :=
  (∃ p, t.tasks next = some p ∧ p.state = .ready) ∨ next = IDLE_PID

/-- `save_current_sp`. -/
def save (t : Table) : Table :=
  { t with holdings := fun i => (t.holdings i).map fun p =>
      if t.currentPid = some i then { p with savedCr3 := t.cr3 } else p }

/-- CR3 follows the task that has the CPU. -/
def load (t : Table) : Table :=
  match t.currentPid.bind t.holdings with
  | none => t
  | some p => { t with cr3 := if p.savedCr3 ≠ 0 then p.savedCr3 else p.pml4Phys }

/-- CR3 after the first dispatch. -/
def loadFirst (t : Table) : Table :=
  match t.currentPid.bind t.holdings with
  | none => t
  | some p => { t with cr3 := p.pml4Phys }

/-- What a dead task held goes to the deferred-free list. -/
def bury (t : Table) (v : Pid) (isUser : Bool) (h : Holding) : Table :=
  if h.kernelStackBase ≠ 0 ∨ h.pml4Phys ≠ 0 then
    { t with
      holdings := fun i => (t.holdings i).map fun p =>
        if i = v then { p with kernelStackBase := 0, pml4Phys := 0 } else p
      deferred := t.deferred ++ [⟨h.kernelStackBase, h.pml4Phys, isUser⟩] }
  else t

/-- `generations[slot] += 1`. -/
def bumped (t : Table) (slot : Pid) : Pid → Nat :=
  Function.update t.generations slot ((t.generations slot + 1) % 2 ^ 32)

/-- The generation of a parent, as `spawn_user` looks it up. -/
def generationOf (t : Table) (parent : Option Nat) : Nat :=
  match (parent.bind pidSlot).bind t.tasks with
  | some q => q.generation
  | none => 0

end Table

/-! ## Hazards -/

inductive Origin
  | idle
  | kernel
  | user
  | fork
  deriving DecidableEq

/-- How a pending signal kills the process that it is delivered to. -/
inductive Death
  | default
  /-- Because its user stack cannot take a return address. -/
  | badStack
  deriving DecidableEq

/-- The changes that need permission. -/
inductive Hazard
  | foreground (targets : Pid → Bool)
  | create (origin : Origin) (slot : Pid) (task : Task) (holding : Holding)
  /-- The generation counter of a free slot is incremented for nothing. -/
  | bump (slot : Pid)
  /-- A zombie is reaped, which leaves these pipes. -/
  | reap (slot : Pid) (pipes : PipeViews)
  | openPipe (i : PipeIdx)
  | exec
  /-- What is on the deferred-free list is freed. -/
  | drain
  | block
  | exit
  | fault
  /-- The chosen process dies from a pending signal. -/
  | die (death : Death)

/-- Which of them are permitted in which table. -/
abbrev Permits := Table → Hazard → Prop

/-- A new task, what it holds, and the generation counters afterwards. -/
inductive Creates (t : Table) : Origin → Pid → Task → Holding → (Pid → Nat) → Prop
  | idle (stack : Nat) : Creates t .idle IDLE_PID
      { (Process.newKernel IDLE_PID.val t.cr3 stack).task with generation := 1 }
      ⟨stack, t.cr3, 0⟩ t.generations
  | kernel {slot : Pid} (hslot : slot ≠ IDLE_PID) (stack : Nat) : Creates t .kernel slot
      { (Process.newKernel slot.val t.cr3 stack).task with
        generation := (t.generations slot + 1) % 2 ^ 32 }
      ⟨stack, t.cr3, 0⟩ (t.bumped slot)
  | user {slot : Pid} (hslot : slot ≠ IDLE_PID) (parent : Option Nat) (pml4 stack : Nat) :
      Creates t .user slot
        { (Process.newUser slot.val 0 0 pml4 parent (t.generationOf parent) stack).task with
          generation := (t.generations slot + 1) % 2 ^ 32 }
        ⟨stack, pml4, 0⟩ (t.bumped slot)
  /-- `sys_fork`: the generation counter of the slot is not touched. -/
  | fork {slot cur : Pid} {p : Task} (hslot : slot ≠ IDLE_PID) (hcur : t.current = some (cur, p))
      (pml4 stack : Nat) :
      Creates t .fork slot
        { (Process.newKernel slot.val pml4 stack).task with
          isUser := p.isUser
          parentPid := some cur.val
          parentGeneration := p.generation }
        ⟨stack, pml4, 0⟩ t.generations

/-! ## Steps -/

section Moves

variable (H : Permits)

/-- Changes that leave the CPU with the process that has it. -/
inductive Calm (t : Table) : Table → Prop
  /-- Only blocked tasks that wait for something are woken, and after a change of the pipes all
  whose pipe is ready. -/
  | wake (pipes : PipeViews) (who : Pid → Bool)
      (hwho : ∀ i p, who i = true → t.tasks i = some p →
        p.state = .blocked ∧ p.wakeReason ≠ .none)
      (hpipes : pipes = t.pipes ∨ ∀ i p, t.tasks i = some p → p.state = .blocked →
        p.pipeReady pipes = true → who i = true) :
      Calm t ({ t with pipes := pipes }.wake who)
  /-- `alloc_pipe`. -/
  | openPipe (i : PipeIdx) (hfree : t.pipes i = none) (h : H t (.openPipe i)) :
      Calm t { t with pipes := Function.update t.pipes i (some Pipe.new.view) }
  | foreground (targets : Pid → Bool)
      (htargets : ∀ i, targets i = true → i ≠ IDLE_PID ∧
        ∃ p, t.tasks i = some p ∧ p.isUser = true ∧ p.state ≠ .zombie)
      (h : H t (.foreground targets)) : Calm t (t.foregroundKill targets)
  | stop (targets : Pid → Bool)
      (htargets : ∀ i, targets i = true → i ≠ IDLE_PID ∧
        ∃ p, t.tasks i = some p ∧ p.isUser = true ∧ p.state ≠ .zombie) :
      Calm t (t.foregroundStop targets)
  /-- The running task reaps one of its children. -/
  | reap {slot cur : Pid} {p : Task} (pipes : PipeViews)
      (hp : t.tasks slot = some p) (hzombie : p.state = .zombie)
      (hcur : t.currentPid = some cur) (hparent : p.parentPid = some cur.val)
      (h : H t (.reap slot pipes)) :
      Calm t { t with
        tasks := Function.update t.tasks slot none
        holdings := Function.update t.holdings slot none
        pipes := pipes }
  | create {origin : Origin} {slot : Pid} {task : Task} {holding : Holding}
      {generations : Pid → Nat} (hfree : t.tasks slot = none)
      (hnew : Creates t origin slot task holding generations)
      (h : H t (.create origin slot task holding)) :
      Calm t { t with
        tasks := Function.update t.tasks slot (some task)
        holdings := Function.update t.holdings slot (some holding)
        generations := generations }
  /-- A creation that failed after the counter was incremented. -/
  | bump {slot : Pid} (hfree : t.tasks slot = none) (hslot : slot ≠ IDLE_PID)
      (h : H t (.bump slot)) : Calm t { t with generations := t.bumped slot }
  /-- `INIT_PID` is stored. -/
  | setInit {slot : Pid} {p : Task} (hp : t.tasks slot = some p) (hparent : p.parentPid = none)
      (hgen : p.generation = t.generations slot) : Calm t { t with initPid := slot }
  /-- `sys_exec` or `sys_execve`: the running process holds another page table. -/
  | exec {cur : Pid} {p : Task} (pml4 savedCr3 cr3 : Nat) (hcur : t.current = some (cur, p))
      (h : H t .exec) :
      Calm t { t with
        holdings := fun i => (t.holdings i).map fun q =>
          if i = cur then { q with pml4Phys := pml4, savedCr3 := savedCr3 } else q
        cr3 := cr3 }
  | drain (h : H t .drain) : Calm t { t with deferred := [] }
  | save : Calm t t.save
  | load : Calm t t.load
  /-- The current slot is empty and no task is ready. -/
  | lose {cur : Pid} (hcur : t.currentPid = some cur) (hempty : t.tasks cur = none) :
      Calm t { t with currentPid := none }

/-- When may the task in the slot block on this reason? -/
def Table.BlocksOn (t : Table) (cur : Pid) : WakeReason → Prop
  | .none => False
  | .sleep _ | .keyboard => True
  | .pipeRead idx => ∃ q, (Kernel.pipeSlot idx).bind t.pipes = some q ∧ q.nwrite ≤ q.nread ∧
      q.writeOpen = true
  | .pipeWrite idx => ∃ q, (Kernel.pipeSlot idx).bind t.pipes = some q ∧
      (q.nwrite = 2 ^ 32 - 1 ∨ (q.nread + PIPE_SIZE) % 2 ^ 32 ≤ q.nwrite) ∧ q.readOpen = true
  | .waitForChild 0 => ∀ i q, t.tasks i = some q → q.IsChild cur (t.generations cur) →
      q.state ≠ .zombie
  | .waitForChild child => ∃ i q, i.val = child ∧ t.tasks i = some q ∧
      q.IsChild cur (t.generations cur) ∧ q.state ≠ .zombie

/-- How the running task stops running. -/
inductive GivesUp (t : Table) : Table → Prop
  /-- Its time is over, or it yields, or there is none. -/
  | nothing : GivesUp t t
  | block {cur : Pid} {p : Task} {reason : WakeReason} (hcur : t.current = some (cur, p))
      (huser : p.isUser = true) (hreason : t.BlocksOn cur reason) (h : H t .block) :
      GivesUp t (t.update cur (Task.blockedOn reason))
  | exit {cur : Pid} {p : Task} (hcur : t.current = some (cur, p)) (huser : p.isUser = true)
      (h : H t .exit) : GivesUp t (t.exit cur)
  | fault {cur : Pid} {p : Task} (hcur : t.current = some (cur, p)) (huser : p.isUser = true)
      (h : H t .fault) : GivesUp t (t.kill cur)

/-- What the delivery of a signal does to the task that has just been chosen. -/
inductive Signalled (t : Table) : Table → Prop
  | nothing : Signalled t t
  | killed {v : Pid} {p : Task} (hcur : t.current = some (v, p)) (huser : p.isUser = true)
      (h : H t (.die .default)) : Signalled t ((t.update v Task.dead).wakeParent v p)
  | badStack {v : Pid} {p : Task} (hcur : t.current = some (v, p)) (huser : p.isUser = true)
      (h : H t (.die .badStack)) : Signalled t (t.update v Task.dead)
  | stopped {v : Pid} {p : Task} (hcur : t.current = some (v, p)) (huser : p.isUser = true) :
      Signalled t ((t.update v Task.stopped).wakeParent v p)
  /-- The default action ignores the signal; the parent is woken all the same. -/
  | ignored {v : Pid} {p : Task} (hcur : t.current = some (v, p)) :
      Signalled t (t.wakeParent v p)

inductive Switch (t : Table) : Table → Prop
  | mk {t0 t1 t2 t3 : Table} (next : Pid) (hsave : t0 = t ∨ t0 = t.save)
      (hnext : t0.suspend.CanRun next) (hsignal : Signalled H (t0.suspend.run next) t1)
      (hload : t2 = t1.load ∨ t.currentPid = none ∧ t2 = t1.loadFirst)
      (hbury : t3 = t2 ∨ ∃ v p h, t.current = some (v, p) ∧ p.state = .zombie ∧
        t.holdings v = some h ∧ t3 = t2.bury v p.isUser h) :
      Switch t t3

/-- One entry to the kernel. -/
def Table.Step (t t' : Table) : Prop :=
  ∃ t1, Relation.ReflTransGen (Calm H) t t1 ∧ (t' = t1 ∨ ∃ t2, GivesUp H t1 t2 ∧ Switch H t2 t')

end Moves

end Indominus.Sys
