import Indominus.Sys.System

/-!
# The release of dead processes (`process/context_switch.rs`, `process/process.rs`)

By `drain_deferred_free` if the process died on the CPU, else by `Process::drop`.
-/

namespace Indominus.Sys

open Memory

/-! ## Resources -/

inductive Resource
  | stack (base : Nat)
  | pageTable (frame : Nat)
  deriving DecidableEq

/-- What `drain_deferred_free` and `Process::drop` free of a record with these fields. -/
def resources (isUser : Bool) (kstack pml4 : Nat) : List Resource :=
  (if isUser = true ∧ pml4 ≠ 0 then [.pageTable pml4] else []) ++
    if kstack ≠ 0 then [.stack kstack] else []

def Deferred.resources (d : Deferred) : List Resource := Sys.resources d.isUser d.kstack d.pml4

def Process.resources (p : Process) : List Resource :=
  Sys.resources p.isUser p.kernelStackBase p.pml4Phys

lemma mem_resources {isUser : Bool} {kstack pml4 : Nat} {r : Resource} :
    r ∈ resources isUser kstack pml4 ↔
      isUser = true ∧ pml4 ≠ 0 ∧ r = .pageTable pml4 ∨ kstack ≠ 0 ∧ r = .stack kstack := by
  rw [resources, List.mem_append]
  refine or_congr ?_ ?_
  · split
    · rename_i h
      simp [h.1, h.2]
    rename_i h
    simp only [List.not_mem_nil, false_iff]
    exact fun hr => h ⟨hr.1, hr.2.1⟩
  split
  · rename_i h
    simp [h]
  · rename_i h
    simp [h]

/-- The page tables among some resources are freed, in turn. -/
def freePageTables : List Resource → Machine → Except Panic Machine
  | [], s => .ok s
  | .stack _ :: rs, s => freePageTables rs s
  | .pageTable f :: rs, s =>
    match freeUserAddressSpace s f with
    | .error e => .error e
    | .ok s => freePageTables rs s

lemma freePageTables_resources (isUser : Bool) (kstack pml4 : Nat) (rs : List Resource)
    (s : Machine) :
    freePageTables (resources isUser kstack pml4 ++ rs) s =
      if isUser = true ∧ pml4 ≠ 0 then
        match freeUserAddressSpace s pml4 with
        | .error e => .error e
        | .ok s => freePageTables rs s
      else freePageTables rs s := by
  -- the stack is on the heap, which is not part of the machine
  have hstk : ∀ s, freePageTables ((if kstack ≠ 0 then [.stack kstack] else []) ++ rs) s =
      freePageTables rs s := by
    intro s
    split <;> rfl
  rw [resources, List.append_assoc]
  split
  · rw [List.singleton_append, freePageTables]
    cases freeUserAddressSpace s pml4 with
    | error e => rfl
    | ok s => exact hstk s
  · exact hstk s

lemma drainSlots_eq (ds : List Deferred) (s : Machine) :
    Kernel.drainSlots ds s = freePageTables (ds.flatMap Deferred.resources) s := by
  induction ds generalizing s with
  | nil => rfl
  | cons d ds ih =>
    rw [Kernel.drainSlots, List.flatMap_cons, Deferred.resources, freePageTables_resources]
    split
    · cases freeUserAddressSpace s d.pml4 with
      | error e => rfl
      | ok s => exact ih s
    · exact ih s

/-- `sys_exec` or `sys_execve`. -/
def Event.isExec : Event → Bool
  | .syscall _ _ (.exec _) | .syscall _ _ (.execve _ _) => true
  | _ => false

/-- The stack that the heap hands out for a new process. -/
def Event.stackGiven : Event → Option Nat
  | .spawnIdle stack | .spawnKernel stack | .spawnUser _ _ stack | .spawnInit _ stack => stack
  | .syscall _ _ (.fork stack _) => stack
  | _ => none

namespace Kernel

lemma dropProcess_eq (k : Kernel) (p : Process) :
    k.dropProcess p = (freePageTables p.resources k.machine).map fun s =>
      { k with
        machine := s
        pipes := closePipes k.pipes ((List.finRange MAX_FDS).filterMap fun fd =>
          pipeOp (p.fdTypes fd)) } := by
  rw [dropProcess, Process.resources, ← List.append_nil (Sys.resources _ _ _),
    freePageTables_resources]
  split
  · cases freeUserAddressSpace k.machine p.pml4Phys <;> rfl
  · rfl

/-! ## What an entry to the kernel frees and hands out -/

/-- The process that `sys_waitpid` reaps, if there is one. -/
def reapedBy (k : Kernel) (childPid : Nat) : Option Process :=
  match k.currentPid with
  | none => none
  | some parent =>
    if childPid = 0 then k.findAnyZombieChild parent
    else if k.isChildOf childPid parent (k.getGeneration parent) then
      ((pidSlot childPid).bind k.procs).filter fun p => p.state == .zombie
    else none

/-- What the event frees: the timer interrupt drains the deferred-free list, and a process that is
reaped is dropped. -/
def frees (k : Kernel) : Event → List Resource
  | .timer _ _ => k.deferred.flatMap Deferred.resources
  | .syscall _ frame (.waitpid childPid _) =>
      ((k.enter frame).reapedBy childPid).elim [] Process.resources
  | .initRound => k.initZombies.flatMap fun n =>
      ((pidSlot n).bind k.procs).elim [] Process.resources
  | _ => []

/-- The page table that `create_user_pml4` hands out for a new process. -/
def tableGiven (k : Kernel) : Event → Option Nat
  | .spawnUser _ _ _ | .spawnInit _ _ => (createUserPml4 k.machine k.cr3).toOption.map Prod.fst
  | .syscall _ _ (.fork _ _) => (createUserPml4 k.machine k.kernelPml4).toOption.map Prod.fst
  | _ => none

def gives (k : Kernel) (ev : Event) : List Resource :=
  ev.stackGiven.toList.map .stack ++ (k.tableGiven ev).toList.map .pageTable

/-- What the processes and the deferred-free list own. -/
def owned (k : Kernel) : List Resource :=
  ((List.finRange MAX_PROCESSES).flatMap fun i => (k.procs i).elim [] Process.resources) ++
    k.deferred.flatMap Deferred.resources

/-- A new process does not have itself as its parent on record. -/
def ParentElsewhere (k : Kernel) : Event → Prop
  | .spawnUser _ parent _ => ∀ slot ∈ k.freeSlot, parent ≠ some slot.val
  | _ => True

instance (k : Kernel) (ev : Event) : Decidable (k.ParentElsewhere ev) := by
  induction ev using Event.casesOn <;> dsimp only [ParentElsewhere] <;> infer_instance

/-- The contract of the heap: a stack is not at address 0, and nobody has it yet. -/
def StacksFresh (k : Kernel) (ev : Event) : Prop :=
  ∀ base ∈ ev.stackGiven, base ≠ 0 ∧ .stack base ∉ k.owned

instance (k : Kernel) (ev : Event) : Decidable (k.StacksFresh ev) :=
  inferInstanceAs (Decidable (∀ _ ∈ _, _))

/-- The frame of a new page table is not frame 0 nor that of the kernel's page table, and nobody has
it yet. -/
def TablesFresh (k : Kernel) (ev : Event) : Prop :=
  ∀ f ∈ k.tableGiven ev, f ≠ 0 ∧ f ≠ k.kernelPml4 ∧ .pageTable f ∉ k.owned

instance (k : Kernel) (ev : Event) : Decidable (k.TablesFresh ev) :=
  inferInstanceAs (Decidable (∀ _ ∈ _, _))

/-- No exec, and what a new process gets is new. -/
def Entrusts (k : Kernel) (ev : Event) : Prop :=
  ev.isExec = false ∧ k.ParentElsewhere ev ∧ k.StacksFresh ev ∧ k.TablesFresh ev

instance (k : Kernel) (ev : Event) : Decidable (k.Entrusts ev) :=
  inferInstanceAs (Decidable (_ ∧ _))

end Kernel

end Indominus.Sys
