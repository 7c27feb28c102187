import Indominus.Lib.Outcome
import Indominus.Memory.PageTable

/-!
# The virtual memory manager (`memory/vmm.rs`)

The nested loops of `free_user_address_space` and `copy_user_pages` are recursions over the level;
level 3 is the PML4.  `Mapper` stands for the third-party paging crate.
-/

namespace Indominus.Memory

open Lib

namespace Machine

def allocFrame (s : Machine) : Option (Nat × Machine) :=
  s.pmm.allocFrame.map fun r => (r.1, { s with pmm := r.2 })

def freeFrame (s : Machine) (frame : Nat) : Except Panic Machine :=
  (s.pmm.freeFrame frame).map fun p => { s with pmm := p }

def incref (s : Machine) (frame : Nat) : Except Panic Machine :=
  (s.pmm.incref frame).map fun p => { s with pmm := p }

def decref (s : Machine) (frame : Nat) : Except Panic Machine :=
  (s.pmm.decref frame).map fun p => { s with pmm := p }

/-- `PmmFrameAllocator::allocate_frame`: a frame that has been zeroed. -/
def allocateFrame (s : Machine) : Option (Nat × Machine) :=
  s.allocFrame.map fun r => (r.1, { r.2 with ram := r.2.ram.zeroPage r.1 })

end Machine

/-! ## Creating tables -/

def createEmptyPml4 (s : Machine) : Except Panic (Nat × Machine) :=
  match s.allocateFrame with
  | none => .error .outOfMemoryForPml4
  | some r => .ok r

/-- The byte copy of `create_user_pml4`: entries 256 to 511 of `src` into `dst`. -/
def copyKernelHalf (m : PhysMem) (src dst : Nat) : List Nat → PhysMem
  | [] => m
  | i :: is => copyKernelHalf (m.setEntry dst i (m.entry src i)) src dst is

def kernelIndices : List Nat := List.range' 256 256

/-- `create_user_pml4`: an empty lower half and the kernel's upper half. -/
def createUserPml4 (s : Machine) (kernelPml4 : Nat) : Except Panic (Nat × Machine) :=
  match createEmptyPml4 s with
  | .error e => .error e
  | .ok (pml4, s) =>
      .ok (pml4, { s with ram := copyKernelHalf s.ram kernelPml4 pml4 kernelIndices })

/-! ## The mapper of the paging crate -/

/-- The errors of `map_to`. -/
inductive MapToError
  | frameAllocationFailed
  | parentEntryHugePage
  | pageAlreadyMapped
  deriving DecidableEq, Repr

/-- The operations of the paging crate's mapper; `mapTo` draws frames from `PmmFrameAllocator`. -/
structure Mapper where
  /-- `map_to(page, frame, flags, allocator)`. -/
  mapTo : (s : Machine) → (pml4 va frame : Nat) → (flags : Word) → Except MapToError Machine
  /-- `unmap(page)`: the frame that was mapped. -/
  unmap : (m : PhysMem) → (pml4 va : Nat) → Option (Nat × PhysMem)
  /-- `translate_page(page)`. -/
  translatePage : (m : PhysMem) → (pml4 va : Nat) → Option Nat

def mapPage (M : Mapper) (s : Machine) (pml4 va frame : Nat) (flags : Word) :
    Except Panic Machine :=
  match M.mapTo s pml4 va frame flags with
  | .error _ => .error .failedToMapPage
  | .ok s => .ok s

def unmapPage (M : Mapper) (s : Machine) (pml4 va : Nat) : Except Panic (Nat × Machine) :=
  match M.unmap s.ram pml4 va with
  | none => .error .failedToUnmapPage
  | some (frame, m) => .ok (frame, { s with ram := m })

def translateAddr (M : Mapper) (s : Machine) (pml4 va : Nat) : Option Nat :=
  M.translatePage s.ram pml4 va

/-! ## Walking the entries of a table -/

/-- A loop over the entries of the table `t`: `body` runs on the target of every entry that has
one. -/
def forEntries {σ ε : Type} (ram : σ → PhysMem) (level t : Nat)
    (body : (i target : Nat) → σ → Except ε σ) : List Nat → σ → Except ε σ
  | [], s => .ok s
  | i :: is, s =>
    match Pte.target level ((ram s).entry t i) with
    | none => forEntries ram level t body is s
    | some f =>
      match body i f s with
      | .error e => .error e
      | .ok s => forEntries ram level t body is s

/-- The loop rule: `I` says what holds with the indices `is` still to do. -/
lemma forEntries_rule {σ ε : Type} {ram : σ → PhysMem} {level t : Nat}
    {body : (i target : Nat) → σ → Except ε σ} {E : ε → Prop} (I : List Nat → σ → Prop)
    (hskip : ∀ i is s, I (i :: is) s → Pte.target level ((ram s).entry t i) = none → I is s)
    (hbody : ∀ i is s f, I (i :: is) s → Pte.target level ((ram s).entry t i) = some f →
      Outcome (body i f s) (I is) E)
    {is : List Nat} {s : σ} (h : I is s) : Outcome (forEntries ram level t body is s) (I []) E := by
  induction is generalizing s with
  | nil => exact .of_ok rfl h
  | cons i is ih =>
    rw [forEntries]
    split
    · rename_i hnone
      exact ih (hskip i is s h hnone)
    rename_i f hsome
    have hout := hbody i is s f h hsome
    split
    · rename_i e he
      exact .of_error rfl (hout.error e he)
    · rename_i s' hs'
      exact ih (hout.ok s' hs')

/-- The indices of a table that the loops of the source visit. -/
def entryIndices (level : Nat) : List Nat := List.range (entryCount level)

/-! ## Teardown -/

/-- The loop of `free_user_address_space` over a table of the given level. -/
def freeLevel : (level t : Nat) → Machine → Except Panic Machine
  | 0, t, s =>
    forEntries Machine.ram 0 t (fun _ frame s => s.decref frame) (entryIndices 0) s
  | level + 1, t, s =>
    forEntries Machine.ram (level + 1) t
      (fun _ table s =>
        match freeLevel level table s with
        | .error e => .error e
        | .ok s => s.freeFrame table)
      (entryIndices (level + 1)) s

def freeUserAddressSpace (s : Machine) (pml4 : Nat) : Except Panic Machine :=
  match freeLevel 3 pml4 s with
  | .error e => .error e
  | .ok s => s.freeFrame pml4

/-! ## Copy-on-write fork -/

/-- The state of `copy_user_pages`: the machine and the two rollback lists. -/
structure CopyState where
  machine : Machine
  allocatedFrames : List Nat
  increfFrames : List Nat

/-- How the body of `copy_user_pages` can stop early. -/
inductive CopyStop
  | panic (p : Panic)
  /-- `alloc_frame` returned `None`; the rollback starts from this state. -/
  | outOfMemory (st : CopyState)

namespace CopyState

def ram (st : CopyState) : PhysMem := st.machine.ram

/-- The flags of every table that `copy_user_pages` links. -/
def tableFlags : Word := Pte.PRESENT ||| Pte.WRITABLE ||| Pte.USER_ACCESSIBLE

/-- Allocate, record, zero and link a table for the child. -/
def newTable (st : CopyState) (childTable i : Nat) : Except CopyStop (Nat × CopyState) :=
  match st.machine.allocFrame with
  | none => .error (.outOfMemory st)
  | some (frame, s) =>
    let ram := s.ram.zeroPage frame
    let ram := ram.setEntry childTable i (Pte.setAddr frame tableFlags)
    .ok (frame, { st with
      machine := { s with ram := ram }
      allocatedFrames := st.allocatedFrames ++ [frame] })

/-- The body of the innermost loop: share the frame of one leaf entry, read-only on both
sides. -/
def shareLeaf (st : CopyState) (parentTable childTable i frame : Nat) :
    Except CopyStop CopyState :=
  let flags := Pte.flags (st.ram.entry parentTable i) &&& ~~~Pte.WRITABLE
  match st.machine.incref frame with
  | .error p => .error (.panic p)
  | .ok s =>
    let ram := s.ram.setEntry childTable i (Pte.setAddr frame flags)
    let parentAddr := Pte.addr (ram.entry parentTable i)
    let ram := ram.setEntry parentTable i (Pte.setAddr parentAddr flags)
    .ok { st with
      machine := { s with ram := ram }
      increfFrames := st.increfFrames ++ [frame] }

end CopyState

/-- The loop of `copy_user_pages` over a parent table of the given level and the child table
that mirrors it. -/
def copyLevel : (level parentTable childTable : Nat) → CopyState → Except CopyStop CopyState
  | 0, parentTable, childTable, st =>
    forEntries CopyState.ram 0 parentTable
      (fun i frame st => st.shareLeaf parentTable childTable i frame) (entryIndices 0) st
  | level + 1, parentTable, childTable, st =>
    forEntries CopyState.ram (level + 1) parentTable
      (fun i table st =>
        match st.newTable childTable i with
        | .error e => .error e
        | .ok (childSub, st) => copyLevel level table childSub st)
      (entryIndices (level + 1)) st

/-- The rollback of `copy_user_pages`. -/
def rollback (st : CopyState) : Except Panic Machine := do
  let s ← st.allocatedFrames.foldlM (fun s f => s.freeFrame f) st.machine
  st.increfFrames.foldlM (fun s f => s.decref f) s

/-- `copy_user_pages`; the boolean is `true` for `Ok(())`. -/
def copyUserPages (s : Machine) (parentPml4 childPml4 : Nat) : Except Panic (Bool × Machine) :=
  match copyLevel 3 parentPml4 childPml4 ⟨s, [], []⟩ with
  | .ok st => .ok (true, st.machine)
  | .error (.panic p) => .error p
  | .error (.outOfMemory st) =>
    match rollback st with
    | .error p => .error p
    | .ok s => .ok (false, s)

/-! ## Copy-on-write faults -/

/-- `handle_cow_fault` with `cr3` in CR3; the boolean is `true` for `Ok(())`. -/
def handleCowFault (s : Machine) (cr3 va : Nat) : Except Panic (Bool × Machine) :=
  match walkPageTableToPte s.ram cr3 va with
  | none => .ok (false, s)
  | some (pt, i) =>
    let pte := s.ram.entry pt i
    let frame := Pte.addr pte
    let flags := Pte.flags pte
    match s.pmm.getRefcount frame with
    | .error p => .error p
    | .ok refcount =>
      if 1 < refcount then
        match s.allocFrame with
        | none => .ok (false, s)
        | some (newFrame, s) =>
          let ram := s.ram.copyPage frame newFrame
          let ram := ram.setEntry pt i (Pte.setAddr newFrame (flags ||| Pte.WRITABLE))
          match ({ s with ram := ram } : Machine).decref frame with
          | .error p => .error p
          | .ok s => .ok (true, s)
      else if ¬ Pte.isWritable flags then
        .ok
          (true, { s with ram := s.ram.setEntry pt i (Pte.setFlags pte (flags ||| Pte.WRITABLE)) })
      else .ok (false, s)

end Indominus.Memory
