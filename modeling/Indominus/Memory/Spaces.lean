import Indominus.Memory.Vmm

/-!
# Address spaces at work

A store through an entry without `WRITABLE` goes to `handle_cow_fault` and is tried again.  The TLB
agrees with the tables.
-/

namespace Indominus.Memory

open Lib

/-- A slot for an address space: there are as many as processes. -/
abbrev SpaceId := Fin 32

/-- The machine and the PML4 frames of the address spaces that are alive. -/
structure Spaces where
  machine : Machine
  /-- The kernel's PML4, whose upper half every new space gets. -/
  kernelPml4 : Nat
  roots : SpaceId → Option Nat

inductive SpaceOp
  | read (id : SpaceId) (va : Nat)
  | write (id : SpaceId) (va : Nat) (b : Byte)
  | fork (parent child : SpaceId)
  | free (id : SpaceId)

/-- Why a run can end early. -/
inductive Stop
  | panic (p : Panic)
  /-- `alloc_frame` returned `None`. -/
  | outOfMemory
  /-- A write fault was not resolved although there were frames. -/
  | unresolved
  deriving DecidableEq

/-! ## Loads and stores -/

def leafPte (m : PhysMem) (T va : Nat) : Option Word :=
  if va < USER_SPACE_END then (walkPageTableToPte m T va).map fun c => m.entry c.1 c.2 else none

def physAddr (e : Word) (va : Nat) : Nat := Pte.addr e * PAGE_SIZE + va % PAGE_SIZE

/-- The byte that a load returns; `none` is a page fault. -/
def loadByte (m : PhysMem) (T va : Nat) : Option Byte :=
  (leafPte m T va).map fun e => m.byte (physAddr e va)

/-- A store with the given number of tries.  A store to an address that is not mapped writes
nothing. -/
def storeByte (T va : Nat) (b : Byte) : (tries : Nat) → Machine → Except Stop Machine
  | 0, _ => .error .unresolved
  | tries + 1, s =>
    match leafPte s.ram T va with
    | none => .ok s
    | some e =>
      if Pte.isWritable e then .ok { s with ram := s.ram.setByte (physAddr e va) b }
      else
        match handleCowFault s T va with
        | .error p => .error (.panic p)
        | .ok (false, _) => .error (if s.allocFrame.isNone then .outOfMemory else .unresolved)
        | .ok (true, s) => storeByte T va b tries s

/-! ## Steps and runs -/

namespace Spaces

/-- `create_user_pml4`, then `copy_user_pages`. -/
def fork (S : Spaces) (parent child : SpaceId) : Except Stop Spaces :=
  match S.roots parent, S.roots child with
  | some p, none =>
    match createUserPml4 S.machine S.kernelPml4 with
    | .error .outOfMemoryForPml4 => .error .outOfMemory
    | .error e => .error (.panic e)
    | .ok (c, s) =>
      match copyUserPages s p c with
      | .error e => .error (.panic e)
      | .ok (false, _) => .error .outOfMemory
      | .ok (true, s) =>
        .ok { S with machine := s, roots := Function.update S.roots child (some c) }
  | _, _ => .ok S

/-- `free_user_address_space`. -/
def free (S : Spaces) (id : SpaceId) : Except Stop Spaces :=
  match S.roots id with
  | none => .ok S
  | some T =>
    match freeUserAddressSpace S.machine T with
    | .error e => .error (.panic e)
    | .ok s => .ok { S with machine := s, roots := Function.update S.roots id none }

/-- A store of the given space; after a fault that was resolved it is tried once more. -/
def write (S : Spaces) (id : SpaceId) (va : Nat) (b : Byte) : Except Stop Spaces :=
  match S.roots id with
  | none => .ok S
  | some T =>
    match storeByte T va b 2 S.machine with
    | .error e => .error e
    | .ok s => .ok { S with machine := s }

def read (S : Spaces) (id : SpaceId) (va : Nat) : Option Byte :=
  (S.roots id).bind fun T => loadByte S.machine.ram T va

/-- One operation; the second component is what a read returns. -/
def step (S : Spaces) : SpaceOp → Except Stop (Spaces × Option Byte)
  | .read id va => .ok (S, S.read id va)
  | .write id va b => (S.write id va b).map fun S => (S, none)
  | .fork parent child => (S.fork parent child).map fun S => (S, none)
  | .free id => (S.free id).map fun S => (S, none)

def run : List SpaceOp → Spaces → Except Stop (Spaces × List (Option Byte))
  | [], S => .ok (S, [])
  | op :: ops, S =>
    match S.step op with
    | .error e => .error e
    | .ok (S, out) =>
      match run ops S with
      | .error e => .error e
      | .ok (S, outs) => .ok (S, out :: outs)

end Spaces

end Indominus.Memory
