import Indominus.Lib.Sectors
import Indominus.Fs.Ramfs

/-!
# The block device under a FAT volume

A device stores what is written, refuses addresses behind its end, and keeps the list of its writes.
 A driver function is a program of `FatM`: it can fail at every step, and the writes before stay.
-/

namespace Indominus.Fat

open Fs Lib.Bytes Lib.Sectors

structure Device where
  bytes : Image
  /-- `total_sectors`. -/
  count : Nat
  log : List (Nat × Image)

/-- What stops a driver function: an error it returns, or a panic. -/
inductive Fault
  | err (e : VfsError)
  | halt
  deriving DecidableEq, Repr

def FatM (α : Type) := Device → Except Fault α × Device

namespace FatM

variable {α β : Type} {x : FatM α} {f : α → FatM β} {d d' : Device}

def andThen (x : FatM α) (f : α → FatM β) : FatM β := fun d =>
  match x d with
  | (.ok a, d') => f a d'
  | (.error e, d') => (.error e, d')

instance : Monad FatM where
  pure a d := (.ok a, d)
  bind := andThen

def fail (e : VfsError) : FatM α := fun d => (.error (.err e), d)

def halt : FatM α := fun d => (.error .halt, d)

def attempt (x : FatM α) : FatM (Option α) := fun d =>
  match x d with
  | (.ok a, d') => (.ok (some a), d')
  | (.error (.err _), d') => (.ok none, d')
  | (.error .halt, d') => (.error .halt, d')

lemma pure_apply (a : α) : (pure a : FatM α) d = (.ok a, d) := rfl

lemma bind_ok {a : α} (h : x d = (.ok a, d')) : (x >>= f) d = f a d' := by
  show andThen x f d = _
  rw [andThen, h]

lemma exists_device {r : Except Fault α} (h : (x d).1 = r) : ∃ d', x d = (r, d') := by
  subst h
  exact ⟨(x d).2, rfl⟩

lemma attempt_ok {a : α} (h : x d = (.ok a, d')) : attempt x d = (.ok (some a), d') := by
  rw [attempt, h]

end FatM

namespace Device

def after (d : Device) (ws : List (Nat × Image)) : Device :=
  { d with bytes := applyWrites d.bytes ws, log := d.log ++ ws }

@[simp] lemma after_nil (d : Device) : d.after [] = d := by
  rw [after, applyWrites_nil, List.append_nil]

@[simp] lemma after_after (d : Device) (ws ws' : List (Nat × Image)) :
    (d.after ws).after ws' = d.after (ws ++ ws') := by
  simp [after, applyWrites_append]

end Device

def readSector (n : Nat) : FatM Image := fun d =>
  if n < d.count then (.ok (sectorAt d.bytes n), d) else (.error (.err .ioError), d)

def writeSector (n : Nat) (buf : Image) : FatM Unit := fun d =>
  if n < d.count then (.ok (), d.after [(n, buf)]) else (.error (.err .ioError), d)

variable {d : Device} {n : Nat} {buf : Image}

lemma readSector_ok (h : n < d.count) : readSector n d = (.ok (sectorAt d.bytes n), d) :=
  if_pos h

lemma writeSector_ok (h : n < d.count) : writeSector n buf d = (.ok (), d.after [(n, buf)]) :=
  if_pos h

end Indominus.Fat
