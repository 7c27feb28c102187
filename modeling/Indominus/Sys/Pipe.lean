import Indominus.Memory.PageTable

/-!
# Pipes (`process/pipe.rs`)

The loops of `sys_read` and `sys_write` run under the lock, so each is one step on the pipe.
-/

namespace Indominus.Sys

open Lib
open Memory (Byte)

def PIPE_SIZE : Nat := 512

/-- A pipe.  `nread` and `nwrite` are 32-bit, `refcount` 16-bit unsigned counters. -/
structure Pipe where
  data : Store Byte
  nread : Nat
  nwrite : Nat
  readOpen : Bool
  writeOpen : Bool
  refcount : Nat

namespace Pipe

def new : Pipe where
  data := Store.const 0
  nread := 0
  nwrite := 0
  readOpen := true
  writeOpen := true
  refcount := 2

/-- `pipe_close`. -/
def close (p : Pipe) (writable : Bool) : Pipe :=
  if writable then { p with writeOpen := false } else { p with readOpen := false }

/-! ## The byte loops of `sys_read` and `sys_write` -/

/-- The copy loop of `sys_read`; `nwrite - nread` rounds are enough. -/
def readLoop (data : Store Byte) (count nread nwrite : Nat) : (fuel totalRead : Nat) → List Byte
  | 0, _ => []
  | fuel + 1, totalRead =>
    if totalRead < count ∧ nread + totalRead < nwrite then
      data.get ((nread + totalRead) % PIPE_SIZE) ::
        readLoop data count nread nwrite fuel (totalRead + 1)
    else []

/-- What `sys_read` finds in a pipe. -/
inductive ReadOutcome
  /-- Bytes to deliver, and the pipe after the counter was stored back. -/
  | bytes (bs : List Byte) (p : Pipe)
  | eof
  | block

/-- The pipe part of `sys_read` for a buffer of `count` bytes. -/
def read (p : Pipe) (count : Nat) : ReadOutcome :=
  let bs := readLoop p.data count p.nread p.nwrite (p.nwrite - p.nread) 0
  if 0 < bs.length then
    .bytes bs { p with nread := (p.nread + bs.length) % 2 ^ 32 }
  else if ¬ p.writeOpen then .eof
  else .block

/-- The "pipe full" test of `sys_write`. -/
def isFull (p : Pipe) : Bool :=
  p.nwrite == 2 ^ 32 - 1 || decide ((p.nread + PIPE_SIZE) % 2 ^ 32 ≤ p.nwrite)

def push (p : Pipe) (b : Byte) : Pipe :=
  { p with
    data := p.data.set (p.nwrite % PIPE_SIZE) b
    nwrite := (p.nwrite + 1) % 2 ^ 32 }

/-- The loop of `sys_write`: the pipe, the bytes written, and whether the pipe was full. -/
def writeLoop (p : Pipe) (written : Nat) : List Byte → Pipe × Nat × Bool
  | [] => (p, written, false)
  | b :: bs => if p.isFull then (p, written, true) else writeLoop (p.push b) (written + 1) bs

end Pipe

end Indominus.Sys
