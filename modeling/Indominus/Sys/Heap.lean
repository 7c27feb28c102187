import Indominus.Sys.Fd

/-!
# User memory: `brk`, `mmap`, `munmap` and address-space randomisation
(`syscall/mod.rs`, `aslr.rs`)

64-bit arithmetic wraps.  The search of `sys_mmap` gets more rounds than there are pages.
-/

namespace Indominus.Sys

open Memory

/-! ## Address-space randomisation -/

def USER_STACK_TOP : Nat := 0x00007FFFFFFF0000

def USER_HEAP_BASE : Nat := 0x0000400000000000

def USER_MMAP_BASE : Nat := 0x0000200000000000

/-- `next_u64`: one step of xorshift64. -/
def nextU64 (x : Word) : Word :=
  let x := x ^^^ (x <<< 13)
  let x := x ^^^ (x >>> 7)
  x ^^^ (x <<< 17)

namespace Kernel

/-- `random_page_offset`: a multiple of 4096 below `slots * 4096`. -/
def randomPageOffset (k : Kernel) (slots : Nat) : Nat × Kernel :=
  let x := nextU64 k.prng
  (x.toNat % slots * 4096, { k with prng := x })

def randomizeStackBase (k : Kernel) : Nat × Kernel :=
  let (offset, k) := k.randomPageOffset 16
  (USER_STACK_TOP - offset, k)

def randomizeMmapBase (k : Kernel) : Nat × Kernel :=
  let (offset, k) := k.randomPageOffset 32
  (USER_MMAP_BASE + offset, k)

def randomizeHeapBase (k : Kernel) : Nat × Kernel :=
  let (offset, k) := k.randomPageOffset 64
  (USER_HEAP_BASE + offset, k)

end Kernel

/-- `PRESENT | WRITABLE | USER_ACCESSIBLE`: the flags of heap and mapped pages. -/
def userPageFlags : Word := Pte.PRESENT ||| Pte.WRITABLE ||| Pte.USER_ACCESSIBLE

/-! ## Mapping and unmapping one page -/

/-- Allocate a frame and map it, without clearing it, as `sys_brk` and `sys_mmap` do.
`none` means that no frame was left. -/
def mapFreshPage (M : Mapper) (s : Machine) (pml4 va : Nat) : Except Panic (Option Machine) :=
  match s.allocFrame with
  | none => .ok none
  | some (frame, s) =>
    match mapPage M s pml4 va frame userPageFlags with
    | .error e => .error e
    | .ok s => .ok (some s)

/-- Unmap a page if it is mapped and give its frame to `release` (`free_frame` or
`decref`). -/
def dropPage (M : Mapper) (release : Machine → Nat → Except Panic Machine) (s : Machine)
    (pml4 va : Nat) : Except Panic Machine :=
  match translateAddr M s pml4 va with
  | none => .ok s
  | some phys =>
    match unmapPage M s pml4 va with
    | .error e => .error e
    | .ok (_, s) => release s phys

/-- `VirtAddr::new(addr)`, then go on. -/
def withVirt {α : Type} (addr : Nat) (f : Nat → Except Panic α) : Except Panic α :=
  match virtAddrNew addr with
  | .error e => .error e
  | .ok va => f va

/-! ## `sys_brk` -/

def BRK_MAX : Nat := 0x00007FFFFFFFF000

/-- The growing loop of `sys_brk`: `n` bounds the number of pages.  Returns the address
reached. -/
def growHeap (M : Mapper) (pml4 newEnd : Nat) : (n addr : Nat) → Machine →
    Except Panic (Nat × Machine)
  | 0, addr, s => .ok (addr, s)
  | n + 1, addr, s =>
    if addr < newEnd then
      withVirt addr fun va =>
        if (translateAddr M s pml4 va).isNone then
          match mapFreshPage M s pml4 va with
          | .error e => .error e
          | .ok none => .ok (addr, s)
          | .ok (some s) => growHeap M pml4 newEnd n (addr + PAGE_SIZE) s
        else growHeap M pml4 newEnd n (addr + PAGE_SIZE) s
    else .ok (addr, s)

/-- The shrinking loop of `sys_brk`: every mapped page goes to `free_frame`. -/
def shrinkHeap (M : Mapper) (pml4 oldEnd : Nat) : (n addr : Nat) → Machine →
    Except Panic Machine
  | 0, _, s => .ok s
  | n + 1, addr, s =>
    if addr < oldEnd then
      withVirt addr fun va =>
        match dropPage M Machine.freeFrame s pml4 va with
        | .error e => .error e
        | .ok s => shrinkHeap M pml4 oldEnd n (addr + PAGE_SIZE) s
    else .ok s

/-- How many pages a loop from `a` to `b` in steps of `PAGE_SIZE` takes. -/
def pageSteps (a b : Nat) : Nat := (b - a + PAGE_SIZE - 1) / PAGE_SIZE

namespace Kernel

/-- The heap of the running process, placed at a random base on first use. -/
def initHeap (k : Kernel) (p : Process) : Process × Kernel :=
  if p.heapStart = 0 then
    let (base, k) := k.randomizeHeapBase
    ({ p with heapStart := base, heapEnd := base }, k)
  else (p, k)

def sysBrk (M : Mapper) (k : Kernel) (newBrk : Nat) : CallOutcome :=
  match k.current with
  | none => .ok (.error .ESRCH, k)
  | some (pid, p) =>
    let (p, k) := k.initHeap p
    let k := k.setProc pid (some p)
    if newBrk = 0 then .ok (.ok p.heapEnd, k)
    else if newBrk < p.heapStart then .ok (.ok p.heapEnd, k)
    else if newBrk > BRK_MAX then .ok (.error .ENOMEM, k)
    else if newBrk > p.heapEnd then
      match growHeap M p.pml4Phys newBrk (pageSteps p.heapEnd newBrk) p.heapEnd k.machine with
      | .error e => .error e
      | .ok (addr, s) =>
        .ok (.ok addr, { k with machine := s }.setProc pid (some { p with heapEnd := addr }))
    else if newBrk < p.heapEnd then
      match shrinkHeap M p.pml4Phys p.heapEnd (pageSteps newBrk p.heapEnd) newBrk k.machine with
      | .error e => .error e
      | .ok s =>
        .ok (.ok newBrk, { k with machine := s }.setProc pid (some { p with heapEnd := newBrk }))
    else .ok (.ok p.heapEnd, k)

end Kernel

/-! ## `sys_mmap` -/

def wadd (a b : Nat) : Nat := (a + b) % 2 ^ 64

def wmul (a b : Nat) : Nat := a * b % 2 ^ 64

/-- `(length + PAGE_SIZE - 1) / PAGE_SIZE`. -/
def pagesFor (length : Nat) : Nat := wadd length (PAGE_SIZE - 1) / PAGE_SIZE

/-- The first region that overlaps the candidate: where it ends. -/
def overlapEnd (base numPages : Nat) : List (Nat × Nat) → Option Nat
  | [] => none
  | (existingBase, existingPages) :: rs =>
    let existingEnd := wadd existingBase (wmul existingPages PAGE_SIZE)
    if base < existingEnd ∧ existingBase < wadd base (wmul numPages PAGE_SIZE) then
      some existingEnd
    else overlapEnd base numPages rs

/-- The scan of the candidate's pages: the first mapped one among `n` pages from index `i`
on. -/
def firstMapped (M : Mapper) (s : Machine) (pml4 base : Nat) : (n i : Nat) →
    Except Panic (Option Nat)
  | 0, _ => .ok none
  | n + 1, i =>
    withVirt (wadd base (wmul i PAGE_SIZE)) fun va =>
      if (translateAddr M s pml4 va).isSome then .ok (some i)
      else firstMapped M s pml4 base n (i + 1)

/-- The search loop of `sys_mmap`; `none` when the address space below the stack is used
up. -/
def findRegion (M : Mapper) (s : Machine) (pml4 numPages : Nat) (regions : List (Nat × Nat)) :
    (fuel base : Nat) → Except Panic (Option Nat)
  | 0, _ => .error .halt
  | fuel + 1, base =>
    match overlapEnd base numPages regions with
    | some existingEnd => findRegion M s pml4 numPages regions fuel existingEnd
    | none =>
      if wadd base (wmul numPages PAGE_SIZE) > USER_STACK_TOP - 5 * PAGE_SIZE then .ok none
      else
        match firstMapped M s pml4 base numPages 0 with
        | .error e => .error e
        | .ok none => .ok (some base)
        | .ok (some i) =>
          findRegion M s pml4 numPages regions fuel (wadd base (wmul (i + 1) PAGE_SIZE))

/-- The rollback of `sys_mmap`: `n` pages from index `j` on. -/
def unmapMapped (M : Mapper) (pml4 base : Nat) : (n j : Nat) → Machine → Except Panic Machine
  | 0, _, s => .ok s
  | n + 1, j, s =>
    withVirt (wadd base (wmul j PAGE_SIZE)) fun va =>
      match dropPage M Machine.freeFrame s pml4 va with
      | .error e => .error e
      | .ok s => unmapMapped M pml4 base n (j + 1) s

/-- The mapping loop of `sys_mmap`; `false` means that it ran out of frames and unmapped what
it had mapped. -/
def mapRegion (M : Mapper) (pml4 base : Nat) : (n i : Nat) → Machine →
    Except Panic (Bool × Machine)
  | 0, _, s => .ok (true, s)
  | n + 1, i, s =>
    withVirt (wadd base (wmul i PAGE_SIZE)) fun va =>
      match mapFreshPage M s pml4 va with
      | .error e => .error e
      | .ok none =>
        match unmapMapped M pml4 base i 0 s with
        | .error e => .error e
        | .ok s => .ok (false, s)
      | .ok (some s) => mapRegion M pml4 base n (i + 1) s

/-- More rounds than the search of `sys_mmap` can take before it leaves the user half. -/
def searchFuel : Nat := 2 ^ 53

namespace Kernel

/-- `sys_mmap`; the address hint is ignored. -/
def sysMmap (M : Mapper) (k : Kernel) (length : Nat) : CallOutcome :=
  if length = 0 then .ok (.error .EINVAL, k)
  else
    match k.current with
    | none => .ok (.error .ESRCH, k)
    | some (pid, p) =>
      if p.pml4Phys = 0 then .ok (.error .ESRCH, k)
      else if MAX_MMAP_REGIONS ≤ p.mmapRegions.length then .ok (.error .ENOMEM, k)
      else
        let numPages := pagesFor length
        let (start, k) := k.randomizeMmapBase
        match findRegion M k.machine p.pml4Phys numPages p.mmapRegions searchFuel start with
        | .error e => .error e
        | .ok none => .ok (.error .ENOMEM, k)
        | .ok (some base) =>
          match mapRegion M p.pml4Phys base numPages 0 k.machine with
          | .error e => .error e
          | .ok (false, s) => .ok (.error .ENOMEM, { k with machine := s })
          | .ok (true, s) =>
            .ok (.ok base, { k with machine := s }.setProc pid
              (some { p with mmapRegions := p.mmapRegions ++ [(base, numPages)] }))

end Kernel

/-! ## `sys_munmap` -/

/-- The index and the region that contains the range, if any. -/
def findContaining (addr end_ : Nat) : List (Nat × Nat) → (i : Nat) → Option (Nat × Nat × Nat)
  | [], _ => none
  | (base, pages) :: rs, i =>
    if base ≤ addr ∧ end_ ≤ wadd base (wmul pages PAGE_SIZE) then some (i, base, pages)
    else findContaining addr end_ rs (i + 1)

/-- The unmapping loop of `sys_munmap`: every mapped page loses a reference. -/
def unmapRegion (M : Mapper) (pml4 base : Nat) : (n j : Nat) → Machine → Except Panic Machine
  | 0, _, s => .ok s
  | n + 1, j, s =>
    withVirt (wadd base (wmul j PAGE_SIZE)) fun va =>
      match dropPage M Machine.decref s pml4 va with
      | .error e => .error e
      | .ok s => unmapRegion M pml4 base n (j + 1) s

namespace Kernel

def sysMunmap (M : Mapper) (k : Kernel) (addr length : Nat) :
    CallOutcome :=
  if length = 0 ∨ addr = 0 then .ok (.error .EINVAL, k)
  else
    let end_ := wadd addr (wmul (pagesFor length) PAGE_SIZE)
    match k.current with
    | none => .ok (.error .ESRCH, k)
    | some (pid, p) =>
      match findContaining addr end_ p.mmapRegions 0 with
      | none => .ok (.error .EINVAL, k)
      | some (i, base, pages) =>
        match unmapRegion M p.pml4Phys base pages 0 k.machine with
        | .error e => .error e
        | .ok s =>
          .ok (.ok 0, { k with machine := s }.setProc pid
            (some { p with mmapRegions := p.mmapRegions.eraseIdx i }))

end Kernel

end Indominus.Sys
