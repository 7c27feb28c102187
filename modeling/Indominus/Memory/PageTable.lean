import Indominus.Lib.Radix
import Indominus.Memory.Pmm

/-!
# Physical memory and page-table entries

Tables and data live in the same store: a frame is 512 words, an entry is a word, a byte is a part
of one.
-/

namespace Indominus.Memory

open Lib BitVec

abbrev Word := BitVec 64

abbrev Byte := BitVec 8

/-! ## Bytes of a word -/

/-- Byte `k` of a little-endian word. -/
def getByte (w : Word) (k : Nat) : Byte := (w >>> (8 * k)).setWidth 8

/-- A word with byte `k` replaced. -/
def setByte (w : Word) (k : Nat) (b : Byte) : Word :=
  (w &&& ~~~(0xFF#64 <<< (8 * k))) ||| (b.setWidth 64 <<< (8 * k))

lemma getLsbD_byteMask (m : Nat) : (0xFF#64).getLsbD m = decide (m < 8) := by
  rw [getLsbD_ofNat, show (255 : Nat) = 2 ^ 8 - 1 from rfl, Nat.testBit_two_pow_sub_one]
  by_cases h : m < 8
  · simp [h, show m < 64 by omega]
  · simp [h]

lemma getLsbD_setByte (w : Word) (k : Nat) (b : Byte) {n : Nat} (hn : n < 64) :
    (setByte w k b).getLsbD n =
      if 8 * k ≤ n ∧ n < 8 * k + 8 then b.getLsbD (n - 8 * k) else w.getLsbD n := by
  simp only [setByte, getLsbD_or, getLsbD_and, getLsbD_not,
    getLsbD_shiftLeft, getLsbD_setWidth, getLsbD_byteMask, hn, decide_true,
    Bool.true_and]
  by_cases hlo : n < 8 * k
  · simp [hlo]
  by_cases hhi : n - 8 * k < 8
  · rw [if_pos (by omega)]
    simp [hlo, hhi, show n - 8 * k < 64 by omega]
  · rw [if_neg (by omega)]
    simp [hlo, hhi, getLsbD_of_ge b (n - 8 * k) (by omega)]

lemma getByte_setByte {k j : Nat} (hj : j < 8) (w : Word) (b : Byte) :
    getByte (setByte w k b) j = if j = k then b else getByte w j := by
  refine eq_of_getLsbD_eq fun i hi => ?_
  rw [getByte, getLsbD_setWidth, getLsbD_ushiftRight,
    getLsbD_setByte w k b (by omega)]
  split
  · obtain rfl : j = k := by omega
    simp [hi]
  · rw [if_neg (by omega), getByte, getLsbD_setWidth, getLsbD_ushiftRight]

/-! ## Physical memory -/

abbrev Page := Store Word

def PhysMem := Store Page

namespace PhysMem

def page (m : PhysMem) (frame : Nat) : Page := Store.get m frame

def setPage (m : PhysMem) (frame : Nat) (p : Page) : PhysMem := Store.set m frame p

/-- Word `index` of a frame. -/
def entry (m : PhysMem) (frame index : Nat) : Word := (m.page frame).get index

def setEntry (m : PhysMem) (frame index : Nat) (w : Word) : PhysMem :=
  m.setPage frame ((m.page frame).set index w)

/-- `write_bytes(frame, 0, PAGE_SIZE)`. -/
def zeroPage (m : PhysMem) (frame : Nat) : PhysMem := m.setPage frame (Store.const 0)

/-- `copy_nonoverlapping(src, dst, 4096)`. -/
def copyPage (m : PhysMem) (src dst : Nat) : PhysMem := m.setPage dst (m.page src)

def byte (m : PhysMem) (addr : Nat) : Byte :=
  getByte (m.entry (addr / PAGE_SIZE) (addr % PAGE_SIZE / 8)) (addr % 8)

def setByte (m : PhysMem) (addr : Nat) (b : Byte) : PhysMem :=
  m.setEntry (addr / PAGE_SIZE) (addr % PAGE_SIZE / 8)
    (Memory.setByte (m.entry (addr / PAGE_SIZE) (addr % PAGE_SIZE / 8)) (addr % 8) b)

def writeBytes (m : PhysMem) (addr : Nat) : List Byte → PhysMem
  | [] => m
  | b :: bs => (m.setByte addr b).writeBytes (addr + 1) bs

def tables (m : PhysMem) : Nat → Nat → Word := fun frame index => m.entry frame index

variable (m : PhysMem)

lemma page_setPage (f g : Nat) (p : Page) :
    (m.setPage f p).page g = if g = f then p else m.page g :=
  Store.get_set ..

lemma entry_setEntry (t i g j : Nat) (w : Word) :
    (m.setEntry t i w).entry g j = if g = t ∧ j = i then w else m.entry g j := by
  rw [entry, setEntry, page_setPage]
  by_cases hg : g = t
  · subst hg
    simp [Store.get_set, entry]
  · simp [hg, entry]

@[simp] lemma entry_zeroPage_self (f j : Nat) : (m.zeroPage f).entry f j = 0 := by
  simp [entry, zeroPage, page_setPage]

variable {m} {f g : Nat}

lemma page_setEntry_of_ne {i : Nat} {w : Word} (h : g ≠ f) :
    (m.setEntry f i w).page g = m.page g := by
  simp [setEntry, page_setPage, h]

lemma page_zeroPage_of_ne (h : g ≠ f) : (m.zeroPage f).page g = m.page g := by
  simp [zeroPage, page_setPage, h]

lemma page_copyPage (src : Nat) :
    (m.copyPage src f).page g = if g = f then m.page src else m.page g :=
  page_setPage ..

variable {addr : Nat} {b : Byte} {bs : List Byte} {m' : PhysMem}

lemma page_setByte_of_ne (h : g ≠ addr / PAGE_SIZE) : (m.setByte addr b).page g = m.page g :=
  page_setEntry_of_ne h

lemma page_writeBytes_of_ne (h : ∀ a, addr ≤ a → a < addr + bs.length → a / PAGE_SIZE ≠ g) :
    (m.writeBytes addr bs).page g = m.page g := by
  induction bs generalizing m addr with
  | nil => rfl
  | cons b bs ih =>
    have hhead : g ≠ addr / PAGE_SIZE := (h addr le_rfl (by simp)).symm
    rw [writeBytes, ih fun a h1 h2 => h a (by omega) (by simp; omega), page_setByte_of_ne hhead]

lemma page_writeBytes_within {off : Nat} (hoff : off + bs.length ≤ PAGE_SIZE) (h : g ≠ f) :
    (m.writeBytes (f * PAGE_SIZE + off) bs).page g = m.page g := by
  refine page_writeBytes_of_ne fun a h1 h2 => ?_
  have hdiv : a / PAGE_SIZE = f := by
    simp only [PAGE_SIZE] at *
    omega
  rw [hdiv]
  exact h.symm

lemma byte_setByte {addr' : Nat} :
    (m.setByte addr b).byte addr' = if addr' = addr then b else m.byte addr' := by
  rw [byte, setByte, entry_setEntry]
  by_cases hcell : addr' / PAGE_SIZE = addr / PAGE_SIZE ∧
      addr' % PAGE_SIZE / 8 = addr % PAGE_SIZE / 8
  · rw [if_pos hcell, ← hcell.1, ← hcell.2, getByte_setByte (Nat.mod_lt _ (by decide))]
    have hiff : addr' % 8 = addr % 8 ↔ addr' = addr := by
      simp only [PAGE_SIZE] at hcell
      omega
    simp only [hiff]
    rfl
  · rw [if_neg hcell, if_neg (by rintro rfl; exact hcell ⟨rfl, rfl⟩)]
    rfl

lemma tables_of_page (h : m.page g = m'.page g) : m.tables g = m'.tables g := by
  funext i
  simp only [tables, entry, h]

lemma entry_of_page (h : m.page g = m'.page g) (i : Nat) : m.entry g i = m'.entry g i :=
  congrFun (tables_of_page h) i

lemma byte_of_page (h : m.page (addr / PAGE_SIZE) = m'.page (addr / PAGE_SIZE)) :
    m.byte addr = m'.byte addr := by
  rw [byte, byte, entry_of_page h]

lemma byte_frame (m : PhysMem) (f va : Nat) :
    m.byte (f * PAGE_SIZE + va % PAGE_SIZE) =
      getByte ((m.page f).get (va % PAGE_SIZE / 8)) (va % PAGE_SIZE % 8) := by
  have hdiv : (f * PAGE_SIZE + va % PAGE_SIZE) / PAGE_SIZE = f := by
    simp only [PAGE_SIZE]
    omega
  have hmod : (f * PAGE_SIZE + va % PAGE_SIZE) % PAGE_SIZE = va % PAGE_SIZE := by
    simp only [PAGE_SIZE]
    omega
  have hlow : (f * PAGE_SIZE + va % PAGE_SIZE) % 8 = va % PAGE_SIZE % 8 := by
    simp only [PAGE_SIZE]
    omega
  rw [byte, hdiv, hmod, hlow, entry]

lemma writes_setEntry (t i : Nat) (w : Word) :
    Radix.Writes m.tables (m.setEntry t i w).tables t i w where
  at_cell := by simp [tables, entry_setEntry]
  at_row j hj := by simp [tables, entry_setEntry, hj]
  elsewhere g hg := tables_of_page (page_setEntry_of_ne hg)

end PhysMem

structure Machine where
  pmm : Pmm
  ram : PhysMem

/-! ## Page-table entries -/

namespace Pte

def PRESENT : Word := 0x1#64

def WRITABLE : Word := 0x2#64

def USER_ACCESSIBLE : Word := 0x4#64

def HUGE_PAGE : Word := 0x80#64

def NO_EXECUTE : Word := 0x8000000000000000#64

/-- The bits of an entry that hold the physical address. -/
def ADDR_MASK : Word := 0x000ffffffffff000#64

/-- `flags().contains(PRESENT)`. -/
def isPresent (e : Word) : Bool := e.getLsbD 0

/-- `flags().contains(WRITABLE)`. -/
def isWritable (e : Word) : Bool := e.getLsbD 1

/-- `flags().contains(USER_ACCESSIBLE)`. -/
def isUser (e : Word) : Bool := e.getLsbD 2

/-- `flags().contains(HUGE_PAGE)`. -/
def isHuge (e : Word) : Bool := e.getLsbD 7

/-- `addr()`, as a frame index. -/
def addr (e : Word) : Nat := ((e &&& ADDR_MASK) >>> 12).toNat

def flags (e : Word) : Word := e &&& ~~~ADDR_MASK

def setAddr (frame : Nat) (flags : Word) : Word := (BitVec.ofNat 64 frame <<< 12) ||| flags

def setFlags (e flags : Word) : Word := (e &&& ADDR_MASK) ||| flags

/-- The frame an entry of a table of the given level points to; huge pages end the walk in a PDPT or
a PD. -/
def target (level : Nat) (e : Word) : Option Nat :=
  if isPresent e && (level == 0 || level == 3 || !isHuge e) then some (addr e) else none

/-! ### Reading back what was written -/

lemma getLsbD_addrMask (n : Nat) : ADDR_MASK.getLsbD n = decide (12 ≤ n ∧ n < 52) := by
  have hmask : ADDR_MASK = (allOnes 40).setWidth 64 <<< 12 := by decide
  rw [hmask, getLsbD_shiftLeft, getLsbD_setWidth, getLsbD_allOnes]
  by_cases h : 12 ≤ n ∧ n < 52
  · simp [h, show ¬ n < 12 by omega, show n < 64 by omega, show n - 12 < 40 by omega,
      show n - 12 < 64 by omega]
  simp only [h, decide_false]
  by_cases h12 : n < 12
  · simp [h12]
  · simp [show ¬ n - 12 < 40 by omega]

def IsFlags (fl : Word) : Prop := fl &&& ADDR_MASK = 0

instance (fl : Word) : Decidable (IsFlags fl) := inferInstanceAs (Decidable (_ = _))

variable {fl e : Word} {f n : Nat}

lemma IsFlags.getLsbD (h : IsFlags fl) (h12 : 12 ≤ n) (h52 : n < 52) : fl.getLsbD n = false := by
  have := congrArg (fun w => BitVec.getLsbD w n) h
  simpa [getLsbD_addrMask, h12, h52] using this

lemma isFlags_flags (e : Word) : IsFlags (flags e) := by
  refine eq_of_getLsbD_eq fun n hn => ?_
  simp only [flags, getLsbD_and, getLsbD_not, hn, decide_true, Bool.true_and,
    Bool.and_assoc, Bool.not_and_self, Bool.and_false]
  exact getLsbD_zero.symm

lemma IsFlags.and (h : IsFlags fl) (w : Word) : IsFlags (fl &&& w) := by
  refine BitVec.eq_of_getLsbD_eq fun n hn => ?_
  have := congrArg (fun w => BitVec.getLsbD w n) h
  simp at this ⊢
  grind

lemma IsFlags.or {w : Word} (h : IsFlags fl) (hw : IsFlags w) : IsFlags (fl ||| w) := by
  refine BitVec.eq_of_getLsbD_eq fun n hn => ?_
  have h1 := congrArg (fun w => BitVec.getLsbD w n) h
  have h2 := congrArg (fun w => BitVec.getLsbD w n) hw
  simp at h1 h2 ⊢
  grind

lemma getLsbD_setAddr_low (hn : n < 12) : (setAddr f fl).getLsbD n = fl.getLsbD n := by
  simp [setAddr, getLsbD_shiftLeft, hn]

lemma addr_lt (e : Word) : addr e < 2 ^ 40 := by
  rw [addr, toNat_ushiftRight]
  have hle : (e &&& ADDR_MASK).toNat ≤ ADDR_MASK.toNat := by
    exact Nat.and_le_right
  have hmask : ADDR_MASK.toNat = 2 ^ 52 - 2 ^ 12 := by decide
  omega

lemma addr_setAddr (hf : f < 2 ^ 40) (hfl : IsFlags fl) : addr (setAddr f fl) = f := by
  have hbv : (setAddr f fl &&& ADDR_MASK) >>> 12 = BitVec.ofNat 64 f := by
    refine BitVec.eq_of_getLsbD_eq fun n hn => ?_
    simp only [setAddr, BitVec.getLsbD_ushiftRight, BitVec.getLsbD_and, BitVec.getLsbD_or,
      BitVec.getLsbD_shiftLeft, getLsbD_addrMask]
    by_cases h40 : n < 40
    · rw [hfl.getLsbD (by omega) (by omega)]
      simp [show 12 + n < 64 by omega, show 12 + n < 52 by omega]
    · have : f.testBit n = false :=
        Nat.testBit_lt_two_pow (lt_of_lt_of_le hf (Nat.pow_le_pow_right (by omega) (by omega)))
      simp [show ¬ 12 + n < 52 by omega, BitVec.getLsbD_ofNat, this]
  rw [addr, hbv, BitVec.toNat_ofNat, Nat.mod_eq_of_lt (by omega)]

lemma setFlags_eq (e fl : Word) : setFlags e fl = setAddr (addr e) fl := by
  refine eq_of_getLsbD_eq fun n hn => ?_
  simp only [setFlags, setAddr, addr, ofNat_toNat, setWidth_eq, getLsbD_or, getLsbD_and,
    getLsbD_shiftLeft, getLsbD_ushiftRight, getLsbD_addrMask]
  by_cases h12 : n < 12
  · simp [h12, show ¬ 12 ≤ n by omega]
  · simp [h12, hn, show 12 + (n - 12) = n by omega]

lemma getLsbD_flags_low (hn : n < 12) : (flags e).getLsbD n = e.getLsbD n := by
  rw [flags, getLsbD_and, getLsbD_not, getLsbD_addrMask]
  simp [show n < 64 by omega, show ¬ 12 ≤ n by omega]

lemma addr_of_target {level : Nat} (h : target level e = some f) : addr e = f := by
  rw [target] at h
  split at h
  · exact Option.some.inj h
  · simp at h

@[simp] lemma target_zero (level : Nat) : target level 0 = none := by
  simp [target, isPresent]

@[simp] lemma isPresent_setAddr : isPresent (setAddr f fl) = isPresent fl :=
  getLsbD_setAddr_low (by decide)

@[simp] lemma isWritable_setAddr : isWritable (setAddr f fl) = isWritable fl :=
  getLsbD_setAddr_low (by decide)

@[simp] lemma isHuge_setAddr : isHuge (setAddr f fl) = isHuge fl :=
  getLsbD_setAddr_low (by decide)

@[simp] lemma isPresent_flags : isPresent (flags e) = isPresent e :=
  getLsbD_flags_low (by decide)

@[simp] lemma isWritable_flags : isWritable (flags e) = isWritable e :=
  getLsbD_flags_low (by decide)

end Pte

/-- The entries of a table that belong to a user address space: the lower half of the PML4,
every entry of the other tables. -/
def entryCount (level : Nat) : Nat := if level = 3 then 256 else 512

def pageTree : Radix.Shape Nat Word where
  target := Pte.target
  span level := Finset.range (entryCount level)

@[simp] lemma pageTree_target (level : Nat) (e : Word) :
    pageTree.target level e = Pte.target level e :=
  rfl

/-! ## Virtual addresses -/

def USER_SPACE_END : Nat := 0x0000800000000000

/-- Is a 64-bit value a canonical address (bits 47 to 63 all equal)? -/
def isCanonical (va : Nat) : Bool := va < 2 ^ 47 || 2 ^ 64 - 2 ^ 47 ≤ va

def virtAddrNew (va : Nat) : Except Panic Nat :=
  if isCanonical va then .ok va else .error (.nonCanonical va)

def pml4Index (va : Nat) : Nat := va / 2 ^ 39 % 512

def pdptIndex (va : Nat) : Nat := va / 2 ^ 30 % 512

def pdIndex (va : Nat) : Nat := va / 2 ^ 21 % 512

def ptIndex (va : Nat) : Nat := va / 2 ^ 12 % 512

def pathOf (va : Nat) : List Nat := [pml4Index va, pdptIndex va, pdIndex va, ptIndex va]

/-- `walk_page_table_to_pte`: the PT and the index of the entry that maps `va`. -/
def walkPageTableToPte (m : PhysMem) (pml4 va : Nat) : Option (Nat × Nat) :=
  match Pte.target 3 (m.entry pml4 (pml4Index va)) with
  | none => none
  | some pdpt =>
    match Pte.target 2 (m.entry pdpt (pdptIndex va)) with
    | none => none
    | some pd =>
      match Pte.target 1 (m.entry pd (pdIndex va)) with
      | none => none
      | some pt =>
        if Pte.isPresent (m.entry pt (ptIndex va)) then some (pt, ptIndex va) else none

end Indominus.Memory
