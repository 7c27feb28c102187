import Indominus.Boot.Relocation

/-!
# The kernel's image after both relocation stages

The bootloader reports one relocation section only, and takes the sum of the segments for their
extent.
-/

namespace Indominus.Boot

open Lib Lib.Bytes List
open Memory (Byte readLe leBytes PT_LOAD)

variable {fw : Firmware} {elf : List Byte} {p : Placed} {r : Rela}

/-! ## What `load_elf` reports -/

lemma foldl_choice {α : Type*} (op : Nat → Nat → Nat) (hop : ∀ a b, op a b = a ∨ op a b = b)
    (f : α → Nat) (l : List α) (x : Nat) :
    l.foldl (fun m a => op m (f a)) x = x ∨ ∃ a ∈ l, l.foldl (fun m a => op m (f a)) x = f a := by
  induction l generalizing x with
  | nil => exact .inl rfl
  | cons a l ih =>
    rcases ih (op x (f a)) with h | ⟨b, hb, h⟩
    · rcases hop x (f a) with hx | ha
      · exact .inl (h.trans hx)
      · exact .inr ⟨a, mem_cons_self .., h.trans ha⟩
    · exact .inr ⟨b, mem_cons_of_mem a hb, h⟩

lemma foldl_min_le {α : Type*} (f : α → Nat) (l : List α) (x : Nat) :
    l.foldl (fun m a => min m (f a)) x ≤ x ∧ ∀ a ∈ l, l.foldl (fun m a => min m (f a)) x ≤ f a := by
  induction l generalizing x with
  | nil => simp
  | cons a l ih =>
    obtain ⟨hx, hl⟩ := ih (min x (f a))
    simp only [foldl_cons, mem_cons, forall_eq_or_imp]
    exact ⟨by omega, by omega, hl⟩

lemma orElse_eq_ok {α : Type} {o : Option α} {e : BootError} {a : α} :
    orElse o e = .ok a ↔ o = some a := by
  cases o <;> simp [orElse]

lemma mem_of_mapM_eq_ok {ε α β : Type} {f : α → Except ε β} {l : List α} {l' : List β}
    (h : l.mapM f = .ok l') {b : β} (hb : b ∈ l') : ∃ a ∈ l, f a = .ok b := by
  induction l generalizing l' with
  | nil =>
    cases h
    cases hb
  | cons a l ih =>
    rw [mapM_cons] at h
    simp only [bind, pure, Except.pure, bind_eq_ok, Except.ok.injEq] at h
    obtain ⟨c, hc, l1, hl, rfl⟩ := h
    rcases mem_cons.mp hb with rfl | hb
    · exact ⟨a, mem_cons_self .., hc⟩
    · obtain ⟨a', ha', hf⟩ := ih hl hb
      exact ⟨a', mem_cons_of_mem a ha', hf⟩

lemma phdrAt_vaddr_lt {phoff phentsize i : Nat} {ph : Phdr}
    (h : phdrAt elf phoff phentsize i = .ok ph) : ph.vaddr < 2 ^ 64 := by
  simp only [phdrAt, bind, pure, Except.pure, throw, throwThe, MonadExceptOf.throw, guard_eq_ok,
    bind_eq_ok, orElse_eq_ok, Except.ok.injEq] at h
  obtain ⟨-, -, -, -, -, -, v, hv, -, -, -, -, rfl⟩ := h
  exact readLe_lt hv

lemma loadSegments_placed (h : loadSegments fw elf = .ok p)
    (hmin : p.block.minVaddr = KERNEL_VIRT_BASE) (hbase : p.block.base < 2 ^ 52) :
    p.physStart = p.block.base ∧ p.maxVaddr < 2 ^ 64 := by
  simp only [loadSegments, bind, pure, Except.pure, throw, throwThe, MonadExceptOf.throw,
    guard_eq_ok, bind_eq_ok, orElse_eq_ok, Except.ok.injEq] at h
  obtain ⟨-, -, -, -, phoff, -, phentsize, -, phnum, -, headers, hheaders, hload, base, -, rfl⟩ := h
  dsimp only at hmin hbase ⊢
  generalize hsegs : headers.filter (·.type == PT_LOAD) = segments at *
  have hvaddr : ∀ ph ∈ segments, ph.vaddr < 2 ^ 64 := by
    intro ph hph
    rw [← hsegs, mem_filter] at hph
    obtain ⟨i, -, hi⟩ := mem_of_mapM_eq_ok hheaders hph.1
    exact phdrAt_vaddr_lt hi
  rw [hmin]
  constructor
  · have hlow := (foldl_min_le Phdr.vaddr segments (2 ^ 64 - 1)).2
    -- the offset of a segment is below 2 ^ 31, so nothing wraps around
    have hphys : ∀ ph ∈ segments, (base + (ph.vaddr - KERNEL_VIRT_BASE)) % 2 ^ 64
        = base + (ph.vaddr - KERNEL_VIRT_BASE) := by
      intro ph hph
      have := hvaddr ph hph
      rw [KERNEL_VIRT_BASE, Nat.mod_eq_of_lt (by omega)]
    apply Nat.le_antisymm
    · rcases foldl_choice min (by omega) Phdr.vaddr segments (2 ^ 64 - 1)
        with hnone | ⟨ph, hph, hmem⟩
      · exact absurd hnone hload
      · refine ((foldl_min_le _ segments _).2 ph hph).trans ?_
        rw [hphys ph hph, ← hmem, hmin, Nat.sub_self, Nat.add_zero]
    rcases foldl_choice min (by omega)
      (fun ph : Phdr => (base + (ph.vaddr - KERNEL_VIRT_BASE)) % 2 ^ 64) segments (2 ^ 64 - 1)
      with hnone | ⟨ph, hph, hmem⟩
    · omega
    · rw [hmem, hphys ph hph]
      omega
  rcases foldl_choice max (by omega) (fun ph : Phdr => (ph.vaddr + ph.memsz) % 2 ^ 64)
    segments 0 with hnone | ⟨ph, -, hmem⟩
  · omega
  · rw [hmem]
    exact Nat.mod_lt _ (by omega)

/-! ## The table that the kernel is given -/

/-- The relocations that the kernel moves: those of the last section, unless its address or the
kernel's is 0. -/
def kernelTable (elf : List Byte) (ss : List RelaSection) (kps : Nat) : List Rela :=
  if kps = 0 then []
  else ss.getLast?.elim [] fun s => if s.addr = 0 then [] else relatives elf [s]

lemma kernelTable_concat (ss : List RelaSection) (s : RelaSection) (kps : Nat) :
    kernelTable elf (ss ++ [s]) kps = if kps = 0 ∨ s.addr = 0 then [] else relatives elf [s] := by
  unfold kernelTable
  rw [getLast?_concat, Option.elim_some]
  split_ifs <;> tauto

lemma relatives_append (ss ts : List RelaSection) :
    relatives elf (ss ++ ts) = relatives elf ss ++ relatives elf ts := by
  simp [relatives]

lemma kernelTable_sublist (ss : List RelaSection) (kps : Nat) :
    (kernelTable elf ss kps).Sublist (relatives elf ss) := by
  induction ss using reverseRecOn with
  | nil => simp [kernelTable]
  | append_singleton ss s =>
    rw [kernelTable_concat, relatives_append]
    split_ifs
    · exact nil_sublist _
    · exact sublist_append_right ..

lemma fixupPicRelocations_lastTable {ss : List RelaSection} {kps : Nat} {mem : Image}
    (h : ∀ s ∈ ss, s.addr ≠ 0 → Holds elf s mem ∧ ∀ r ∈ relatives elf ss, s.Avoids r) :
    fixupPicRelocations kps (lastTable ss (0, 0)).1 (lastTable ss (0, 0)).2 mem
      = patchAll 8 mem ((kernelTable elf ss kps).map (kernelPatch kps)) := by
  induction ss using reverseRecOn with
  | nil => simp [kernelTable, lastTable, fixupPicRelocations, patchAll_nil]
  | append_singleton ss s =>
    rw [kernelTable_concat, lastTable, foldl_concat]
    by_cases hnone : kps = 0 ∨ s.addr = 0
    · rw [if_pos hnone, fixupPicRelocations, if_pos (by tauto), map_nil, patchAll_nil]
    obtain ⟨hkps, haddr⟩ := not_or.mp hnone
    obtain ⟨hhol, havo⟩ := h s (mem_append_right _ (mem_singleton_self s)) haddr
    rw [if_neg hnone]
    apply fixupPicRelocations_eq hkps haddr hhol
    intro r hr
    exact havo r (by rw [relatives_append]; exact mem_append_right _ hr)

/-! ## Kernel files -/

/-- The segments have put a relocation section at its address. -/
structure RelaSection.Loaded (elf : List Byte) (p : Placed) (s : RelaSection) : Prop where
  low : KERNEL_VIRT_BASE ≤ s.addr
  bound : s.addr + s.size ≤ 2 ^ 64
  bytes : ∀ i < s.size, p.image (s.addr - KERNEL_VIRT_BASE + i) = elf.getD (s.offset + i) 0

/-- A kernel file as a linker makes it: relocation sections are inside the file, loaded at their
addresses and not changed by a relocation. -/
structure KernelElf (fw : Firmware) (elf : List Byte) where
  headers : SectionHeaders elf
  placed : Placed
  load : loadSegments fw elf = .ok placed
  wellFormed : ∀ s ∈ headers.relaSections, s.WellFormed elf
  loaded : ∀ s ∈ headers.relaSections, s.addr ≠ 0 → s.Loaded elf placed
  avoids : ∀ s ∈ headers.relaSections, s.addr ≠ 0 →
    ∀ r ∈ relatives elf headers.relaSections, s.Avoids r

namespace KernelElf

variable (K : KernelElf fw elf)

/-- The relocations of type `R_X86_64_RELATIVE`, from all sections. -/
def relocations : List Rela := relatives elf K.headers.relaSections

def table : List Rela := kernelTable elf K.headers.relaSections K.placed.block.base

def relocated : Image :=
  patchAll 8 K.placed.image
    ((K.relocations.filter K.placed.block.holds).map K.placed.block.patchOf)

variable {K}

/-- The relocations have slots of their own inside the image, which starts at `KERNEL_VIRT_BASE`. -/
structure Slots (K : KernelElf fw elf) : Prop where
  base : K.placed.block.base < 2 ^ 52
  min : K.placed.block.minVaddr = KERNEL_VIRT_BASE
  inside : ∀ r ∈ K.relocations, InImage K.placed r
  apart : K.relocations.Pairwise fun r q => Apart 8 r.offset q.offset

lemma Slots.low (h : K.Slots) (hr : r ∈ K.relocations) : KERNEL_VIRT_BASE ≤ r.offset :=
  h.min ▸ (h.inside r hr).1

lemma Slots.apart_of_ne (h : K.Slots) {q : Rela} (hr : r ∈ K.relocations)
    (hq : q ∈ K.relocations) (hne : r ≠ q) : Apart 8 r.offset q.offset := by
  have hsymm : Std.Symm fun r q : Rela => Apart 8 r.offset q.offset := ⟨fun _ _ => Apart.symm⟩
  exact h.apart.forall hr hq hne

lemma loadElf_eq (h : K.Slots) :
    loadElf fw elf = .ok {
      physStart := K.placed.block.base
      physEnd := K.placed.physEnd
      loadOffset := (K.placed.block.base + 2 ^ 64 - K.placed.block.minVaddr) % 2 ^ 64
      relaDynVaddr := (lastTable K.headers.relaSections (0, 0)).1
      relaDynSize := (lastTable K.headers.relaSections (0, 0)).2
      image := K.relocated } := by
  obtain ⟨hst, hmax⟩ := loadSegments_placed K.load h.min h.base
  have hboot := applyRelocations_eq K.headers (p := K.placed) K.wellFormed hmax h.inside
  simp only [loadElf, K.load, bind, Except.bind, hboot, orElse, hst, pure, Except.pure]
  rfl

lemma relocated_of_not_mem (h : K.Slots) {i : Nat}
    (hi : ∀ r ∈ K.relocations, KERNEL_VIRT_BASE + i < r.offset ∨
      r.offset + 8 ≤ KERNEL_VIRT_BASE + i) :
    K.relocated i = K.placed.image i := by
  apply patchAll_of_not_mem
  intro q hq
  obtain ⟨r, hr, rfl⟩ := mem_map.mp hq
  have hr := (mem_filter.mp hr).1
  have hlow := h.low hr
  have hout := hi r hr
  simp only [Block.patchOf, h.min]
  omega

/-- A slot of the table holds what the loader wrote, or what was placed there. -/
lemma le_relocated (h : K.Slots) (hr : r ∈ K.relocations) :
    le K.relocated (r.offset - KERNEL_VIRT_BASE) 8
      = if K.placed.block.holds r then K.placed.block.value r
        else le K.placed.image (r.offset - KERNEL_VIRT_BASE) 8 := by
  have hslot : (K.placed.block.patchOf r).1 = r.offset - KERNEL_VIRT_BASE := by
    rw [Block.patchOf, h.min]
  split_ifs with hhol
  · have hpairs : ((K.relocations.filter K.placed.block.holds).map K.placed.block.patchOf).Pairwise
        fun p q => Apart 8 p.1 q.1 := by
      rw [pairwise_map]
      refine (h.apart.filter _).imp_of_mem ?_
      intro q q' hq hq' hap
      have hlow := h.low (mem_filter.mp hq).1
      have hlow' := h.low (mem_filter.mp hq').1
      simp only [Block.patchOf, h.min]
      unfold Apart at hap ⊢
      omega
    have hword := @le_patchAll K.placed.image 8 _ hpairs _
      (mem_map.mpr ⟨r, mem_filter.mpr ⟨hr, hhol⟩, rfl⟩)
    rw [hslot] at hword
    refine hword.trans (Nat.mod_eq_of_lt ?_)
    exact Nat.mod_lt _ (by omega)
  apply le_patchAll_of_apart
  intro p hp
  obtain ⟨q, hq, rfl⟩ := mem_map.mp hp
  obtain ⟨hq, hqholds⟩ := mem_filter.mp hq
  have hne : r ≠ q := by
    rintro rfl
    exact hhol hqholds
  have hap := h.apart_of_ne hr hq hne
  have hlow := h.low hr
  have hlow' := h.low hq
  simp only [Block.patchOf, h.min]
  unfold Apart at hap
  omega

/-! ## Checking a kernel file -/

instance (s : RelaSection) : Decidable (s.WellFormed elf) :=
  decidable_of_iff (s.entsize = 24 ∧ s.offset + s.size ≤ elf.length)
    ⟨fun h => ⟨h.1, h.2⟩, fun h => ⟨h.entsize, h.inFile⟩⟩

instance (s : RelaSection) : Decidable (s.Loaded elf p) :=
  decidable_of_iff (KERNEL_VIRT_BASE ≤ s.addr ∧ s.addr + s.size ≤ 2 ^ 64 ∧
      ∀ i < s.size, p.image (s.addr - KERNEL_VIRT_BASE + i) = elf.getD (s.offset + i) 0)
    ⟨fun h => ⟨h.1, h.2.1, h.2.2⟩, fun h => ⟨h.low, h.bound, h.bytes⟩⟩

instance (s : RelaSection) : Decidable (s.Avoids r) := inferInstanceAs (Decidable (_ ∨ _))

instance : Decidable (InImage p r) := inferInstanceAs (Decidable (_ ∧ _))

/-- What is left to check of a file whose segments have been loaded. -/
def Checked (H : SectionHeaders elf) (p : Placed) : Prop :=
  (∀ s ∈ H.relaSections, s.WellFormed elf ∧
    (s.addr ≠ 0 → s.Loaded elf p ∧ ∀ r ∈ relatives elf H.relaSections, s.Avoids r)) ∧
  (p.block.base < 2 ^ 52 ∧ p.block.minVaddr = KERNEL_VIRT_BASE ∧
    (∀ r ∈ relatives elf H.relaSections, InImage p r) ∧
    (relatives elf H.relaSections).Pairwise fun r q => Apart 8 r.offset q.offset)

instance (H : SectionHeaders elf) : Decidable (Checked H p) := inferInstanceAs (Decidable (_ ∧ _))

lemma exists_of_checked (fw : Firmware) (H : SectionHeaders elf)
    (h : meets (loadSegments fw elf) (fun p => decide (Checked H p)) = true) :
    ∃ K : KernelElf fw elf, K.headers = H ∧ K.Slots := by
  obtain ⟨p, hload, hck⟩ := exists_of_meets h
  obtain ⟨hsections, hbase, hmin, hins, hap⟩ := of_decide_eq_true hck
  refine ⟨⟨H, p, hload, ?_, ?_, ?_⟩, rfl, ⟨hbase, hmin, hins, hap⟩⟩
  · intro s hs
    exact (hsections s hs).1
  · intro s hs haddr
    exact ((hsections s hs).2 haddr).1
  · intro s hs haddr
    exact ((hsections s hs).2 haddr).2

/-! ## Both stages -/

/-- The kernel's memory when the bootloader is done. -/
def memory (K : KernelElf fw elf) (low : Image) : Image := virtualMemory low K.relocated

def fixed (K : KernelElf fw elf) (low : Image) : Image :=
  patchAll 8 (K.memory low) (K.table.map (kernelPatch K.placed.block.base))

lemma virtualMemory_add (low img : Image) (i : Nat) :
    virtualMemory low img (KERNEL_VIRT_BASE + i) = img i := by
  rw [virtualMemory, if_pos (by omega), Nat.add_sub_cancel_left]

lemma holds_memory (h : K.Slots) (low : Image) {s : RelaSection}
    (hs : s ∈ K.headers.relaSections) (haddr : s.addr ≠ 0) : Holds elf s (K.memory low) where
  bound := (K.loaded s hs haddr).bound
  bytes i hi := by
    have hld := K.loaded s hs haddr
    have hlow := hld.low
    rw [memory, show s.addr + i = KERNEL_VIRT_BASE + (s.addr - KERNEL_VIRT_BASE + i) by omega,
      virtualMemory_add, relocated_of_not_mem h, hld.bytes i hi]
    intro r hr
    have havo := K.avoids s hs haddr r hr
    unfold RelaSection.Avoids at havo
    omega

lemma table_subset (hr : r ∈ K.table) : r ∈ K.relocations :=
  (kernelTable_sublist K.headers.relaSections K.placed.block.base).subset hr

lemma kernelImage_eq (h : K.Slots) (low : Image) : ∃ k, loadElf fw elf = .ok k ∧
      ∀ i, k.kernelImage low i = K.fixed low (KERNEL_VIRT_BASE + i) := by
  refine ⟨_, loadElf_eq h, ?_⟩
  intro i
  have hfix : fixupPicRelocations K.placed.block.base (lastTable K.headers.relaSections (0, 0)).1
      (lastTable K.headers.relaSections (0, 0)).2 (K.memory low) = K.fixed low := by
    apply fixupPicRelocations_lastTable
    intro s hs haddr
    exact ⟨holds_memory h low hs haddr, K.avoids s hs haddr⟩
  exact congrFun hfix _

lemma fixed_of_not_mem (h : K.Slots) (low : Image) {i : Nat}
    (hi : ∀ r ∈ K.relocations, KERNEL_VIRT_BASE + i < r.offset ∨
      r.offset + 8 ≤ KERNEL_VIRT_BASE + i) :
    K.fixed low (KERNEL_VIRT_BASE + i) = K.placed.image i := by
  have hpatch : K.fixed low (KERNEL_VIRT_BASE + i) = K.memory low (KERNEL_VIRT_BASE + i) := by
    apply patchAll_of_not_mem
    intro q hq
    obtain ⟨r, hr, rfl⟩ := mem_map.mp hq
    exact hi r (table_subset hr)
  rw [hpatch, memory, virtualMemory_add, relocated_of_not_mem h hi]

lemma le_memory (h : K.Slots) (low : Image) (hr : r ∈ K.relocations) :
    le (K.memory low) r.offset 8 = le K.relocated (r.offset - KERNEL_VIRT_BASE) 8 := by
  have hlow := h.low hr
  apply le_congr
  intro i hi
  rw [show r.offset + i = KERNEL_VIRT_BASE + (r.offset - KERNEL_VIRT_BASE + i) by omega]
  exact virtualMemory_add ..

/-- What the kernel's stage makes of a word in the slot of a relocation. -/
def moved (K : KernelElf fw elf) (r : Rela) (w : Nat) : Nat :=
  if r ∈ K.table then (w + 2 ^ 64 - K.placed.block.base + KERNEL_VIRT_BASE) % 2 ^ 64 else w

lemma le_fixed (h : K.Slots) (low : Image) (hr : r ∈ K.relocations) : le (K.fixed low) r.offset 8
      = K.moved r (le K.relocated (r.offset - KERNEL_VIRT_BASE) 8) := by
  rw [← le_memory h low hr]
  unfold moved
  split_ifs with htab
  · have hpairs : (K.table.map (kernelPatch K.placed.block.base)).Pairwise
        fun p q => Apart 8 p.1 q.1 := by
      rw [pairwise_map]
      exact h.apart.sublist (kernelTable_sublist _ _)
    refine (le_patchAll hpairs (mem_map.mpr ⟨r, htab, rfl⟩)).trans (Nat.mod_eq_of_lt ?_)
    exact Nat.mod_lt _ (by omega)
  apply le_patchAll_of_apart
  intro p hp
  obtain ⟨q, hq, rfl⟩ := mem_map.mp hp
  have hne : r ≠ q := by
    rintro rfl
    exact htab hq
  exact (h.apart_of_ne hr (table_subset hq) hne).symm

/-- Every slot holds its addend, and every other byte is as it was loaded. -/
def Exact (K : KernelElf fw elf) (image : Image) : Prop :=
  (∀ r ∈ K.relocations, le image (r.offset - KERNEL_VIRT_BASE) 8 = r.addend) ∧
    ∀ i, (∀ r ∈ K.relocations,
        KERNEL_VIRT_BASE + i < r.offset ∨ r.offset + 8 ≤ KERNEL_VIRT_BASE + i) →
      image i = K.placed.image i

/-- The kernel's table lists the relocation, or its slot lies behind the block and already holds the
right word. -/
def Reached (K : KernelElf fw elf) (r : Rela) : Prop :=
  if K.placed.block.holds r then r ∈ K.table
  else K.moved r (le K.placed.image (r.offset - KERNEL_VIRT_BASE) 8) = r.addend

lemma addend_lt (hr : r ∈ K.relocations) : r.addend < 2 ^ 64 := by
  obtain ⟨hr, -⟩ := mem_filter.mp hr
  obtain ⟨s, -, hr⟩ := mem_flatMap.mp hr
  obtain ⟨j, -, rfl⟩ := mem_map.mp hr
  have hlt := le_lt (fun i => elf.getD i 0) (s.offset + j * 24 + 16) 8
  exact hlt

lemma moved_value (h : K.Slots) (hr : r ∈ K.relocations) :
    K.moved r (K.placed.block.value r) = r.addend ↔ r ∈ K.table := by
  have haddend := addend_lt hr
  have hbase := h.base
  unfold moved Block.value
  rw [h.min, KERNEL_VIRT_BASE]
  split_ifs with htab
  · simp only [htab, iff_true]
    omega
  · simp only [htab, iff_false]
    omega

/-- **Two-stage relocation.**  Afterwards every slot holds its addend, and every other byte is as it
was loaded, exactly if every relocation is reached. -/
theorem relocation_exact_iff (K : KernelElf fw elf) (low : Image) (h : K.Slots) :
    ∃ k, loadElf fw elf = .ok k ∧
      (K.Exact (k.kernelImage low) ↔ ∀ r ∈ K.relocations, K.Reached r) := by
  obtain ⟨k, hk, himg⟩ := kernelImage_eq h low
  refine ⟨k, hk, ?_⟩
  have hoth : ∀ i, (∀ r ∈ K.relocations,
      KERNEL_VIRT_BASE + i < r.offset ∨ r.offset + 8 ≤ KERNEL_VIRT_BASE + i) →
      k.kernelImage low i = K.placed.image i :=
    fun i hi => (himg i).trans (fixed_of_not_mem h low hi)
  have hslot : ∀ r ∈ K.relocations,
      (le (k.kernelImage low) (r.offset - KERNEL_VIRT_BASE) 8 = r.addend ↔ K.Reached r) := by
    intro r hr
    have hlow := h.low hr
    have hword : le (k.kernelImage low) (r.offset - KERNEL_VIRT_BASE) 8
        = le (K.fixed low) r.offset 8 := by
      apply le_congr
      intro i hi
      rw [himg]
      congr 1
      omega
    rw [hword, le_fixed h low hr, le_relocated h hr, Reached]
    split_ifs
    · exact moved_value h hr
    · rfl
  unfold Exact
  rw [and_iff_left hoth]
  exact forall₂_congr hslot

/-! ## A small kernel file -/

/-- The `n` bytes of a number. -/
def bytesOf (n w : Nat) : List Byte := (List.range n).map (byteOf w)

/-- A file with one segment: two relocation entries from offset 120 on, and their slots from 168
on. -/
def smallFile (sections : List RelaSection) : List Byte :=
  [0x7F, 0x45, 0x4C, 0x46, 2, 1, 1, 0] ++ bytesOf 24 0 ++ bytesOf 8 64 ++ bytesOf 8 184
    ++ bytesOf 6 0 ++ bytesOf 2 56 ++ bytesOf 2 1 ++ bytesOf 2 64
    ++ bytesOf 2 sections.length ++ bytesOf 2 0
    ++ (bytesOf 8 1 ++ bytesOf 8 0 ++ bytesOf 8 KERNEL_VIRT_BASE ++ bytesOf 8 0 ++ bytesOf 8 184
      ++ bytesOf 8 184 ++ bytesOf 8 4096)
    ++ (bytesOf 8 (KERNEL_VIRT_BASE + 168) ++ bytesOf 8 8 ++ bytesOf 8 (KERNEL_VIRT_BASE + 64))
    ++ (bytesOf 8 (KERNEL_VIRT_BASE + 176) ++ bytesOf 8 8 ++ bytesOf 8 (KERNEL_VIRT_BASE + 72))
    ++ bytesOf 16 0
    ++ sections.flatMap fun s => bytesOf 4 0 ++ bytesOf 4 SHT_RELA ++ bytesOf 8 2
      ++ bytesOf 8 s.addr ++ bytesOf 8 s.offset ++ bytesOf 8 s.size ++ bytesOf 16 0
      ++ bytesOf 8 s.entsize

def oneSection : List Byte := smallFile [⟨KERNEL_VIRT_BASE + 120, 120, 48, 24⟩]

def twoSections : List Byte :=
  smallFile [⟨KERNEL_VIRT_BASE + 120, 120, 24, 24⟩, ⟨KERNEL_VIRT_BASE + 144, 144, 24, 24⟩]

def smallFirmware : Firmware := ⟨fun _ => some 0x100000, fun _ => 0, fun _ => 0⟩

/-- A kernel file with one relocation section. -/
theorem relocation_exact_iff_oneSection : ∃ K : KernelElf smallFirmware oneSection, K.Slots ∧
      ∃ k, loadElf smallFirmware oneSection = .ok k ∧
        (K.Exact (k.kernelImage fun _ => 0) ↔ ∀ r ∈ K.relocations, K.Reached r) := by
  let H : SectionHeaders oneSection := ⟨184, 64, 1, by decide +kernel, by decide +kernel,
    by decide +kernel, by decide +kernel, by decide +kernel, by decide +kernel⟩
  obtain ⟨K, -, hsls⟩ := exists_of_checked smallFirmware H (by decide +kernel)
  exact ⟨K, hsls, relocation_exact_iff K (fun _ => 0) hsls⟩

/-- With two sections the kernel is told of the second only, and a slot of the first keeps a
physical address. -/
theorem relocation_first_section_lost : ∃ K : KernelElf smallFirmware twoSections, K.Slots ∧
      ∃ k, loadElf smallFirmware twoSections = .ok k ∧ ¬ K.Exact (k.kernelImage fun _ => 0) := by
  let H : SectionHeaders twoSections := ⟨184, 64, 2, by decide +kernel, by decide +kernel,
    by decide +kernel, by decide +kernel, by decide +kernel, by decide +kernel⟩
  obtain ⟨K, hheaders, hsls⟩ := exists_of_checked smallFirmware H (by decide +kernel)
  have hmt : meets (loadElf smallFirmware twoSections)
      (fun k => le (k.kernelImage fun _ => 0) 168 8 == 0x100000 + 64) = true := by
    decide +kernel
  obtain ⟨k, hk, hword⟩ := exists_of_meets hmt
  have hmem : (⟨KERNEL_VIRT_BASE + 168, 8, KERNEL_VIRT_BASE + 64⟩ : Rela) ∈ K.relocations := by
    rw [relocations, hheaders]
    decide +kernel
  refine ⟨K, hsls, k, hk, ?_⟩
  intro hex
  have haddend := hex.1 _ hmem
  rw [Nat.add_sub_cancel_left, eq_of_beq hword] at haddend
  exact absurd haddend (by decide)

end KernelElf

end Indominus.Boot
