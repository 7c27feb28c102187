import Indominus.Boot.Relocation

/-!
# Where the bootloader's relocations write

An index outside the file is a panic; the writes before it have been made.
-/

namespace Indominus.Boot

open Lib.Bytes Memory List

/-- The entries of a section that are read, up to a panic. -/
def sectionVisits (elf : List Byte) (s : RelaSection) : (n j : Nat) → List Rela
  | 0, _ => []
  | n + 1, j =>
    match relaAt elf ((s.offset + j * s.entsize) % 2 ^ 64) with
    | none => []
    | some r => r :: sectionVisits elf s n (j + 1)

/-- The entries that the loop over the section headers comes to; it ends with the panic of a
section. -/
def visitsFrom (elf : List Byte) (shoff shentsize : Nat) : (n i : Nat) → List Rela
  | 0, _ => []
  | n + 1, i =>
    if elf.length < ((shoff + i * shentsize) % 2 ^ 64 + shentsize) % 2 ^ 64 then []
    else
      match sectionAt elf ((shoff + i * shentsize) % 2 ^ 64) with
      | none => []
      | some none => visitsFrom elf shoff shentsize n (i + 1)
      | some (some s) =>
        if s.entsize = 0 ∨ elf.length < (s.offset + s.size) % 2 ^ 64
          then visitsFrom elf shoff shentsize n (i + 1)
        else
          let entries := sectionVisits elf s (s.size / s.entsize) 0
          if entries.length < s.size / s.entsize then entries
          else entries ++ visitsFrom elf shoff shentsize n (i + 1)

/-- The relocations that `apply_relocations` comes to. -/
def visits (elf : List Byte) : List Rela :=
  Option.getD (do
    let shoff ← elfReadU64 elf 40
    let shentsize ← elfReadU16 elf 58
    let shnum ← elfReadU16 elf 60
    return if shoff = 0 ∨ shnum = 0 then [] else visitsFrom elf shoff shentsize shnum 0) []

/-- Where a relocation is written, if it is. -/
def Block.written (b : Block) (r : Rela) : Option Nat :=
  if ¬ r.isRelative ∨ b.size < (b.target r + 8) % 2 ^ 64 then none else some (b.target r)

variable {elf : List Byte} {b : Block} {s : RelaSection} {n i j shoff shentsize : Nat}
  {img img' : Image}
  {dyn dyn' : Nat × Nat}

lemma applyRela_written (r : Rela) :
    applyRela b img r = ((b.written r).map fun t => put img t 8 (b.value r)).getD img := by
  rw [applyRela, Block.written]
  by_cases hrel : r.isRelative
  · by_cases hlt : b.size < (b.target r + 8) % 2 ^ 64
    · rw [if_neg (not_not.mpr hrel), if_pos hlt, if_pos (.inr hlt)]
      rfl
    · rw [if_neg (not_not.mpr hrel), if_neg hlt, if_neg (not_or.mpr ⟨not_not.mpr hrel, hlt⟩)]
      rfl
  · rw [if_pos hrel, if_pos (.inl hrel)]
    rfl

lemma applySection_visits (h : applySection elf b s n j img = some img') :
    img' = (sectionVisits elf s n j).foldl (applyRela b) img ∧
      (sectionVisits elf s n j).length = n := by
  induction n generalizing j img with
  | zero =>
    cases h
    exact ⟨rfl, rfl⟩
  | succ n ih =>
    rw [applySection] at h
    rw [sectionVisits]
    cases hr : relaAt elf ((s.offset + j * s.entsize) % 2 ^ 64) with
    | none =>
      rw [hr] at h
      cases h
    | some r =>
      rw [hr] at h
      exact ⟨(ih h).1, congrArg (· + 1) (ih h).2⟩

/-- Also without well-formed sections, a run is a fold over what it visits. -/
lemma applySections_visits
    (h : applySections elf b shoff shentsize n i dyn img = some (dyn', img')) :
    img' = (visitsFrom elf shoff shentsize n i).foldl (applyRela b) img := by
  induction n generalizing i dyn img with
  | zero =>
    cases h
    rfl
  | succ n ih =>
    rw [applySections] at h
    rw [visitsFrom]
    split_ifs at h ⊢ with hend
    · cases h
      rfl
    cases hsec : sectionAt elf ((shoff + i * shentsize) % 2 ^ 64) with
    | none =>
      rw [hsec] at h
      cases h
    | some o =>
      cases o with
      | none =>
        rw [hsec] at h
        exact ih h
      | some s =>
        rw [hsec] at h
        dsimp only at h ⊢
        by_cases hskip : s.entsize = 0 ∨ elf.length < (s.offset + s.size) % 2 ^ 64
        · rw [if_pos hskip] at h ⊢
          exact ih h
        rw [if_neg hskip] at h ⊢
        cases himg : applySection elf b s (s.size / s.entsize) 0 img with
        | none =>
          rw [himg] at h
          cases h
        | some mid =>
          rw [himg] at h
          obtain ⟨rfl, hlen⟩ := applySection_visits himg
          rw [if_neg hlen.not_lt, foldl_append]
          exact ih h

lemma applyRelocations_visits (h : applyRelocations elf b img = some (dyn, img')) :
    img' = (visits elf).foldl (applyRela b) img := by
  unfold applyRelocations at h
  obtain ⟨shoff, hoff, h⟩ := Option.bind_eq_some_iff.mp h
  obtain ⟨shentsize, hent, h⟩ := Option.bind_eq_some_iff.mp h
  obtain ⟨shnum, hnum, h⟩ := Option.bind_eq_some_iff.mp h
  have hvisits : visits elf = if shoff = 0 ∨ shnum = 0 then []
    else visitsFrom elf shoff shentsize shnum 0 := by
    rw [visits, hoff, hent, hnum]
    rfl
  rw [hvisits]
  split_ifs at h ⊢ with hnone
  · cases h
    rfl
  · exact applySections_visits h

lemma written_inside_iff (hsize : b.size < 2 ^ 64) (r : Rela) :
    (∀ t ∈ b.written r, t + 8 ≤ b.size) ↔
    (r.isRelative → b.target r < 2 ^ 64 - 8 ∨ b.size < b.target r + 8 - 2 ^ 64) := by
  have hlt : b.target r < 2 ^ 64 := Nat.mod_lt _ (by decide)
  rw [Block.written]
  by_cases hrel : r.isRelative
  · by_cases hskip : b.size < (b.target r + 8) % 2 ^ 64
    · rw [if_pos (.inr hskip)]
      simp only [Option.not_mem_none, false_imp_iff, implies_true, true_iff]
      omega
    · rw [if_neg (not_or.mpr ⟨not_not.mpr hrel, hskip⟩)]
      simp only [Option.mem_some_iff, forall_eq', hrel, true_imp_iff]
      omega
  · simp [hrel]

/-- **Relocations stay inside the image** if and only if no target wraps around with the eight bytes
of the slot. -/
theorem relocations_inside_iff (elf : List Byte) (b : Block) (hsize : b.size < 2 ^ 64) :
    (∀ img dyn img', applyRelocations elf b img = some (dyn, img') →
      img' = (visits elf).foldl (applyRela b) img) ∧
    (∀ img r, applyRela b img r = ((b.written r).map fun t => put img t 8 (b.value r)).getD img) ∧
    (((∀ o n v, readLe elf o n = some v → o + n ≤ elf.length) ∧
        ∀ r ∈ visits elf, ∀ t ∈ b.written r, t + 8 ≤ b.size) ↔
      ∀ r ∈ visits elf, r.isRelative → b.target r < 2 ^ 64 - 8 ∨
      b.size < b.target r + 8 - 2 ^ 64) := by
  refine ⟨fun _ _ _ => applyRelocations_visits, fun _ => applyRela_written, ?_⟩
  have hread : ∀ o n v, readLe elf o n = some v → o + n ≤ elf.length := by
    intro o n v h
    unfold readLe at h
    split_ifs at h with hlen
    exact Nat.not_lt.mp hlen
  rw [and_iff_right hread]
  exact forall₂_congr fun r _ => written_inside_iff hsize r

/-- A file with one relocation, of the slot at address 0. -/
def lowSlotFile : List Byte :=
  [(40, 64), (58, 64), (60, 1), (68, 4), (88, 128), (96, 24), (120, 24), (136, 8)].foldl
    (fun file p => file.set p.1 p.2) (replicate 152 0)

/-- In an image that starts at 0 the slot is inside. -/
theorem relocations_inside_iff_low : 4096 < 2 ^ 64 ∧
    ∀ r ∈ visits lowSlotFile, ∀ t ∈ (Block.mk 4096 0x100000 0).written r, t + 8 ≤ 4096 :=
  have hinside := relocations_inside_iff lowSlotFile ⟨4096, 0x100000, 0⟩ (by decide)
  ⟨by decide, (hinside.2.2.mpr (by decide +kernel)).2⟩

/-- An image that starts at 8: the slot is in front of it, and is written. -/
theorem relocation_outside :
    (visits lowSlotFile).map (Block.mk 4096 0x100000 8).written = [some (2 ^ 64 - 8)] := by
  decide +kernel

end Indominus.Boot
