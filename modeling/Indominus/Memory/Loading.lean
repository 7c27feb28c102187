import Indominus.Memory.Elf
import Indominus.Memory.Pages

/-!
# The loader, page by page

The first copy of a segment can run over its frame, unless the segment is contained.
-/

namespace Indominus.Memory

open Lib

/-! ## Contained segments -/

/-- The bytes for the first page of the segment end inside its frame. -/
def Phdr.Contained (ph : Phdr) : Prop := ph.vaddr % PAGE_SIZE + min ph.memsz PAGE_SIZE ≤ PAGE_SIZE

instance (ph : Phdr) : Decidable ph.Contained := inferInstanceAs (Decidable (_ ≤ _))

variable {ph : Phdr} {i : Nat}

namespace Phdr

lemma length_pageBytes_le (ph : Phdr) (data : List Byte) (pageVirt : Nat) :
    (ph.pageBytes data pageVirt).length ≤ min PAGE_SIZE (ph.memsz - ph.segDataStart pageVirt) := by
  have htake : ((data.drop (ph.offset + ph.segDataStart pageVirt)).take
      (ph.dataInPage pageVirt)).length ≤ ph.dataInPage pageVirt := List.length_take_le ..
  rw [pageBytes, List.length_append, List.length_replicate]
  unfold bssInPage dataInPage segDataEnd at *
  split_ifs at * <;> omega

/-- Only the first page of a segment is in danger. -/
lemma fits_of_contained (h : i = 0 → ph.Contained) (data : List Byte) :
    ph.pageOffset (ph.virtStart + i * PAGE_SIZE) +
      (ph.pageBytes data (ph.virtStart + i * PAGE_SIZE)).length ≤ PAGE_SIZE := by
  have hlen := ph.length_pageBytes_le data (ph.virtStart + i * PAGE_SIZE)
  unfold Contained pageOffset at *
  split_ifs with hbef
  · -- the page begins before the segment
    obtain rfl : i = 0 := by
      simp only [virtStart, PAGE_SIZE] at hbef
      omega
    have h := h rfl
    have hst : ph.segDataStart (ph.virtStart + 0 * PAGE_SIZE) = 0 := by
      rw [segDataStart, if_neg (by omega)]
    simp only [virtStart, PAGE_SIZE] at *
    omega
  · omega

lemma isFlags_pageFlags (ph : Phdr) : Pte.IsFlags ph.pageFlags := by
  unfold pageFlags
  split_ifs <;> unfold Pte.IsFlags <;> decide

lemma isPresent_pageFlags (ph : Phdr) : Pte.isPresent ph.pageFlags = true := by
  unfold pageFlags
  split_ifs <;> decide

lemma page_lt (hend : ph.virtEnd < USER_SPACE_END) (hi : i < ph.numPages) :
    ph.virtStart + i * PAGE_SIZE < USER_SPACE_END := by
  have hle : (i + 1) * PAGE_SIZE ≤ ph.virtEnd - ph.virtStart :=
    (Nat.le_div_iff_mul_le (by decide)).mp hi
  simp only [PAGE_SIZE] at *
  omega

end Phdr

/-! ## Mapping a cleared page -/

variable {M : Mapper} {s s' : Machine} {T : Nat}

lemma MapsPage.of_allocateFrame {s1 s2 : Machine} {f va : Nat} {flags : Word} {m : PhysMem}
    (hall : s.allocateFrame = some (f, s1)) (hmap : mapPage M s1 T va f flags = .ok s2)
    (hva : va < USER_SPACE_END) (hfl : Pte.IsFlags flags) (hpres : Pte.isPresent flags = true)
    (hwr : ∀ g, g ≠ f → m.page g = s2.ram.page g) : MapsPage M T s { s2 with ram := m } := by
  rw [Machine.allocateFrame, Option.map_eq_some_iff] at hall
  obtain ⟨⟨f', s0⟩, hs0, heq⟩ := hall
  cases heq
  rw [mapPage] at hmap
  split at hmap
  · cases hmap
  rename_i s3 hmto
  cases hmap
  exact .mk hs0 (fun g hg => PhysMem.page_zeroPage_of_ne hg) hva hfl hpres hmto hwr

/-! ## The loops of the loader -/

abbrev MapsPages (M : Mapper) (T : Nat) : Machine → Machine → Prop :=
  Relation.ReflTransGen (MapsPage M T)

/-- The loader has gone through a sequence of rounds: to its end, or up to an error that is not a
panic. -/
def Loads (M : Mapper) (T : Nat) (s : Machine) {α : Type} (machine : α → Machine)
    (r : Except LoadStop α) : Prop :=
  Outcome r (fun a => MapsPages M T s (machine a)) fun stop =>
    ∀ e s', stop = .fail e s' → MapsPages M T s s'

end Indominus.Memory
