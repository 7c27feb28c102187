import Indominus.Memory.Pages

/-! # What a new page looks like -/

namespace Indominus.Memory

open Lib Lib.Radix

variable {K : Nat → Prop} {exact : Prop} {R : Multiset Nat} {Z : Claims Nat}

variable {M : Mapper} {s s' s1 s2 : Machine} {T va f : Nat} {flags : Word} {content : Nat → Byte}

/-! ## Bytes of a frame -/

namespace PhysMem

lemma byte_writeBytes {m : PhysMem} {addr a : Nat} {bs : List Byte} :
    (m.writeBytes addr bs).byte a =
    if addr ≤ a ∧ a < addr + bs.length then bs.getD (a - addr) 0 else m.byte a := by
  induction bs generalizing m addr with
  | nil => rw [writeBytes, if_neg (by simp)]
  | cons b bs ih =>
    rw [writeBytes, ih, byte_setByte]
    by_cases heq : a = addr
    · subst heq
      simp
    by_cases hin : addr + 1 ≤ a ∧ a < addr + 1 + bs.length
    · obtain ⟨k, hk⟩ : ∃ k, a - addr = k + 1 := ⟨a - (addr + 1), by omega⟩
      have hk' : a - (addr + 1) = k := by omega
      rw [if_pos hin, if_pos (by rw [List.length_cons]; omega), hk, hk', List.getD_cons_succ]
    · rw [if_neg hin, if_neg heq, if_neg (by rw [List.length_cons]; omega)]

lemma byte_zeroPage {m : PhysMem} {f j : Nat} (hj : j < PAGE_SIZE) :
    (m.zeroPage f).byte (f * PAGE_SIZE + j) = 0 := by
  have hdiv : (f * PAGE_SIZE + j) / PAGE_SIZE = f := by
    unfold PAGE_SIZE at *
    omega
  rw [byte, hdiv]
  simp [getByte]

lemma byte_of_cleared {m m' : PhysMem} {f j : Nat} (h : m.page f = (m'.zeroPage f).page f)
    (hj : j < PAGE_SIZE) : m.byte (f * PAGE_SIZE + j) = 0 := by
  have hdiv : (f * PAGE_SIZE + j) / PAGE_SIZE = f := by
    unfold PAGE_SIZE at *
    omega
  have hsame : m.page ((f * PAGE_SIZE + j) / PAGE_SIZE) =
    (m'.zeroPage f).page ((f * PAGE_SIZE + j) / PAGE_SIZE) := by
    rw [hdiv, h]
  rw [byte_of_page hsame, byte_zeroPage hj]

end PhysMem

/-! ## The calls of a round -/

lemma Machine.allocateFrame_eq_some (h : s.allocateFrame = some (f, s1)) :
    ∃ s0, s.allocFrame = some (f, s0) ∧ s1 = { s0 with ram := s0.ram.zeroPage f } := by
  rw [Machine.allocateFrame, Option.map_eq_some_iff] at h
  obtain ⟨⟨f', s0⟩, hs0, heq⟩ := h
  cases heq
  exact ⟨s0, hs0, rfl⟩

lemma mapPage_eq_ok : mapPage M s T va f flags = .ok s' ↔ M.mapTo s T va f flags = .ok s' := by
  rw [mapPage]
  cases M.mapTo s T va f flags <;> simp

/-! ## A page and its contents -/

/-- The page of `va` has been mapped to the fresh frame `f`, which holds `content`. -/
structure PageFilled (K : Nat → Prop) (exact : Prop) (T : Nat) (R : Multiset Nat) (Z : Claims Nat)
    (va f : Nat) (flags : Word) (content : Nat → Byte) (s s' : Machine) : Prop where
  family : Family K exact s' (T ::ₘ R) Z
  fresh : s.pmm.bitmapTest f = false
  empty : pteAt s.ram 3 T (pathOf va) = none
  leaf : ∀ q, InUser 3 q →
    pteAt s'.ram 3 T q = if q = pathOf va then some (Pte.setAddr f flags) else pteAt s.ram 3 T q
  addr : Pte.addr (Pte.setAddr f flags) = f
  content : ∀ j < PAGE_SIZE, s'.ram.byte (f * PAGE_SIZE + j) = content j
  grows : Grows (IsTable s.ram 3 T) s s'
  root : ∀ i, 256 ≤ i → s'.ram.entry T i = s.ram.entry T i

lemma PageFilled.of_map (hfam : Family K exact s (T ::ₘ R) Z) (hM : M.Documented) {m1 m2 : PhysMem}
    (hall : s.allocFrame = some (f, s1)) (hfill : ∀ g, g ≠ f → m1.page g = s1.ram.page g)
    (hva : va < USER_SPACE_END) (hfl : Pte.IsFlags flags) (hpres : Pte.isPresent flags = true)
    (hmap : M.mapTo { s1 with ram := m1 } T va f flags = .ok s2)
    (hwr : ∀ g, g ≠ f → m2.page g = s2.ram.page g) :
    PageFilled K exact T R Z va f flags
      (fun j => m2.byte (f * PAGE_SIZE + j)) s { s2 with ram := m2 } ∧
      s2.ram.page f = m1.page f := by
  have hadd := (MapsPage.mk (M := M) hall hfill hva hfl hpres hmap hwr).added hfam hM
  obtain ⟨hfam1, hfree, hkept⟩ := hfam.alloc hall hfill
  have hsame : SameSpace s.ram m1 T := fun u hu => (hkept _ (hfam.bit_of_mem (by simp) hu)).2
  have hpage := hfam1.mapTo hM hva hfl hpres hmap
  have hclm : (f, true) ∈ total m1 (T ::ₘ R) + ({(f, true)} + Z) := by simp
  have hbit := (hfam1.own.claimed hclm).1
  have hlt : f < 2 ^ 40 := hfam1.own.lt_two_pow (hfam1.own.claimed hclm).2.2
  have haddr : Pte.addr (Pte.setAddr f flags) = f := Pte.addr_setAddr hlt hfl
  have hleaf := hpage.leaf_mem hva hlt hfl
  have hpte := (hpage.family.writeLeaf hleaf hwr).2 T (by simp)
  refine ⟨⟨hadd.family, hfree, ?_, ?_, haddr, fun j _ => rfl, hadd.grows, hadd.root⟩, ?_⟩
  · exact (hsame.pteAt_eq (inUser_pathOf hva)).symm.trans hpage.empty
  · intro q hq
    rw [hpte q hq, hpage.leaf q hq, hsame.pteAt_eq hq]
  -- the frame was free, so it is none of the tables that the mapper writes
  refine (hpage.grows f hbit).2 ?_
  rintro ⟨l, hl⟩
  rw [hsame.uses_eq] at hl
  have hset := hfam.bit_of_mem (by simp) hl
  rw [Use.frame_table, hfree] at hset
  cases hset

lemma PageFilled.with_content (h : PageFilled K exact T R Z va f flags content s s')
    {content' : Nat → Byte} (heq : ∀ j < PAGE_SIZE, content j = content' j) :
    PageFilled K exact T R Z va f flags content' s s' :=
  { h with content := fun j hj => (h.content j hj).trans (heq j hj) }

lemma pathOf_eq_iff_page {va va' : Nat} (hva : va < USER_SPACE_END) (hva' : va' < USER_SPACE_END)
    (hal : va % PAGE_SIZE = 0) : pathOf va' = pathOf va ↔ va ≤ va' ∧ va' < va + PAGE_SIZE := by
  rw [pathOf_eq_iff hva' hva]
  unfold PAGE_SIZE at *
  omega

lemma PageFilled.view (h : PageFilled K exact T R Z va f flags content s s')
    (hfam : Family K exact s (T ::ₘ R) Z) {va' : Nat} (hva' : va' < USER_SPACE_END) :
    view s'.ram T va' = if pathOf va' = pathOf va then some (content (va' % PAGE_SIZE))
      else view s.ram T va' := by
  have hpath := inUser_pathOf hva'
  rw [Memory.view, h.leaf _ hpath]
  by_cases heq : pathOf va' = pathOf va
  · rw [if_pos heq, if_pos heq, Option.map_some, h.addr, h.content _ (Nat.mod_lt _ (by decide))]
  rw [if_neg heq, if_neg heq, Memory.view]
  cases he : pteAt s.ram 3 T (pathOf va') with
  | none => rfl
  | some e =>
    have hmem := leaf_mem_uses hpath he
    have hkeep := (h.grows _ (hfam.bit_of_mem (by simp) hmem)).2
      (hfam.own_cons.not_isTable_leaf hmem)
    rw [Option.map_some, Option.map_some, PhysMem.byte_of_page]
    rw [frame_div]
    exact hkeep

def KeepsView (T : Nat) (s s' : Machine) : Prop :=
  ∀ va < USER_SPACE_END, ∀ b, view s.ram T va = some b → view s'.ram T va = some b

lemma KeepsView.refl (T : Nat) (s : Machine) : KeepsView T s s := fun _ _ _ hb => hb

lemma KeepsView.trans {s'' : Machine} (h : KeepsView T s s') (h' : KeepsView T s' s'') :
    KeepsView T s s'' :=
  fun va hva b hb => h' va hva b (h va hva b hb)

lemma PageFilled.keeps (h : PageFilled K exact T R Z va f flags content s s')
    (hfam : Family K exact s (T ::ₘ R) Z) : KeepsView T s s' := by
  intro a ha b hb
  rw [h.view hfam ha, if_neg, hb]
  -- the new page was not mapped before
  intro heq
  rw [Memory.view, heq, h.empty] at hb
  cases hb

end Indominus.Memory
