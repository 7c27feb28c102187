import Indominus.Memory.Family
import Indominus.Memory.Mapper

/-! # Mapping and unmapping pages in a family of address spaces -/

namespace Indominus.Memory

open Lib Lib.Radix Multiset

variable {K : Nat → Prop} {exact : Prop} {s s' : Machine} {R : Multiset Nat}
  {Z : Claims Nat} {T va frame : Nat} {flags : Word} {M : Mapper}

/-! ## Mapping -/

/-- The page `va` of the space `T` has been mapped with the entry `e`. -/
structure PageMapped (K : Nat → Prop) (exact : Prop) (T : Nat) (R : Multiset Nat)
    (Z : Claims Nat) (va : Nat) (e : Word) (s s' : Machine) : Prop where
  family : Family K exact s' (T ::ₘ R) Z
  empty : pteAt s.ram 3 T (pathOf va) = none
  leaf : ∀ q, InUser 3 q → pteAt s'.ram 3 T q = if q = pathOf va then some e else pteAt s.ram 3 T q
  grows : Grows (IsTable s.ram 3 T) s s'
  root : ∀ i, 256 ≤ i → s'.ram.entry T i = s.ram.entry T i

/-- The frame is a leaf now, so that writing to it changes no table. -/
lemma PageMapped.leaf_mem (h : PageMapped K exact T R Z va (Pte.setAddr frame flags) s s')
    (hva : va < USER_SPACE_END) (hfrm : frame < 2 ^ 40) (hfl : Pte.IsFlags flags) :
    Use.leaf (Pte.setAddr frame flags) frame ∈ uses s'.ram 3 T := by
  have hpte := h.leaf _ (inUser_pathOf hva)
  rw [if_pos rfl] at hpte
  have hmem := leaf_mem_uses (inUser_pathOf hva) hpte
  rwa [Pte.addr_setAddr hfrm hfl] at hmem

lemma map_hold_newTables (N : List (Nat × Nat)) :
    (newTables N).map hold = ((N.map Prod.snd).map fun f => (f, true) : List (Nat × Bool)) := by
  simp [newTables, hold, Function.comp_def]

/-- Mapping an owned frame adds one page to one space. -/
lemma Family.mapTo (h : Family K exact s (T ::ₘ R) ({(frame, true)} + Z)) (hM : M.Documented)
    (hva : va < USER_SPACE_END) (hfl : Pte.IsFlags flags) (hflags : Pte.isPresent flags = true)
    (hok : M.mapTo s T va frame flags = .ok s') :
    PageMapped K exact T R Z va (Pte.setAddr frame flags) s s' := by
  have hclm : (frame, true) ∈ total s.ram (T ::ₘ R) + ({(frame, true)} + Z) := by simp
  have hfrm : frame < 2 ^ 40 := h.own.lt_two_pow (h.own.claimed hclm).2.2
  obtain ⟨N, hm⟩ := hM.mapTo hva h.own_cons.hierarchy hfrm hfl hflags hok
  have htgt : Pte.target 0 (Pte.setAddr frame flags) = some frame := by
    simp [Pte.target, hflags, Pte.addr_setAddr hfrm hfl]
  obtain ⟨w, hw⟩ : ∃ w, w = Pte.isWritable flags := ⟨_, rfl⟩
  obtain ⟨A, hA⟩ : ∃ A : Claims Nat, A = (newTables N).map hold := ⟨_, rfl⟩
  have hhol : holds s'.ram 3 T = holds s.ram 3 T + A + {(frame, w)} := by
    rw [holds, hm.uses, hA, hw]
    simp [leafUse, htgt, hold, holds]
  have hsame : ∀ U ∈ R, SameSpace s.ram s'.ram U := fun U hU =>
    h.bystander (fun g hg htab => (hm.grows g hg).2 htab) hU
  have hown :
      Own K exact s'.pmm ({(frame, true)} + (A + (holds s.ram 3 T + (total s.ram R + Z)))) := by
    have hnew := hm.alloc.own h.own_cons
    rw [← map_hold_newTables, ← hA] at hnew
    convert hnew using 1
    abel
  have hown' : Own K exact s'.pmm (holds s'.ram 3 T + (total s.ram R + Z)) := by
    have hleaf : Own K exact s'.pmm
        ({(frame, w)} + (A + (holds s.ram 3 T + (total s.ram R + Z)))) :=
      hown.retag fun _ => hown.ledger.sole (frame, true) (by simp) rfl
    convert hleaf using 1
    rw [hhol]
    abel
  refine ⟨?_, hm.empty, hm.leaf, hm.grows, fun i hi => hm.high i hi⟩
  refine h.of_bystanders hsame hown' fun f => ?_
  -- a frame of the tree is one of the old ones, or new and claimed once
  rw [← claims_holds, hhol, claims_add, claims_add, claims_singleton]
  have hold' := h.linear T (by simp) f
  rw [← claims_holds] at hold'
  by_cases hf : frame = f
  · subst hf
    have hrest := hown.ledger.claims_rest
    rw [claims_add, claims_add] at hrest
    rw [if_pos rfl]
    omega
  rw [if_neg hf]
  by_cases hnew : claims f A = 0
  · omega
  obtain ⟨c, hc, rfl⟩ := countP_pos.mp (Nat.pos_of_ne_zero hnew)
  have hsole : (c.1, true) ∈ A := by
    rw [hA, map_hold_newTables] at hc ⊢
    obtain ⟨g, hg, rfl⟩ := List.mem_map.mp (mem_coe.mp hc)
    exact hc
  have hle := hown.ledger.claims_sole_le
    (mem_add.mpr (.inr (mem_add.mpr (.inl hsole))))
  rw [claims_add, claims_add, claims_add] at hle
  omega

/-! ## Unmapping -/

lemma holds_of_unmapped {m m' : PhysMem} {path : List Nat} {e : Word} {f : Nat}
    (h : LeafEdit m m' T path e 0) (he : Pte.target 0 e = some f) :
    holds m 3 T = {(f, Pte.isWritable e)} + holds m' 3 T := by
  have huses := congrArg (map hold) h.uses
  have hzero : Pte.target 0 (0 : Word) = none := Pte.target_zero 0
  simp only [leafUse, pageTree_target, he, hzero, Option.elim_some, Option.elim_none, map_add,
    map_singleton, add_zero, hold] at huses
  rw [holds, ← huses, add_comm]
  rfl

lemma Family.unmap (h : Family K exact s (T ::ₘ R) Z) {m : PhysMem} {path : List Nat} {e : Word}
    (hedit : LeafEdit s.ram m T path e 0) (he : Pte.target 0 e = some frame) :
    Family K exact { s with ram := m } (T ::ₘ R) ({(frame, Pte.isWritable e)} + Z) := by
  have hown := h.own_cons
  rw [holds_of_unmapped hedit he] at hown
  have hkps : ∀ g, s.pmm.bitmapTest g = true → ¬ IsTable s.ram 3 T g →
      ({ s with ram := m } : Machine).ram.page g = s.ram.page g := fun g _ hg => hedit.keeps g hg
  have hsame : ∀ U ∈ R, SameSpace s.ram m U := fun U hU => h.bystander hkps hU
  refine h.of_bystanders hsame ?_ fun f => ?_
  · convert hown using 1
    abel
  have hcnt := congrArg (refs f) hedit.uses
  have hold := h.linear T (mem_cons_self _ _) f
  have hzero : leafUse pageTree (0 : Word) = 0 := by
    simp only [leafUse, pageTree_target, Pte.target_zero, Option.elim_none]
  rw [hzero, add_zero, refs_add] at hcnt
  change refs f (uses m 3 T) ≤ 1
  omega

end Indominus.Memory
