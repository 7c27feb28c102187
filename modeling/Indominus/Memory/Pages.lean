import Indominus.Memory.Balance
import Indominus.Memory.Mapping

/-!
# Filling an address space page by page

The loader, the stack setup, `brk` and `mmap` are sequences of `MapsPage` rounds.
-/

namespace Indominus.Memory

open Lib Lib.Radix Multiset

variable {K : Nat → Prop} {exact : Prop} {s s' : Machine} {R : Multiset Nat}
  {Z : Claims Nat} {T f : Nat} {M : Mapper}

lemma frames_eq (m : PhysMem) (k t : Nat) : frames m k t = (uses m k t).map Use.frame := by
  rw [frames, holds, map_map]
  exact map_congr rfl fun u _ => hold_fst u

/-! ## A new frame -/

lemma Family.alloc (h : Family K exact s R Z) (ha : s.allocFrame = some (f, s')) {m : PhysMem}
    (hm : ∀ g, g ≠ f → m.page g = s'.ram.page g) :
    Family K exact { s' with ram := m } R ({(f, true)} + Z) ∧ s.pmm.bitmapTest f = false ∧
      ∀ g, s.pmm.bitmapTest g = true → s'.pmm.bitmapTest g = true ∧ m.page g = s.ram.page g := by
  obtain ⟨hown, hfree, hram, hgrw⟩ := Machine.allocFrame_of_own h.own ha
  have hkept : ∀ g, s.pmm.bitmapTest g = true →
      s'.pmm.bitmapTest g = true ∧ m.page g = s.ram.page g := by
    intro g hg
    have hgf : g ≠ f := by
      rintro rfl
      rw [hg] at hfree
      cases hfree
    rw [hm g hgf, hram]
    exact ⟨(hgrw g hg).1, rfl⟩
  have hsame : ∀ U ∈ R, SameSpace s.ram m U := fun U hU u hu => (hkept _ (h.bit_of_mem hU hu)).2
  have htot : total m R = total s.ram R := total_congr fun U hU => (hsame U hU).holds_eq
  refine ⟨⟨?_, ?_⟩, hfree, hkept⟩
  · convert hown using 1
    rw [htot]
    abel
  intro U hU g
  rw [(hsame U hU).uses_eq]
  exact h.linear U hU g

/-! ## One page -/

/-- A fresh frame has been mapped in the tables of `T`; only the frame itself has been written
besides. -/
inductive MapsPage (M : Mapper) (T : Nat) (s : Machine) : Machine → Prop
  | mk {va f : Nat} {flags : Word} {s₁ s₂ : Machine} {m₁ m₂ : PhysMem}
      (halloc : s.allocFrame = some (f, s₁)) (hfill : ∀ g, g ≠ f → m₁.page g = s₁.ram.page g)
      (hva : va < USER_SPACE_END) (hflags : Pte.IsFlags flags)
        (hpresent : Pte.isPresent flags = true)
      (hmap : M.mapTo { s₁ with ram := m₁ } T va f flags = .ok s₂)
      (hwrite : ∀ g, g ≠ f → m₂.page g = s₂.ram.page g) : MapsPage M T s { s₂ with ram := m₂ }

/-- What a new page of `T` does to the family and to the allocator. -/
structure PageAdded (K : Nat → Prop) (exact : Prop) (T : Nat) (R : Multiset Nat)
    (Z : Claims Nat) (s s' : Machine) : Prop where
  family : Family K exact s' (T ::ₘ R) Z
  grows : Grows (IsTable s.ram 3 T) s s'
  root : ∀ i, 256 ≤ i → s'.ram.entry T i = s.ram.entry T i
  fresh : ∀ u ∈ uses s'.ram 3 T, u ∈ uses s.ram 3 T ∨ s.pmm.bitmapTest u.frame = false
  lent : ∀ p₀, p₀.Sound → Lent p₀ (frames s.ram 3 T) s.pmm → Lent p₀ (frames s'.ram 3 T) s'.pmm

/-- A round adds its page and leaves the other spaces alone. -/
lemma MapsPage.added (h : MapsPage M T s s') (hfam : Family K exact s (T ::ₘ R) Z)
    (hM : M.Documented) : PageAdded K exact T R Z s s' := by
  obtain @⟨va, f, flags, s1, s2, m1, m2, hall, hfill, hva, hfl, hpres, hmap, hwr⟩ := h
  obtain ⟨hfam1, hfree, hkept⟩ := hfam.alloc hall hfill
  have hsame : SameSpace s.ram m1 T := fun u hu => (hkept _ (hfam.bit_of_mem (by simp) hu)).2
  have hpage := hfam1.mapTo hM hva hfl hpres hmap
  have hclm : (f, true) ∈ total m1 (T ::ₘ R) + ({(f, true)} + Z) := by simp
  have hlt : f < 2 ^ 40 := hfam1.own.lt_two_pow (hfam1.own.claimed hclm).2.2
  obtain ⟨N, hN⟩ := hM.mapTo hva hfam1.own_cons.hierarchy hlt hfl hpres hmap
  have hleaf := hpage.leaf_mem hva hlt hfl
  have hfam2 := (hpage.family.writeLeaf hleaf hwr).1
  have huses : uses m2 3 T = uses s.ram 3 T + newTables N + {Use.leaf (Pte.setAddr f flags) f} := by
    have htbs : ∀ u ∈ uses s2.ram 3 T, u.isTable → m2.page u.frame = s2.ram.page u.frame :=
      fun u hu htab => hwr _ (hpage.family.table_ne_leaf hleaf (by simp) hu htab)
    have htgt : Pte.target 0 (Pte.setAddr f flags) = some f := by
      simp [Pte.target, hpres, Pte.addr_setAddr hlt hfl]
    rw [uses_congr htbs, hN.uses, hsame.uses_eq]
    simp [leafUse, htgt]
  have hnew : ∀ g ∈ N.map Prod.snd, s.pmm.bitmapTest g = false := by
    intro g hg
    have hfr := hN.alloc.fresh g hg
    by_contra hset
    rw [(hkept g (by simpa using hset)).1] at hfr
    cases hfr
  refine ⟨hfam2, ?_, ?_, ?_, ?_⟩
  · intro g hg
    have hgf : g ≠ f := by
      rintro rfl
      rw [hg] at hfree
      cases hfree
    obtain ⟨hbit, hpg⟩ := hkept g hg
    obtain ⟨hbit2, hpg2⟩ := hpage.grows g hbit
    refine ⟨hbit2, fun htab => ?_⟩
    rw [hwr g hgf, hpg2, hpg]
    rintro ⟨l, hl⟩
    rw [hsame.uses_eq] at hl
    exact htab ⟨l, hl⟩
  · intro i hi
    have hne : T ≠ f := hpage.family.table_ne_leaf hleaf (by simp)
      (table_mem_visit pageTree s2.ram.tables 3 T) rfl
    rw [PhysMem.entry_of_page (hwr T hne), hpage.root i hi, hsame.entry_eq]
  · intro u hu
    rw [huses, mem_add, mem_add, mem_singleton] at hu
    rcases hu with (hu | hu) | rfl
    · exact .inl hu
    · right
      obtain ⟨c, hc, rfl⟩ := List.mem_map.mp (mem_coe.mp hu)
      exact hnew c.2 (List.mem_map.mpr ⟨c, hc, rfl⟩)
    · exact .inr hfree
  intro p0 hp0 hlent
  obtain ⟨p1, hp1, rfl⟩ := Machine.allocFrame_cases hall
  have hnext := (hlent.allocFrame hp0 hp1).allocates hp0 hN.alloc
  convert hnext using 1
  rw [frames_eq, huses, map_add, map_add, ← frames_eq,
    ← singleton_add]
  simp only [newTables, map_coe, List.map_map, Function.comp_def, Use.frame_table]
  abel

/-! ## An address space under construction -/

/-- The address space `c` was started in the machine `s0` with the upper half of `src`; all that it
uses was free. -/
structure Building (K : Nat → Prop) (exact : Prop) (R : Multiset Nat) (Z : Claims Nat)
    (src : Nat) (s0 : Machine) (c : Nat) (s : Machine) : Prop where
  family : Family K exact s (c ::ₘ R) Z
  grows : Grows (fun _ => False) s0 s
  fresh : ∀ u ∈ uses s.ram 3 c, s0.pmm.bitmapTest u.frame = false
  upper : s0.pmm.bitmapTest src = true → ∀ i, 256 ≤ i → i < 512 →
    s.ram.entry c i = s0.ram.entry src i
  lent : s0.pmm.Sound → Lent s0.pmm (frames s.ram 3 c) s.pmm

lemma createUserPml4_alloc {s0 : Machine} {src c : Nat} (h : createUserPml4 s0 src = .ok (c, s)) :
    s0.pmm.allocFrame = some (c, s.pmm) := by
  rw [createUserPml4, createEmptyPml4, Machine.allocateFrame, Machine.allocFrame] at h
  cases ha : s0.pmm.allocFrame with
  | none => simp [ha] at h
  | some r =>
    simp only [ha, Option.map_some, Except.ok.injEq, Prod.mk.injEq] at h
    obtain ⟨rfl, rfl⟩ := h
    rfl

namespace Building

variable {s0 : Machine} {c src : Nat}

lemma start (h : Family K exact s0 R Z) (hcr : createUserPml4 s0 src = .ok (c, s)) :
    Building K exact R Z src s0 c s := by
  have hc := (createUserPml4_outcome h.own src).ok _ hcr
  have hemp : ∀ i < entryCount 3, Pte.target 3 (s.ram.entry c i) = none := by
    intro i hi
    rw [hc.lower i hi, Pte.target_zero]
  have huses : uses s.ram 3 c = {Use.table 3 c} :=
    visit_of_empty fun i hi => hemp i (Finset.mem_range.mp hi)
  refine ⟨(h.create hc).1, hc.grows, ?_, ?_, ?_⟩
  · intro u hu
    rw [huses, mem_singleton] at hu
    rw [hu]
    exact hc.fresh
  · intro hsrc
    apply hc.upper
    rintro rfl
    rw [hc.fresh] at hsrc
    cases hsrc
  intro hsnd
  have hlent := (Lent.refl s0.pmm).allocFrame hsnd (createUserPml4_alloc hcr)
  rwa [frames_eq, huses, map_singleton, ← cons_zero]

lemma page (h : Building K exact R Z src s0 c s) (hM : M.Documented) (hpage : MapsPage M c s s') :
    Building K exact R Z src s0 c s' := by
  have hadd := hpage.added h.family hM
  refine ⟨hadd.family, ?_, ?_, ?_, ?_⟩
  · intro g hg
    obtain ⟨hbit, hpg⟩ := h.grows g hg
    obtain ⟨hbit', hpg'⟩ := hadd.grows g hbit
    refine ⟨hbit', fun hnot => (hpg' ?_).trans (hpg hnot)⟩
    -- the tables that the mapper writes are new
    rintro ⟨l, hl⟩
    have hfree := h.fresh _ hl
    rw [Use.frame_table, hg] at hfree
    cases hfree
  · intro u hu
    rcases hadd.fresh u hu with hold | hfree
    · exact h.fresh u hold
    by_contra hset
    rw [(h.grows _ (by simpa using hset)).1] at hfree
    cases hfree
  · intro hsrc i hlo hhi
    rw [hadd.root i hlo]
    exact h.upper hsrc i hlo hhi
  · exact fun hsnd => hadd.lent _ hsnd (h.lent hsnd)

lemma pages (h : Building K exact R Z src s0 c s) (hM : M.Documented)
    (hpgs : Relation.ReflTransGen (MapsPage M c) s s') : Building K exact R Z src s0 c s' := by
  induction hpgs with
  | refl => exact h
  | tail _ hlast ih => exact ih.page hM hlast

lemma discard (h : Building K exact R Z src s0 c s) :
    ∃ p', freeUserAddressSpace s c = .ok { s with pmm := p' } ∧
      Family K exact { s with pmm := p' } R Z ∧ (s0.pmm.Sound → s0.pmm.Same p') := by
  obtain ⟨p', hp', hfam⟩ := h.family.free
  refine ⟨p', hp', hfam, fun hsnd => ?_⟩
  obtain ⟨l, p1, hs, hdps, hl⟩ := freeUserAddressSpace_drops hp'
  obtain rfl : p' = p1 := congrArg Machine.pmm hs
  have hlent := h.lent hsnd
  rw [← hl, ← add_zero (l : Multiset Nat)] at hlent
  exact (hdps.lent hsnd hlent).same

end Building

end Indominus.Memory
