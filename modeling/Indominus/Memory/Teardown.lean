import Indominus.Memory.PageFill
import Indominus.Memory.PmmRuns

/-! # Teardown undoes construction -/

namespace Indominus.Memory

open Lib Lib.Radix Multiset

variable {M : Mapper} {K : Nat → Prop} {s s' s0 s1 : Machine} {T src f : Nat} {Q Q' : Multiset Nat}

/-- A step in the life of the space `T`. -/
inductive SpaceStep (M : Mapper) (T : Nat) : Machine × Multiset Nat → Machine × Multiset Nat → Prop
  | take {s s' : Machine} {f : Nat} {Q : Multiset Nat} (h : s.allocFrame = some (f, s')) :
      SpaceStep M T (s, Q) (s', f ::ₘ Q)
  /-- `map_page`, with a frame in hand. -/
  | map {s s' : Machine} {va f : Nat} {flags : Word} {Q : Multiset Nat} (hva : va < USER_SPACE_END)
      (hflags : Pte.IsFlags flags) (hpresent : Pte.isPresent flags = true)
        (h : mapPage M s T va f flags = .ok s') :
      SpaceStep M T (s, f ::ₘ Q) (s', Q)
  | unmap {s s' : Machine} {va f : Nat} {Q : Multiset Nat} (hva : va < USER_SPACE_END)
      (h : unmapPage M s T va = .ok (f, s')) : SpaceStep M T (s, Q) (s', f ::ₘ Q)
  | release {s s' : Machine} {f : Nat} {Q : Multiset Nat}
      (h : s.decref f = .ok s' ∨ s.freeFrame f = .ok s') :
      SpaceStep M T (s, f ::ₘ Q) (s', Q)
  | store {s : Machine} {m : PhysMem} {Q : Multiset Nat}
      (h : ∀ g, m.page g ≠ s.ram.page g → g ∈ Q ∨ ∃ e, Use.leaf e g ∈ uses s.ram 3 T) :
      SpaceStep M T (s, Q) ({ s with ram := m }, Q)

def inHand (Q : Multiset Nat) : Claims Nat := Q.map fun f => (f, true)

@[simp] lemma inHand_cons (f : Nat) (Q : Multiset Nat) :
    inHand (f ::ₘ Q) = {(f, true)} + inHand Q := by
  rw [inHand, map_cons, singleton_add, inHand]

/-- The space `T` has been raised on the machine `s0`, and the frames `Q` are in hand. -/
structure Raised (s0 : Machine) (T : Nat) (s : Machine) (Q : Multiset Nat) : Prop where
  family : Family (fun f => s0.pmm.bitmapTest f = true) False s (T ::ₘ 0) (inHand Q)
  lent : Lent s0.pmm (frames s.ram 3 T + Q) s.pmm

lemma Pmm.Consistent.sound {p : Pmm} (h : p.Consistent) : p.Sound := by
  refine ⟨h.unreferenced, ?_⟩
  rw [h.counts]
  refine Finset.card_le_card fun f hf => ?_
  obtain ⟨hin, hbit⟩ := Finset.mem_filter.mp hf
  exact Pmm.mem_freeSet.mpr ⟨(Finset.mem_Ico.mp hin).2, hbit⟩

lemma Pmm.Consistent.family (h : s0.pmm.Consistent) :
    Family (fun f => s0.pmm.bitmapTest f = true) False s0 0 0 := by
  have htot : total s0.ram 0 + 0 = 0 := by simp [total]
  refine ⟨?_, fun T hT => absurd hT (notMem_zero T)⟩
  refine ⟨⟨fun f => Nat.zero_le _, fun c hc => absurd hc (notMem_zero c), False.elim⟩,
    fun f hf => ?_, fun f hf => ⟨hf, claims_zero f⟩, h.size⟩
  obtain ⟨hpos, hlt⟩ := h.inRange f hf.ne'
  refine ⟨?_, Nat.pos_of_ne_zero hpos, hlt⟩
  by_contra hbit
  exact hf.ne' (h.unreferenced f (Bool.eq_false_of_not_eq_true hbit))

namespace Raised

lemma create (h : s0.pmm.Consistent) (hcr : createUserPml4 s0 src = .ok (T, s)) :
    Raised s0 T s 0 := by
  have hbld := Building.start h.family hcr
  refine ⟨hbld.family, ?_⟩
  rw [add_zero]
  exact hbld.lent h.sound

lemma take (h : Raised s0 T s Q) (hp : s0.pmm.Sound) (hall : s.allocFrame = some (f, s')) :
    Raised s0 T s' (f ::ₘ Q) := by
  obtain ⟨p, hp', rfl⟩ := Machine.allocFrame_cases hall
  refine ⟨?_, ?_⟩
  · rw [inHand_cons]
    exact (h.family.alloc hall fun _ _ => rfl).1
  · rw [add_cons]
    exact h.lent.allocFrame hp hp'

lemma frames_of_mapped {e : Word} {path : List Nat} {N : List (Nat × Nat)}
    (hN : Mapped 3 s s' T path e N) (he : Pte.target 0 e = some f) :
    frames s'.ram 3 T = (N.map Prod.snd : List Nat) + (f ::ₘ frames s.ram 3 T) := by
  rw [frames_eq, hN.uses, map_add, map_add, ← frames_eq, ← singleton_add]
  simp only [leafUse, pageTree_target, he, Option.elim_some, map_singleton, newTables, map_coe,
    List.map_map, Function.comp_def, Use.frame_table, Use.frame_leaf]
  abel

lemma map (h : Raised s0 T s (f ::ₘ Q)) (hp : s0.pmm.Sound) (hM : M.Documented) {va : Nat}
    {flags : Word} (hva : va < USER_SPACE_END) (hfl : Pte.IsFlags flags)
    (hpres : Pte.isPresent flags = true) (hmap : mapPage M s T va f flags = .ok s') :
    Raised s0 T s' Q := by
  have hfam := h.family
  rw [inHand_cons] at hfam
  have hmto := mapPage_eq_ok.mp hmap
  refine ⟨(hfam.mapTo hM hva hfl hpres hmto).family, ?_⟩
  have hclm : (f, true) ∈ total s.ram (T ::ₘ 0) + ({(f, true)} + inHand Q) := by simp
  have hlt : f < 2 ^ 40 := hfam.own.lt_two_pow (hfam.own.claimed hclm).2.2
  obtain ⟨N, hN⟩ := hM.mapTo hva hfam.own_cons.hierarchy hlt hfl hpres hmto
  have htgt : Pte.target 0 (Pte.setAddr f flags) = some f := by
    simp [Pte.target, hpres, Pte.addr_setAddr hlt hfl]
  have hlent := h.lent.allocates hp hN.alloc
  rwa [frames_of_mapped hN htgt, add_assoc, cons_add, ← add_cons]

lemma unmap (h : Raised s0 T s Q) (hM : M.Documented) {va : Nat} (hva : va < USER_SPACE_END)
    (hunm : unmapPage M s T va = .ok (f, s')) : Raised s0 T s' (f ::ₘ Q) := by
  rw [unmapPage] at hunm
  split at hunm
  · cases hunm
  rename_i frame m hm
  cases hunm
  obtain ⟨e, he, rfl, hedit⟩ := hM.unmap hva h.family.own_cons.tablesOnce hm
  have htgt := target_of_pteAt (inUser_pathOf hva) he
  have hframes : frames s.ram 3 T = Pte.addr e ::ₘ frames m 3 T := by
    rw [frames, holds_of_unmapped hedit htgt, map_add, map_singleton, singleton_add,
      frames]
  have hlent := h.lent
  rw [hframes, cons_add, ← add_cons] at hlent
  have hone : s.pmm.refcount (Pte.addr e) = 1 := by
    rw [hlent.count, if_pos (by simp)]
  refine ⟨?_, hlent⟩
  -- the leaf may be read-only, but it was the only reference
  have hfam := h.family.unmap hedit htgt
  refine ⟨?_, hfam.linear⟩
  have hown := hfam.own
  rw [add_left_comm] at hown
  rw [inHand_cons, add_left_comm]
  exact hown.retag fun _ => hone

lemma release (h : Raised s0 T s (f ::ₘ Q)) (hp : s0.pmm.Sound)
    (hrelease : s.decref f = .ok s' ∨ s.freeFrame f = .ok s') : Raised s0 T s' Q := by
  have hone : s.pmm.refcount f = 1 := by
    rw [h.lent.count, if_pos (by simp)]
  obtain ⟨p, hdrop, rfl⟩ : ∃ p, (s.pmm.decref f = .ok p ∨ s.pmm.freeFrame f = .ok p) ∧
    s' = { s with pmm := p } := by
    rcases hrelease with hdec | hfree
    · obtain ⟨p, hp, rfl⟩ := Machine.decref_cases hdec
      exact ⟨p, .inl hp, rfl⟩
    · obtain ⟨p, hp, rfl⟩ := Machine.freeFrame_cases hfree
      exact ⟨p, .inr hp, rfl⟩
  obtain rfl := Drops.release_of_one hdrop hone
  have hlent := h.lent
  rw [add_cons] at hlent
  refine ⟨⟨?_, h.family.linear⟩, hlent.release hp⟩
  have hown := h.family.own
  rw [inHand_cons, add_left_comm] at hown
  exact hown.release hone

lemma store (h : Raised s0 T s Q) {m : PhysMem}
    (hm : ∀ g, m.page g ≠ s.ram.page g → g ∈ Q ∨ ∃ e, Use.leaf e g ∈ uses s.ram 3 T) :
    Raised s0 T { s with ram := m } Q := by
  have htbs : ∀ u ∈ uses s.ram 3 T, u.isTable → m.page u.frame = s.ram.page u.frame := by
    intro u hu htab
    by_contra hne
    rcases hm _ hne with hhand | ⟨e, hleaf⟩
    · have hclm : (u.frame, true) ∈ total s.ram 0 + inHand Q :=
        mem_add.mpr (.inr (mem_map.mpr ⟨_, hhand, rfl⟩))
      exact h.family.own_cons.not_isTable hclm (isTable_of_mem hu htab)
    · exact h.family.table_ne_leaf hleaf (mem_cons_self _ _) hu htab rfl
  have huses : uses m 3 T = uses s.ram 3 T := uses_congr htbs
  have hhol : holds m 3 T = holds s.ram 3 T := by rw [holds, huses, holds]
  refine ⟨h.family.of_bystanders (fun U hU => absurd hU (notMem_zero U)) ?_ fun g => ?_, ?_⟩
  · rw [hhol]
    exact h.family.own_cons
  · rw [huses]
    exact h.family.linear T (mem_cons_self _ _) g
  rw [frames, hhol]
  exact h.lent

lemma step (h : Raised s0 T s Q) (hp : s0.pmm.Sound) (hM : M.Documented)
    (hstep : SpaceStep M T (s, Q) (s', Q')) : Raised s0 T s' Q' := by
  cases hstep with
  | take hall => exact h.take hp hall
  | map hva hfl hpres hmap => exact h.map hp hM hva hfl hpres hmap
  | unmap hva hunm => exact h.unmap hM hva hunm
  | release hrelease => exact h.release hp hrelease
  | store hm => exact h.store hm

lemma steps (h : Raised s0 T s Q) (hp : s0.pmm.Sound) (hM : M.Documented)
    (hsts : Relation.ReflTransGen (SpaceStep M T) (s, Q) (s', Q')) : Raised s0 T s' Q' := by
  obtain ⟨x, hx⟩ : ∃ x, x = (s', Q') := ⟨_, rfl⟩
  rw [← hx] at hsts
  suffices hraised : Raised s0 T x.1 x.2 by
    rw [hx] at hraised
    exact hraised
  clear hx
  induction hsts with
  | refl => exact h
  | tail _ hlast ih => exact ih.step hp hM hlast

end Raised

/-- **Teardown undoes construction.**  After any steps that leave no frame in hand,
`free_user_address_space` restores the allocator and gives up only frames of the lower half. -/
theorem teardown_restores (hM : M.Documented) (hp : s0.pmm.Consistent)
    (hcreate : createUserPml4 s0 src = .ok (T, s1))
    (hsteps : Relation.ReflTransGen (SpaceStep M T) (s1, 0) (s, 0)) :
    ∃ s' l, freeUserAddressSpace s T = .ok s' ∧ Drops s.pmm l s'.pmm ∧
      (∀ f ∈ l, ∃ u ∈ uses s.ram 3 T, u.frame = f) ∧ s0.pmm.Same s'.pmm := by
  have hraised := (Raised.create hp hcreate).steps hp.sound hM hsteps
  obtain ⟨p', hfree, -⟩ := hraised.family.free
  obtain ⟨l, p1, heq, hdps, hl⟩ := freeUserAddressSpace_drops hfree
  obtain rfl : p' = p1 := congrArg Machine.pmm heq
  refine ⟨_, l, hfree, hdps, fun f hf => ?_, ?_⟩
  · rw [← mem_coe, hl] at hf
    exact mem_frames.mp hf
  have hlent := hraised.lent
  rw [← hl] at hlent
  exact (hdps.lent hp.sound hlent).same

/-- A machine after `init` on 16 frames of memory. -/
def freshMachine : Machine := ⟨Pmm.bss.init (lowMap 0x10000), Store.const (Store.const 0)⟩

/-- Two pages are mapped, and one of them is unmapped again. -/
theorem teardown_restores_two : ∃ T s1 s s', createUserPml4 freshMachine 0 = .ok (T, s1) ∧
    Relation.ReflTransGen (SpaceStep referenceMapper T) (s1, 0) (s, 0) ∧
      freshMachine.pmm.Consistent ∧
    freeUserAddressSpace s T = .ok s' ∧ freshMachine.pmm.Same s'.pmm := by
  have hruns : meets (createUserPml4 freshMachine 0) (fun r => r.2.allocFrame.any fun a =>
      meets (mapPage referenceMapper a.2 r.1 0x400000 a.1 Pte.PRESENT) fun s3 =>
      s3.allocFrame.any fun b =>
        meets (mapPage referenceMapper b.2 r.1 0x401000 b.1 Pte.PRESENT) fun s5 =>
          meets (unmapPage referenceMapper s5 r.1 0x400000) fun u =>
            meets (u.2.freeFrame u.1) fun _ => true) = true := by
    decide +kernel
  obtain ⟨⟨T, s1⟩, hcr, htake⟩ := exists_of_meets hruns
  obtain ⟨⟨f, s2⟩, htake, hmap⟩ := Option.any_eq_true _ _ |>.mp htake
  obtain ⟨s3, hmap, htake'⟩ := exists_of_meets hmap
  obtain ⟨⟨g, s4⟩, htake', hmap'⟩ := Option.any_eq_true _ _ |>.mp htake'
  obtain ⟨s5, hmap', hunm⟩ := exists_of_meets hmap'
  obtain ⟨⟨u, s6⟩, hunm, hfree⟩ := exists_of_meets hunm
  obtain ⟨s7, hfree, -⟩ := exists_of_meets hfree
  have hsts : Relation.ReflTransGen (SpaceStep referenceMapper T) (s1, 0) (s7, 0) :=
    ((((((Relation.ReflTransGen.refl.tail (.take htake)).tail
      (.map (by decide) (by decide) (by decide) hmap)).tail (.take htake')).tail
      (.map (by decide) (by decide) (by decide) hmap')).tail (.unmap (by decide) hunm)).tail
      (.release (.inr hfree)))
  have hp : freshMachine.pmm.Consistent := .of_init (lowMap_wellFormed (by decide))
  obtain ⟨s', -, hteardown, -, -, hsame⟩ := teardown_restores referenceMapper_documented hp hcr hsts
  exact ⟨T, s1, s7, s', hcr, hsts, hp, hteardown, hsame⟩

end Indominus.Memory
