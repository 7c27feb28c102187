import Indominus.Memory.AddressSpace
import Indominus.Memory.Fault
import Indominus.Memory.Fork

/-! # Families of address spaces -/

namespace Indominus.Memory

open Lib Lib.Radix Option Multiset Pte

/-! ## The claims of a family -/

def total (m : PhysMem) (R : Multiset Nat) : Claims Nat := (R.map (holds m 3)).sum

@[simp] lemma total_zero (m : PhysMem) : total m 0 = 0 := rfl

@[simp] lemma total_cons (m : PhysMem) (T : Nat) (R : Multiset Nat) :
    total m (T ::ₘ R) = holds m 3 T + total m R := by
  rw [total, map_cons, sum_cons, total]

lemma total_congr {m m' : PhysMem} {R : Multiset Nat}
    (h : ∀ T ∈ R, holds m' 3 T = holds m 3 T) : total m' R = total m R := by
  rw [total, total, map_congr rfl h]

lemma holds_le_total {m : PhysMem} {R : Multiset Nat} {T : Nat} (h : T ∈ R) :
    holds m 3 T ≤ total m R := by
  obtain ⟨R', rfl⟩ := exists_cons_of_mem h
  rw [total_cons]
  exact le_add_right _ _

variable {u : Use Nat Word} {f va : Nat} {e e' : Word} {path : List Nat} {m m' : PhysMem} {T : Nat}

lemma hold_mem_total {R : Multiset Nat} {U : Nat} (hU : U ∈ R) (hu : u ∈ uses m 3 U) :
    hold u ∈ total m R :=
  mem_of_le (holds_le_total hU) (mem_map.mpr ⟨u, hu, rfl⟩)

lemma claims_total_le {R : Multiset Nat} (h : ∀ T ∈ R, refs f (uses m 3 T) ≤ 1) :
    claims f (total m R) ≤ R.card := by
  induction R using Multiset.induction with
  | empty => simp
  | cons T R ih =>
    have hT := h T (mem_cons_self T R)
    have hR := ih fun U hU => h U (mem_cons_of_mem hU)
    rw [total_cons, claims_add, claims_holds, card_cons]
    omega

/-- The spaces `R` own what they use, and none uses a frame twice; `Z` are claims of others. -/
structure Family (K : Nat → Prop) (exact : Prop) (s : Machine) (R : Multiset Nat)
    (Z : Claims Nat) : Prop where
  own : Own K exact s.pmm (total s.ram R + Z)
  linear : ∀ T ∈ R, ∀ f, refs f (uses s.ram 3 T) ≤ 1

/-! ## Spaces that nothing happens to -/

/-- Everything that the space `U` uses has kept its contents. -/
def SameSpace (m m' : PhysMem) (U : Nat) : Prop :=
  ∀ u ∈ uses m 3 U, m'.page u.frame = m.page u.frame

namespace SameSpace

variable {m m' m'' : PhysMem} {U : Nat}

lemma refl (m : PhysMem) (U : Nat) : SameSpace m m U := fun _ _ => rfl

section

variable (h : SameSpace m m' U)

include h

lemma uses_eq : uses m' 3 U = uses m 3 U :=
  uses_congr fun u hu _ => h u hu

lemma trans (h' : SameSpace m' m'' U) : SameSpace m m'' U := by
  intro u hu
  have hu' : u ∈ uses m' 3 U := by rwa [h.uses_eq]
  exact (h' u hu').trans (h u hu)

lemma holds_eq : holds m' 3 U = holds m 3 U := by
  rw [holds, holds, h.uses_eq]

lemma pteAt_eq {path : List Nat} (hpath : InUser 3 path) : pteAt m' 3 U path = pteAt m 3 U path :=
  leafAt_congr hpath fun u hu _ => PhysMem.tables_of_page (h u hu)

lemma entry_eq (i : Nat) : m'.entry U i = m.entry U i :=
  PhysMem.entry_of_page (h _ (table_mem_visit pageTree m.tables 3 U)) i

end

end SameSpace

/-! ## What user code reads -/

/-- The byte at a user address of the space `T`. -/
def view (m : PhysMem) (T va : Nat) : Option Byte :=
  (pteAt m 3 T (pathOf va)).map fun e => m.byte (Pte.addr e * PAGE_SIZE + va % PAGE_SIZE)

lemma frame_div (f va : Nat) : (f * PAGE_SIZE + va % PAGE_SIZE) / PAGE_SIZE = f := by
  simp only [PAGE_SIZE]
  omega

lemma leaf_mem_uses (hpath : InUser 3 path) (h : pteAt m 3 T path = some e) :
    Use.leaf e (addr e) ∈ uses m 3 T := by
  obtain ⟨f, hf, hmem⟩ := leaf_mem hpath h
  obtain rfl : addr e = f := addr_of_target hf
  exact hmem

lemma target_of_pteAt (hpath : InUser 3 path) (h : pteAt m 3 T path = some e) :
    target 0 e = some (addr e) := by
  obtain ⟨f, hf, -⟩ := leaf_mem hpath h
  obtain rfl : addr e = f := addr_of_target hf
  exact hf

lemma page_eq_of_frame {va' : Nat} (hva : va < USER_SPACE_END)
    (hva' : va' < USER_SPACE_END) (he : pteAt m 3 T (pathOf va) = some e)
    (he' : pteAt m 3 T (pathOf va') = some e') (hfrm : addr e' = addr e)
    (hone : refs (addr e) (uses m 3 T) ≤ 1) : va' / PAGE_SIZE = va / PAGE_SIZE := by
  rw [← pathOf_eq_iff hva' hva]
  have htgt' := target_of_pteAt (inUser_pathOf hva') he'
  rw [hfrm] at htgt'
  exact endsOnce_of_refs hone _ _ _ _ (inUser_pathOf hva') (inUser_pathOf hva) he' he htgt'
    (target_of_pteAt (inUser_pathOf hva) he)

lemma SameSpace.view_eq {U : Nat} (h : SameSpace m m' U) (hva : va < USER_SPACE_END) :
    view m' U va = view m U va := by
  rw [view, view, h.pteAt_eq (inUser_pathOf hva)]
  cases he : pteAt m 3 U (pathOf va) with
  | none => rfl
  | some e =>
    have hpage := h _ (leaf_mem_uses (inUser_pathOf hva) he)
    rw [map_some, map_some, PhysMem.byte_of_page]
    rwa [frame_div]

/-! ## Operations on one space of a family -/

namespace Family

variable {K : Nat → Prop} {exact : Prop} {s s' : Machine} {R : Multiset Nat}
  {Z : Claims Nat} {T U : Nat}

lemma own_cons (h : Family K exact s (T ::ₘ R) Z) :
    Own K exact s.pmm (holds s.ram 3 T + (total s.ram R + Z)) := by
  rw [← add_assoc, ← total_cons]
  exact h.own

lemma bit_of_mem (h : Family K exact s R Z) (hU : U ∈ R) (hu : u ∈ uses s.ram 3 U) :
    s.pmm.bitmapTest u.frame = true := by
  rw [← hold_fst]
  exact (h.own.claimed (mem_add.mpr (.inl (hold_mem_total hU hu)))).1

section

variable (h : Family K exact s (T ::ₘ R) Z)

include h

lemma bystander (hkps : ∀ g, s.pmm.bitmapTest g = true → ¬ IsTable s.ram 3 T g →
    s'.ram.page g = s.ram.page g) (hU : U ∈ R) : SameSpace s.ram s'.ram U := by
  intro u hu
  refine hkps _ (h.bit_of_mem (mem_cons_of_mem hU) hu) ?_
  rw [← hold_fst]
  exact h.own_cons.not_isTable (mem_add.mpr (.inl (hold_mem_total hU hu)))

lemma of_bystanders {Z' : Claims Nat} (hsame : ∀ U ∈ R, SameSpace s.ram s'.ram U)
    (hown : Own K exact s'.pmm (holds s'.ram 3 T + (total s.ram R + Z')))
    (hlin : ∀ f, refs f (uses s'.ram 3 T) ≤ 1) : Family K exact s' (T ::ₘ R) Z' := by
  have htot : total s'.ram R = total s.ram R := total_congr fun U hU => (hsame U hU).holds_eq
  constructor
  · rwa [total_cons, htot, add_assoc]
  intro U hU f
  rcases mem_cons.mp hU with rfl | hU
  · exact hlin f
  · rw [(hsame U hU).uses_eq]
    exact h.linear U (mem_cons_of_mem hU) f

lemma free : ∃ p', freeUserAddressSpace s T = .ok { s with pmm := p' } ∧
    Family K exact { s with pmm := p' } R Z := by
  obtain ⟨p', hp', hown⟩ := freeUserAddressSpace_of_own h.own_cons
  exact ⟨p', hp', hown, fun U hU => h.linear U (mem_cons_of_mem hU)⟩

lemma cow (hres : CowResolved K exact T va (total s.ram R + Z) s s' e e') :
    Family K exact s' (T ::ₘ R) Z ∧ ∀ U ∈ R, SameSpace s.ram s'.ram U := by
  have hsame : ∀ U ∈ R, SameSpace s.ram s'.ram U := fun U hU => h.bystander hres.keeps hU
  exact ⟨h.of_bystanders hsame hres.own (hres.linear (h.linear T (mem_cons_self T R))),
    hsame⟩

end

lemma create (h : Family K exact s R Z) {src c : Nat}
    (hc : Created K exact s s' src c (total s.ram R + Z)) :
    Family K exact s' (c ::ₘ R) Z ∧ ∀ U ∈ R, SameSpace s.ram s'.ram U := by
  have hsame : ∀ U ∈ R, SameSpace s.ram s'.ram U := fun U hU u hu =>
    (hc.grows _ (h.bit_of_mem hU hu)).2 not_false
  have hemp : ∀ i < entryCount 3, pageTree.target 3 (s'.ram.tables c i) = none := by
    intro i hi
    have hzero : s'.ram.tables c i = 0 := hc.lower i hi
    rw [hzero, pageTree_target, target_zero]
  have huses : uses s'.ram 3 c = {Use.table 3 c} :=
    visit_of_empty fun i hi => hemp i (Finset.mem_range.mp hi)
  refine ⟨⟨?_, ?_⟩, hsame⟩
  · rw [total_cons, total_congr fun U hU => (hsame U hU).holds_eq, holds_of_empty hemp, add_assoc]
    exact hc.own
  intro U hU f
  rcases mem_cons.mp hU with rfl | hU
  · rw [huses, refs_singleton]
    split <;> simp
  · rw [(hsame U hU).uses_eq]
    exact h.linear U hU f

lemma table_ne_leaf (h : Family K exact s (T ::ₘ R) Z) (hleaf : Use.leaf e f ∈ uses s.ram 3 T)
    (hU : U ∈ T ::ₘ R) (hu : u ∈ uses s.ram 3 U) (htab : u.isTable = true) : u.frame ≠ f := by
  rintro rfl
  rcases mem_cons.mp hU with rfl | hU
  · exact h.own_cons.not_isTable_leaf hleaf (isTable_of_mem hu htab)
  obtain ⟨R', rfl⟩ := exists_cons_of_mem hU
  have hown : Own K exact s.pmm (holds s.ram 3 U + (holds s.ram 3 T + (total s.ram R' + Z))) := by
    convert h.own using 1
    rw [total_cons, total_cons]
    abel
  have hmem : hold (Use.leaf e u.frame) ∈ holds s.ram 3 T := mem_map.mpr ⟨_, hleaf, rfl⟩
  exact hown.not_isTable (mem_add.mpr (.inl hmem)) (isTable_of_mem hu htab)

variable {m : PhysMem}

lemma writeLeaf (h : Family K exact s (T ::ₘ R) Z) (hleaf : Use.leaf e f ∈ uses s.ram 3 T)
    (hm : ∀ g, g ≠ f → m.page g = s.ram.page g) :
    Family K exact { s with ram := m } (T ::ₘ R) Z ∧
      ∀ U ∈ T ::ₘ R, ∀ path, InUser 3 path → pteAt m 3 U path = pteAt s.ram 3 U path := by
  have hpage : ∀ U ∈ T ::ₘ R, ∀ u ∈ uses s.ram 3 U, u.isTable →
    m.page u.frame = s.ram.page u.frame :=
    fun U hU u hu htab => hm _ (h.table_ne_leaf hleaf hU hu htab)
  have huses : ∀ U ∈ T ::ₘ R, uses m 3 U = uses s.ram 3 U := fun U hU => uses_congr (hpage U hU)
  have htot : total m (T ::ₘ R) = total s.ram (T ::ₘ R) :=
    total_congr fun U hU => congrArg (map hold) (huses U hU)
  refine ⟨⟨?_, ?_⟩, ?_⟩
  · rw [htot]
    exact h.own
  · intro U hU f
    rw [huses U hU]
    exact h.linear U hU f
  · exact fun U hU path hpath =>
      leafAt_congr hpath fun u hu htab => PhysMem.tables_of_page (hpage U hU u hu htab)

lemma sameSpace_of_sole (h : Family K exact s (T ::ₘ R) Z) (hleaf : Use.leaf e f ∈ uses s.ram 3 T)
    (hw : isWritable e = true) (hm : ∀ g, g ≠ f → m.page g = s.ram.page g) (hU : U ∈ R) :
    SameSpace s.ram m U := by
  intro u hu
  refine hm _ ?_
  have hclm : (f, true) ∈ holds s.ram 3 T := mem_map.mpr ⟨_, hleaf, by rw [hold, hw]⟩
  obtain ⟨A, hA⟩ := exists_cons_of_mem hclm
  have hown := h.own_cons
  rw [hA, ← singleton_add, add_assoc] at hown
  rw [← hold_fst]
  exact hown.ne_sole (mem_add.mpr (.inr (mem_add.mpr
    (.inl (hold_mem_total hU hu)))))

lemma store (h : Family K exact s (T ::ₘ R) Z) {b : Byte} (hva : va < USER_SPACE_END)
    (he : pteAt s.ram 3 T (pathOf va) = some e) (hw : isWritable e = true)
    (hm : m = s.ram.setByte (addr e * PAGE_SIZE + va % PAGE_SIZE) b) :
    Family K exact { s with ram := m } (T ::ₘ R) Z ∧ (∀ U ∈ R, SameSpace s.ram m U) ∧
      ∀ va' < USER_SPACE_END, view m T va' = if va' = va then some b else view s.ram T va' := by
  have hleaf := leaf_mem_uses (inUser_pathOf hva) he
  have hpage : ∀ g, g ≠ addr e → m.page g = s.ram.page g := by
    intro g hg
    rw [hm, PhysMem.page_setByte_of_ne]
    rwa [frame_div]
  obtain ⟨hfam, hpte⟩ := h.writeLeaf hleaf hpage
  refine ⟨hfam, fun U hU => h.sameSpace_of_sole hleaf hw hpage hU, fun va' hva' => ?_⟩
  rw [view, view, hpte T (by simp) _ (inUser_pathOf hva')]
  cases he' : pteAt s.ram 3 T (pathOf va') with
  | none =>
    rw [if_neg]
    · rfl
    rintro rfl
    rw [he] at he'
    exact absurd he' (by simp)
  | some e' =>
    rw [map_some, map_some, hm, PhysMem.byte_setByte]
    by_cases heq : va' = va
    · subst heq
      obtain rfl : e = e' := some.inj (he.symm.trans he')
      simp
    rw [if_neg heq, if_neg]
    intro haddr
    -- the same byte of the same frame: the same page by linearity, so the same address
    have hfrm : addr e' = addr e := by
      rw [← frame_div (addr e') va', haddr, frame_div]
    have hsame := page_eq_of_frame hva hva' he he' hfrm (h.linear T (by simp) _)
    simp only [PAGE_SIZE] at hsame haddr
    omega

end Family

/-! ## Fork in a family -/

section Fork

variable {K : Nat → Prop} {exact : Prop} {s s' : Machine} {R : Multiset Nat} {P C : Nat}
  {Y : Claims Nat} {b : Bool}

lemma view_of_ro {T' : Nat}
    (hpte : pteAt m' 3 T' (pathOf va) = pteAt m 3 T (pathOf va) ∨
      pteAt m' 3 T' (pathOf va) = (pteAt m 3 T (pathOf va)).map ro)
    (hpage : ∀ e, pteAt m 3 T (pathOf va) = some e → m'.page (addr e) = m.page (addr e)) :
    view m' T' va = view m T va := by
  rw [view, view]
  cases he : pteAt m 3 T (pathOf va) with
  | none => rcases hpte with hpte | hpte <;> rw [hpte, he] <;> rfl
  | some e =>
    have hbyte : m'.byte (addr e * PAGE_SIZE + va % PAGE_SIZE) =
        m.byte (addr e * PAGE_SIZE + va % PAGE_SIZE) := by
      refine PhysMem.byte_of_page ?_
      rw [frame_div]
      exact hpage e he
    rcases hpte with hpte | hpte
    · rw [hpte, he, map_some, map_some, hbyte]
    · rw [hpte, he, map_some, map_some, map_some, addr_ro, hbyte]

section

variable (h : Copied K exact P C Y s b s')
  (hown : Own K exact s.pmm (holds s.ram 3 P + {(C, true)} + Y))

include h hown

lemma Copied.page_leaf (hpath : InUser 3 path) (he : pteAt s.ram 3 P path = some e) :
    s'.ram.page (addr e) = s.ram.page (addr e) := by
  have hmem := leaf_mem_uses hpath he
  rw [add_assoc] at hown
  have hclm : hold (Use.leaf e (addr e)) ∈ holds s.ram 3 P := mem_map.mpr ⟨_, hmem, rfl⟩
  refine h.keeps _ (hown.claimed (mem_add.mpr (.inl hclm))).1
    (hown.not_isTable_leaf hmem) ?_
  -- the child's PML4 has a sole owner
  rw [add_left_comm] at hown
  exact hown.ne_sole (mem_add.mpr (.inl hclm))

lemma Copied.view_parent (hva : va < USER_SPACE_END) : view s'.ram P va = view s.ram P va :=
  view_of_ro (h.leaves _ (inUser_pathOf hva)) fun _ he => h.page_leaf hown (inUser_pathOf hva) he

end

lemma Copied.view_child (h : Copied K exact P C Y s true s')
    (hown : Own K exact s.pmm (holds s.ram 3 P + {(C, true)} + Y)) (hva : va < USER_SPACE_END) :
    view s'.ram C va = view s.ram P va :=
  view_of_ro (.inr (h.mirror rfl _ (inUser_pathOf hva)).2) fun _ he =>
    h.page_leaf hown (inUser_pathOf hva) he

lemma Copied.linear_child (h : Copied K exact P C Y s true s')
    (hlin : ∀ f, refs f (uses s.ram 3 P) ≤ 1) (f : Nat) : refs f (uses s'.ram 3 C) ≤ 1 := by
  have hown : Own K exact s'.pmm (holds s'.ram 3 C + (holds s'.ram 3 P + Y)) := by
    have := h.own
    rw [if_pos rfl] at this
    convert this using 1
    abel
  by_cases htab : IsTable s'.ram 3 C f
  · exact hown.refs_table htab
  refine refs_le_one_of_paths (fun l hl => htab ⟨l, hl⟩) ?_
  -- two leaves of the child would be two leaves of the parent
  intro p q e e' hp hq hl hl' he he'
  obtain ⟨e0, he0, rfl⟩ := map_eq_some_iff.mp ((h.mirror rfl p hp).2.symm.trans hl)
  obtain ⟨e1, he1, rfl⟩ := map_eq_some_iff.mp ((h.mirror rfl q hq).2.symm.trans hl')
  exact endsOnce_of_refs (hlin f) p q e0 e1 hp hq he0 he1 ((target_ro e0).symm.trans he)
    ((target_ro e1).symm.trans he')

/-- A copy keeps the ledger of the family, also when it fails and is undone. -/
lemma Family.copy (h : Family K exact s (C ::ₘ P ::ₘ R) 0)
    (hemp : ∀ i < 256, s.ram.entry C i = 0) (hcard : R.card ≤ 253) :
    ∃ b s', copyUserPages s P C = .ok (b, s') ∧ Copied K exact P C (total s.ram R) s b s' ∧
      Own K exact s.pmm (holds s.ram 3 P + {(C, true)} + total s.ram R) ∧
      Family K exact s' (if b then C ::ₘ P ::ₘ R else P ::ₘ R) 0 ∧
      ∀ U ∈ R, SameSpace s.ram s'.ram U := by
  have htgt : ∀ i < entryCount 3, target 3 (s.ram.entry C i) = none := by
    intro i hi
    rw [hemp i hi, target_zero]
  have hown : Own K exact s.pmm (holds s.ram 3 P + {(C, true)} + total s.ram R) := by
    convert h.own using 1
    rw [total_cons, total_cons, holds_of_empty htgt]
    abel
  have hlinP : ∀ f, refs f (uses s.ram 3 P) ≤ 1 := h.linear P (by simp)
  have hlinR : ∀ U ∈ R, ∀ f, refs f (uses s.ram 3 U) ≤ 1 := fun U hU =>
    h.linear U (mem_cons_of_mem (mem_cons_of_mem hU))
  have hpre : CopyPre K exact 3 P C (total s.ram R) ⟨s, [], []⟩ := by
    refine ⟨hown, htgt, hlinP, fun f _ => ?_⟩
    have hle := claims_total_le (f := f) fun U hU => hlinR U hU f
    omega
  obtain ⟨b, s', hcopy, hc⟩ := copyUserPages_spec hpre
  -- the other spaces use neither a table of the parent nor the new PML4
  have hsame : ∀ U ∈ R, SameSpace s.ram s'.ram U := by
    intro U hU u hu
    have hmem := hold_mem_total hU hu
    have hbit := (hown.claimed (mem_add.mpr (.inr hmem))).1
    rw [hold_fst] at hbit
    refine hc.keeps _ hbit ?_ ?_
    · rw [← hold_fst]
      have hown' := hown
      rw [add_assoc] at hown'
      exact hown'.not_isTable (mem_add.mpr (.inr hmem))
    rw [← hold_fst]
    have hown' := hown
    rw [add_comm (holds s.ram 3 P), add_assoc] at hown'
    exact hown'.ne_sole (mem_add.mpr (.inr hmem))
  have htot : total s'.ram R = total s.ram R := total_congr fun U hU => (hsame U hU).holds_eq
  have hlinP' : ∀ f, refs f (uses s'.ram 3 P) ≤ 1 := by
    intro f
    rw [refs_of_shape hc.shape]
    exact hlinP f
  have hlinR' : ∀ U ∈ R, ∀ f, refs f (uses s'.ram 3 U) ≤ 1 := by
    intro U hU f
    rw [(hsame U hU).uses_eq]
    exact hlinR U hU f
  refine ⟨b, s', hcopy, hc, hown, ?_, hsame⟩
  cases b with
  | false =>
    rw [if_neg (by simp)]
    constructor
    · have hown' := hc.own
      rw [add_comm (holds s'.ram 3 P), add_assoc] at hown'
      rw [total_cons, htot, add_zero]
      exact hown'.forget
    intro U hU
    rcases mem_cons.mp hU with rfl | hU
    · exact hlinP'
    · exact hlinR' U hU
  | true =>
    rw [if_pos rfl]
    constructor
    · convert hc.own using 1
      rw [total_cons, total_cons, htot, if_pos rfl]
      abel
    intro U hU
    rcases mem_cons.mp hU with rfl | hU
    · exact hc.linear_child hlinP
    rcases mem_cons.mp hU with rfl | hU
    · exact hlinP'
    · exact hlinR' U hU

end Fork

end Indominus.Memory
