import Indominus.Memory.ExactMapper
import Indominus.Memory.PageFill

/-! # Page by page on a budget -/

namespace Indominus.Memory

open Lib Lib.Radix Lib.Budget

variable {K : Nat → Prop} {exact : Prop} {R : Multiset Nat} {Z : Claims Nat}

variable {M : Mapper} {s s' s1 s2 : Machine} {m1 m2 : PhysMem} {T va f : Nat} {flags : Word}

abbrev UserPrefix (q : List Nat) : Prop := InSpanPrefix pageTree 3 q

lemma userPrefix_of_pathOf (hva : va < USER_SPACE_END) {q : List Nat} (hq : q <+: pathOf va) :
    UserPrefix q :=
  (inUser_pathOf hva).of_initial hq

lemma hasNode_pathOf (m : PhysMem) (T : Nat) (hva : va < USER_SPACE_END) :
    hasNode m T (pathOf va) = (pteAt m 3 T (pathOf va)).isSome :=
  nodeAt_eq_isSome (inUser_pathOf hva)

lemma hasNode_congr {m m' : PhysMem}
    (h : ∀ u ∈ uses m 3 T, u.isTable → m'.page u.frame = m.page u.frame) {q : List Nat}
    (hq : UserPrefix q) : hasNode m' T q = hasNode m T q :=
  nodeAt_congr hq fun u hu htab => PhysMem.tables_of_page (h u hu htab)

lemma TidyTables.congr {m m' : PhysMem} (ht : TidyTables m 3 T)
    (h : ∀ u ∈ uses m 3 T, u.isTable → m'.page u.frame = m.page u.frame) : TidyTables m' 3 T :=
  tidy_congr (fun u hu htab => PhysMem.tables_of_page (h u hu htab)) ht

/-- One page has been added: a frame for the page and one for each table that was missing are
gone. -/
structure PageTaken (T va : Nat) (s s' : Machine) : Prop where
  tidy : TidyTables s'.ram 3 T
  nodes : ∀ q, UserPrefix q → hasNode s'.ram T q = grown (hasNode s.ram T) (pathOf va) q
  units : s'.pmm.framesLeft + missing (hasNode s.ram T) (pathOf va) + 1 = s.pmm.framesLeft

/-- What the mapper finds when a frame for the page has been taken. -/
structure ReadyToMap (T : Nat) (s s1 : Machine) (f : Nat) : Prop where
  hierarchy : Hierarchy 3 s1 T
  frame : f < 2 ^ 40
  same : SameSpace s.ram s1.ram T
  units : s1.pmm.framesLeft + 1 = s.pmm.framesLeft

lemma ReadyToMap.of_alloc (hfam : Family K exact s (T ::ₘ R) Z) (hall : s.allocFrame = some (f, s1))
    (hfill : ∀ g, g ≠ f → m1.page g = s1.ram.page g) : ReadyToMap T s { s1 with ram := m1 } f := by
  obtain ⟨hfam1, -, hkept⟩ := hfam.alloc hall hfill
  have hclm : (f, true) ∈ total m1 (T ::ₘ R) + ({(f, true)} + Z) := by simp
  refine ⟨hfam1.own_cons.hierarchy, hfam1.own.lt_two_pow (hfam1.own.claimed hclm).2.2, ?_, ?_⟩
  · exact fun u hu => (hkept _ (hfam.bit_of_mem (by simp) hu)).2
  simp only [Machine.allocFrame, Option.map_eq_some_iff, Prod.exists, Prod.mk.injEq] at hall
  obtain ⟨f', p, hp, rfl, rfl⟩ := hall
  exact Pmm.framesLeft_of_allocFrame hp

lemma ReadyToMap.missing_eq (hrdy : ReadyToMap T s s1 f) (hva : va < USER_SPACE_END) :
    missing (hasNode s1.ram T) (pathOf va) = missing (hasNode s.ram T) (pathOf va) :=
  missing_congr fun _ hq _ =>
    hasNode_congr (fun u hu _ => hrdy.same u hu) (userPrefix_of_pathOf hva hq)

lemma ReadyToMap.maps_iff (hM : M.Exact) (hrdy : ReadyToMap T s s1 f) (htidy : TidyTables s.ram 3 T)
    (hva : va < USER_SPACE_END) (hfl : Pte.IsFlags flags) (hpres : Pte.isPresent flags = true) :
    (∃ s2, M.mapTo s1 T va f flags = .ok s2) ↔ hasNode s.ram T (pathOf va) = false ∧
      missing (hasNode s.ram T) (pathOf va) < s.pmm.framesLeft := by
  have htidy1 := htidy.congr fun u hu _ => hrdy.same u hu
  have hnode := hasNode_congr (fun u hu _ => hrdy.same u hu)
    (userPrefix_of_pathOf hva (List.prefix_refl (pathOf va)))
  have hmis := hrdy.missing_eq hva
  have hun := hrdy.units
  constructor
  · rintro ⟨s2, hok⟩
    obtain ⟨N, hmap⟩ := hM.mapTo hva hrdy.hierarchy hrdy.frame hfl hpres hok
    have hadds := (hM.adds hva hrdy.hierarchy htidy1 hrdy.frame hfl hpres hok).units
    refine ⟨?_, ?_⟩
    · rw [← hnode, hasNode_pathOf _ _ hva, hmap.empty, Option.isSome_none]
    · change s2.pmm.framesLeft + missing (hasNode s1.ram T) (pathOf va) = _ at hadds
      omega
  · rintro ⟨hfree, hlt⟩
    exact hM.maps hva hrdy.hierarchy htidy1 hrdy.frame hfl hpres (hnode.trans hfree) (by omega)

lemma PageTaken.of_map (hfam : Family K exact s (T ::ₘ R) Z) (hM : M.Exact)
    (htidy : TidyTables s.ram 3 T) (hall : s.allocFrame = some (f, s1))
    (hfill : ∀ g, g ≠ f → m1.page g = s1.ram.page g) (hva : va < USER_SPACE_END)
    (hfl : Pte.IsFlags flags) (hpres : Pte.isPresent flags = true)
    (hmap : M.mapTo { s1 with ram := m1 } T va f flags = .ok s2)
    (hwr : ∀ g, g ≠ f → m2.page g = s2.ram.page g) : PageTaken T va s { s2 with ram := m2 } := by
  have hrdy := ReadyToMap.of_alloc hfam hall hfill
  have htidy1 := htidy.congr fun u hu _ => hrdy.same u hu
  have hadds := hM.adds hva hrdy.hierarchy htidy1 hrdy.frame hfl hpres hmap
  have hmis := hrdy.missing_eq hva
  obtain ⟨hfam1, -, -⟩ := hfam.alloc hall hfill
  have hpage := hfam1.mapTo hM.toDocumented hva hfl hpres hmap
  have hleaf := hpage.leaf_mem hva hrdy.frame hfl
  have htbs : ∀ u ∈ uses s2.ram 3 T, u.isTable → m2.page u.frame = s2.ram.page u.frame :=
    fun u hu htab => hwr _ (hpage.family.table_ne_leaf hleaf (by simp) hu htab)
  constructor
  case tidy => exact hadds.tidy.congr htbs
  case nodes =>
    intro q hq
    rw [hasNode_congr htbs hq]
    refine (hadds.nodes q hq).trans ?_
    have hold : hasNode m1 T q = hasNode s.ram T q :=
      hasNode_congr (fun u hu _ => hrdy.same u hu) hq
    exact congrArg (· || q.isPrefixOf (pathOf va)) hold
  case units =>
    have hun := hrdy.units
    have hadds' := hadds.units
    change s2.pmm.framesLeft + missing (hasNode m1 T) (pathOf va) = _ at hadds'
    change missing (hasNode m1 T) (pathOf va) = _ at hmis
    change s2.pmm.framesLeft + _ + 1 = _
    omega

end Indominus.Memory
