import Indominus.Memory.ExactRounds
import Indominus.Sys.Heap

/-! # Single pages of `brk` and `mmap` -/

namespace Indominus.Sys

open Lib Lib.Radix Lib.Budget Memory Option

variable {M : Mapper} {K : Nat → Prop} {exact : Prop} {R : Multiset Nat} {Z : Claims Nat}
  {s s' s'' : Machine} {T va : Nat}

lemma withVirt_of_lt {α : Type} {addr : Nat} {f : Nat → Except Panic α} (h : addr < 2 ^ 47) :
    withVirt addr f = f addr := by
  have hcanonical : isCanonical addr = true := by
    rw [isCanonical, decide_eq_true h, Bool.true_or]
  rw [withVirt, virtAddrNew, if_pos hcanonical]

lemma mapFreshPage_filled (hM : M.Documented) (hfam : Family K exact s (T ::ₘ R) Z)
    (hva : va < USER_SPACE_END) (hok : mapFreshPage M s T va = .ok (some s')) :
    ∃ f content, PageFilled K exact T R Z va f userPageFlags content s s' := by
  rw [mapFreshPage] at hok
  cases hall : s.allocFrame with
  | none => simp [hall] at hok
  | some a =>
    obtain ⟨f, s1⟩ := a
    simp only [hall] at hok
    cases hmap : mapPage M s1 T va f userPageFlags with
    | error e => simp [hmap] at hok
    | ok s2 =>
      obtain rfl : s2 = s' := by simpa [hmap] using hok
      exact ⟨f, _, (PageFilled.of_map hfam hM hall (fun _ _ => rfl) hva (by decide) (by decide)
        (mapPage_eq_ok.mp hmap) (fun _ _ => rfl)).1⟩

/-- What happens to a page that is not mapped yet, by what is left in the allocator. -/
inductive FreshPage (K : Nat → Prop) (exact : Prop) (T : Nat) (R : Multiset Nat) (Z : Claims Nat)
    (va : Nat) (s : Machine) : Except Panic (Option Machine) → Prop
  | dry (hunits : s.pmm.framesLeft = 0) : FreshPage K exact T R Z va s (.ok none)
  | short {e : Panic} (hunits : s.pmm.framesLeft ≠ 0)
      (hshort : s.pmm.framesLeft ≤ missing (hasNode s.ram T) (pathOf va)) :
          FreshPage K exact T R Z va s (.error e)
  | mapped {f : Nat} {content : Nat → Byte} {s' : Machine}
      (hfilled : PageFilled K exact T R Z va f userPageFlags content s s')
        (htaken : PageTaken T va s s') :
      FreshPage K exact T R Z va s (.ok (some s'))

lemma mapFreshPage_foreseen (hM : M.Exact) (hfam : Family K exact s (T ::ₘ R) Z)
    (htidy : TidyTables s.ram 3 T) (hva : va < USER_SPACE_END)
    (hfree : hasNode s.ram T (pathOf va) = false) :
    FreshPage K exact T R Z va s (mapFreshPage M s T va) := by
  rw [mapFreshPage]
  cases hall : s.allocFrame with
  | none =>
    refine .dry (Pmm.allocFrame_eq_none_iff.mp ?_)
    rwa [Machine.allocFrame, map_eq_none_iff] at hall
  | some a =>
    obtain ⟨f, s1⟩ := a
    have hrdy := ReadyToMap.of_alloc hfam hall (fun _ _ => rfl)
    have hun : s.pmm.framesLeft ≠ 0 := by
      have hone := hrdy.units
      omega
    have hmaps : (∃ s2, M.mapTo s1 T va f userPageFlags = .ok s2) ↔ _ :=
      hrdy.maps_iff hM htidy hva (by decide) (by decide)
    dsimp only
    cases hmap : mapPage M s1 T va f userPageFlags with
    | error e =>
      refine .short hun (Nat.le_of_not_lt fun hlt => ?_)
      obtain ⟨s2, hs2⟩ := hmaps.mpr ⟨hfree, hlt⟩
      rw [mapPage_eq_ok.mpr hs2] at hmap
      cases hmap
    | ok s2 =>
      have hmto := mapPage_eq_ok.mp hmap
      exact .mapped (PageFilled.of_map hfam hM.toDocumented hall (fun _ _ => rfl) hva
        (by decide) (by decide)
        hmto (fun _ _ => rfl)).1
        (PageTaken.of_map hfam hM htidy hall (fun _ _ => rfl) hva (by decide) (by decide) hmto
          (fun _ _ => rfl))

/-- The page of `va` is not mapped any more, and everything else is as before. -/
structure PageGone (K : Nat → Prop) (exact : Prop) (T : Nat) (R : Multiset Nat) (Z : Claims Nat)
    (va : Nat) (s s' : Machine) : Prop where
  family : Family K exact s' (T ::ₘ R) Z
  leaf : ∀ q, InUser 3 q → pteAt s'.ram 3 T q = if q = pathOf va then none else pteAt s.ram 3 T q
  view : ∀ a < USER_SPACE_END, view s'.ram T a = if pathOf a = pathOf va then none
    else view s.ram T a

lemma PageGone.of_unmapped (hfam : Family K exact s (T ::ₘ R) Z)
    (he : pteAt s.ram 3 T (pathOf va) = none) : PageGone K exact T R Z va s s := by
  refine ⟨hfam, fun q _ => ?_, fun a _ => ?_⟩
  · split_ifs with hq
    · rw [hq, he]
    · rfl
  split_ifs with ha
  · rw [Memory.view, ha, he, map_none]
  · rfl

lemma PageGone.of_edit (hfam : Family K exact s (T ::ₘ R) Z) (hva : va < USER_SPACE_END) {e : Word}
    {m : PhysMem} {p : Pmm} (he : pteAt s.ram 3 T (pathOf va) = some e)
    (hedit : LeafEdit s.ram m T (pathOf va) e 0)
    (hrelease : ∀ A, Own K exact s.pmm ({(Pte.addr e, Pte.isWritable e)} + A) → Own K exact p A) :
    PageGone K exact T R Z va s ⟨p, m⟩ := by
  have htgt := target_of_pteAt (inUser_pathOf hva) he
  have hleaf : ∀ q, InUser 3 q → pteAt m 3 T q = if q = pathOf va then none
    else pteAt s.ram 3 T q := by
    intro q hq
    rw [hedit.leaf q hq]
    rfl
  refine ⟨?_, hleaf, fun a ha => ?_⟩
  · have hunmapped := hfam.unmap hedit htgt
    refine ⟨hrelease _ ?_, hunmapped.linear⟩
    rw [add_left_comm]
    exact hunmapped.own
  have hpath' := inUser_pathOf ha
  rw [Memory.view, hleaf _ hpath']
  split_ifs with heq
  · rfl
  rw [Memory.view]
  cases he'' : pteAt s.ram 3 T (pathOf a) with
  | none => rfl
  | some e'' =>
    have hkept := hedit.keeps _ (hfam.own_cons.not_isTable_leaf (leaf_mem_uses hpath' he''))
    rw [map_some, map_some, PhysMem.byte_of_page]
    rw [frame_div]
    exact hkept

lemma dropPage_gone (hM : M.Documented) (hfam : Family K exact s (T ::ₘ R) Z)
    (hva : va < USER_SPACE_END) (hok : dropPage M Machine.freeFrame s T va = .ok s') :
    PageGone K exact T R Z va s s' := by
  rw [dropPage, translateAddr, hM.translatePage hva] at hok
  cases he : pteAt s.ram 3 T (pathOf va) with
  | none =>
    simp only [he, map_none, Except.ok.injEq] at hok
    subst hok
    exact .of_unmapped hfam he
  | some e =>
    simp only [he, map_some, unmapPage] at hok
    cases hunm : M.unmap s.ram T va with
    | none => simp [hunm] at hok
    | some r =>
      simp only [hunm] at hok
      obtain ⟨e', he', -, hedit⟩ := hM.unmap hva hfam.own_cons.tablesOnce hunm
      obtain rfl : e = e' := some.inj (he.symm.trans he')
      obtain ⟨p, hfree, rfl⟩ := Machine.freeFrame_cases hok
      obtain ⟨hone, rfl⟩ : s.pmm.refcount (Pte.addr e) = 1 ∧ p = s.pmm.release (Pte.addr e) := by
        rw [Pmm.freeFrame] at hfree
        split_ifs at hfree with h1 h2 h3 h4
        exact ⟨not_not.mp h4, (Except.ok.inj hfree).symm⟩
      exact .of_edit hfam hva he hedit fun A hown => hown.release hone

lemma dropPage_decref (hM : M.Exact) (hfam : Family K exact s (T ::ₘ R) Z)
    (hva : va < USER_SPACE_END) {e : Word} (he : pteAt s.ram 3 T (pathOf va) = some e) :
    ∃ s', dropPage M Machine.decref s T va = .ok s' ∧ PageGone K exact T R Z va s s' ∧
      s.pmm.decref (Pte.addr e) = .ok s'.pmm := by
  obtain ⟨frame, m, hunm⟩ := hM.unmaps hva he
  obtain ⟨e', he', -, hedit⟩ := hM.unmap hva hfam.own_cons.tablesOnce hunm
  obtain rfl : e = e' := some.inj (he.symm.trans he')
  have hown := hfam.own_cons
  rw [holds_of_unmapped hedit (target_of_pteAt (inUser_pathOf hva) he), add_assoc] at hown
  obtain ⟨p, hp, -⟩ := hown.decref
  refine ⟨⟨p, m⟩, ?_, .of_edit hfam hva he hedit fun A hA => ?_, hp⟩
  · simp [dropPage, translateAddr, hM.translatePage hva, he, unmapPage, hunm, Machine.decref,
      hp, Except.map]
  · obtain ⟨p', hp', hA'⟩ := hA.decref
    rwa [Except.ok.inj (hp.symm.trans hp')]

lemma dropPage_ok (hM : M.Exact) (hfam : Family K exact s (T ::ₘ R) Z) (hva : va < USER_SPACE_END)
    (hwritable : ∀ e, pteAt s.ram 3 T (pathOf va) = some e → Pte.isWritable e = true) :
    ∃ s', dropPage M Machine.freeFrame s T va = .ok s' := by
  rw [dropPage, translateAddr, hM.translatePage hva]
  cases he : pteAt s.ram 3 T (pathOf va) with
  | none => exact ⟨s, rfl⟩
  | some e =>
    obtain ⟨frame, m, hunm⟩ := hM.unmaps hva he
    have hclm : (Pte.addr e, true) ∈ total s.ram (T ::ₘ R) + Z := by
      have hmem :=
        hold_mem_total (Multiset.mem_cons_self T R) (leaf_mem_uses (inUser_pathOf hva) he)
      rw [hold, hwritable e he] at hmem
      exact Multiset.mem_add.mpr (.inl hmem)
    have hone := hfam.own.ledger.sole _ hclm rfl
    obtain ⟨hbit, hpos, hlt⟩ := hfam.own.claimed hclm
    simp only [map_some, unmapPage, hunm, Machine.freeFrame, Pmm.freeFrame_ok hpos hlt hbit hone]
    exact ⟨_, rfl⟩

end Indominus.Sys
