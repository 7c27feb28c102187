import Indominus.Lib.Pool
import Indominus.Memory.Mapping
import Indominus.Memory.ReferenceMapper
import Indominus.Memory.Spaces

/-! # Copy-on-write is eager copying -/

namespace Indominus.Memory

open Lib Lib.Radix Function Option Multiset

/-! ## The abstract system -/

/-- One private memory for every space that is alive; `none` is an address that is not mapped. -/
abbrev Eager := SpaceId → Option (Nat → Option Byte)

namespace Eager

/-- A read returns what the space's own memory holds, a write changes it, a fork copies it. -/
def step (E : Eager) : SpaceOp → Eager × Option Byte
  | .read id va => (E, (E id).bind fun mem => mem va)
  | .write id va b =>
    match E id with
    | none => (E, none)
    | some mem =>
      if (mem va).isSome then
        (update E id (some (update mem va (some b))), none)
      else (E, none)
  | .fork parent child =>
    match E parent, E child with
    | some mem, none => (update E child (some mem), none)
    | _, _ => (E, none)
  | .free id => (update E id none, none)

def run : List SpaceOp → Eager → Eager × List (Option Byte)
  | [], E => (E, [])
  | op :: ops, E =>
    let (E, out) := E.step op
    let (E, outs) := run ops E
    (E, out :: outs)

end Eager

/-! ## Loads in terms of views -/

variable {m m' : PhysMem} {e : Word}

lemma leafPte_eq {T va : Nat} (hva : va < USER_SPACE_END) :
    leafPte m T va = pteAt m 3 T (pathOf va) := by
  rw [leafPte, if_pos hva]
  cases hwalk : walkPageTableToPte m T va with
  | none => rw [walk_eq_none hwalk, map_none]
  | some c => rw [(walk_eq_some hwalk).2.1, map_some]

lemma loadByte_eq {T va : Nat} (hva : va < USER_SPACE_END) : loadByte m T va = view m T va := by
  rw [loadByte, leafPte_eq hva]
  rfl

lemma loadByte_eq_none {T va : Nat} (hva : ¬ va < USER_SPACE_END) : loadByte m T va = none := by
  rw [loadByte, leafPte, if_neg hva, map_none]

lemma loadByte_congr {T T' : Nat} (h : ∀ va < USER_SPACE_END, view m' T' va = view m T va) :
    loadByte m' T' = loadByte m T := by
  funext va
  by_cases hva : va < USER_SPACE_END
  · rw [loadByte_eq hva, loadByte_eq hva, h va hva]
  · rw [loadByte_eq_none hva, loadByte_eq_none hva]

lemma SameSpace.loadByte_eq {U : Nat} (h : SameSpace m m' U) : loadByte m' U = loadByte m U :=
  loadByte_congr fun _ hva => h.view_eq hva

lemma CowResolved.view_eq {K : Nat → Prop} {exact : Prop} {T va : Nat} {X : Claims Nat}
    {s s' : Machine} {e' : Word} (h : CowResolved K exact T va X s s' e e')
    (hown : Own K exact s.pmm (holds s.ram 3 T + X)) {va' : Nat} (hva' : va' < USER_SPACE_END) :
    view s'.ram T va' = view s.ram T va' := by
  rw [view, view, h.leaf _ (inUser_pathOf hva')]
  split
  · rename_i hpath
    rw [hpath, h.old, map_some, map_some]
    -- the entry maps a frame with the same contents
    rw [PhysMem.byte_frame, PhysMem.byte_frame, h.copy]
  cases he : pteAt s.ram 3 T (pathOf va') with
  | none => rfl
  | some w =>
    have hmem := leaf_mem_uses (inUser_pathOf hva') he
    have hbit := (hown.claimed (mem_add.mpr
      (.inl (mem_map.mpr ⟨_, hmem, rfl⟩)))).1
    rw [map_some, map_some, PhysMem.byte_of_page]
    rw [frame_div]
    exact h.keeps _ hbit (hown.not_isTable_leaf hmem)

/-! ## One store -/

section Store

variable {K : Nat → Prop} {exact : Prop} {s s' : Machine} {R : Multiset Nat} {T va : Nat} {b : Byte}

/-- What a store does to a family: the byte is written if the address is mapped, and nobody else
sees it. -/
structure Stored (K : Nat → Prop) (exact : Prop) (T : Nat) (R : Multiset Nat) (va : Nat) (b : Byte)
    (s s' : Machine) : Prop where
  family : Family K exact s' (T ::ₘ R) 0
  others : ∀ U ∈ R, SameSpace s.ram s'.ram U
  loads : loadByte s'.ram T = if (loadByte s.ram T va).isSome then
    update (loadByte s.ram T) va (some b) else loadByte s.ram T

lemma stored_of_writable (h : Family K exact s (T ::ₘ R) 0) (hva : va < USER_SPACE_END)
    (he : pteAt s.ram 3 T (pathOf va) = some e) (hw : Pte.isWritable e = true) :
    Stored K exact T R va b s { s with ram := s.ram.setByte (physAddr e va) b } := by
  obtain ⟨hfam, hsame, hview⟩ := h.store (b := b) hva he hw rfl
  refine ⟨hfam, hsame, ?_⟩
  have hmap : (loadByte s.ram T va).isSome = true := by
    rw [loadByte_eq hva, view, he]
    rfl
  rw [if_pos hmap]
  funext va'
  rw [update_apply]
  by_cases hva' : va' < USER_SPACE_END
  · rw [loadByte_eq hva', loadByte_eq hva']
    exact hview va' hva'
  · have hne : va' ≠ va := fun heq => hva' (heq ▸ hva)
    rw [if_neg hne, loadByte_eq_none hva', loadByte_eq_none hva']

lemma storeByte_outcome (h : Family K exact s (T ::ₘ R) 0) (va : Nat) (b : Byte) :
    Outcome (storeByte T va b 2 s) (Stored K exact T R va b s) fun e => e = .outOfMemory := by
  have hkeep : loadByte s.ram T va = none → Stored K exact T R va b s s := by
    intro hnone
    exact ⟨h, fun U _ => .refl _ U, by rw [hnone]; rfl⟩
  by_cases hva : va < USER_SPACE_END
  swap
  · refine .of_ok ?_ (hkeep (loadByte_eq_none hva))
    simp only [storeByte, leafPte, if_neg hva]
  cases he : pteAt s.ram 3 T (pathOf va) with
  | none =>
    refine .of_ok ?_ (hkeep (by rw [loadByte_eq hva, view, he]; rfl))
    simp only [storeByte, leafPte_eq hva, he]
  | some e =>
    cases hw : Pte.isWritable e with
    | true =>
      refine .of_ok ?_ (stored_of_writable h hva he hw)
      simp [storeByte, leafPte_eq hva, he, hw]
    | false =>
      rcases handleCowFault_spec h.own_cons hva with ⟨hflt, hoom⟩ | ⟨s1, e0, e', hflt, hres⟩
      · have hall := hoom e he hw
        refine .of_error (e := Stop.outOfMemory) ?_ rfl
        rw [storeByte, leafPte_eq hva, he]
        simp [hw, hflt, hall]
      obtain ⟨hfam1, hsame1⟩ := h.cow hres
      have he' : pteAt s1.ram 3 T (pathOf va) = some e' := by
        rw [hres.leaf _ (inUser_pathOf hva), if_pos rfl]
      have hw' : Pte.isWritable e' = true := by
        rw [hres.new]
        exact isWritable_writablePte
      obtain ⟨hfam2, hsame2, hloads⟩ := stored_of_writable (b := b) hfam1 hva he' hw'
      refine .of_ok (a := { s1 with ram := s1.ram.setByte (physAddr e' va) b }) ?_ ⟨hfam2, ?_, ?_⟩
      · rw [storeByte, leafPte_eq hva, he]
        simp only [hw, Bool.false_eq_true, if_false, hflt]
        rw [storeByte, leafPte_eq hva, he']
        simp [hw']
      · exact fun U hU => (hsame1 U hU).trans (hsame2 U hU)
      · rw [hloads, loadByte_congr fun va' hva' => hres.view_eq h.own_cons hva']

end Store

/-! ## The refinement -/

namespace Spaces

variable {S S' : Spaces} {id : SpaceId} {T va : Nat}

/-- What the spaces look like to the code that runs in them. -/
def abs (S : Spaces) : Eager := fun id => (S.roots id).map (loadByte S.machine.ram)

def Owned (S : Spaces) : Prop := Family (fun _ => False) False S.machine (pool S.roots) 0

lemma Owned.cons (h : S.Owned) (hT : S.roots id = some T) :
    Family (fun _ => False) False S.machine (T ::ₘ pool (update S.roots id none)) 0 := by
  rw [← pool_of_some hT]
  exact h

lemma abs_eq_update {x : Option Nat} (hrts : S'.roots = update S.roots id x)
    (hloads : ∀ U ∈ pool (update S.roots id none),
      loadByte S'.machine.ram U = loadByte S.machine.ram U) :
    S'.abs = update S.abs id (x.map (loadByte S'.machine.ram)) := by
  funext j
  by_cases hj : j = id
  · subst hj
    simp [abs, hrts]
  rw [update_of_ne hj, abs, abs, hrts, update_of_ne hj]
  cases hU : S.roots j with
  | none => rfl
  | some U =>
    have hmem : U ∈ pool (update S.roots id none) :=
      mem_pool.mpr ⟨j, by rw [update_of_ne hj, hU]⟩
    rw [map_some, map_some, hloads U hmem]

/-- The operation keeps the ownership and does what the abstract system does, or the allocator has
run out. -/
def Refines (S : Spaces) (op : SpaceOp) (r : Except Stop (Spaces × Option Byte)) : Prop :=
  Outcome r (fun x => x.1.Owned ∧ Eager.step S.abs op = (x.1.abs, x.2)) fun e => e = .outOfMemory

lemma refines_map {op : SpaceOp} {r : Except Stop Spaces}
    (h : Outcome r (fun S' => S'.Owned ∧ Eager.step S.abs op = (S'.abs, none))
      fun e => e = .outOfMemory) :
    S.Refines op (r.map fun S' => (S', none)) := by
  cases r with
  | ok S' => exact .of_ok rfl (h.ok S' rfl)
  | error e => exact .of_error rfl (h.error e rfl)

lemma write_refines (h : S.Owned) (id : SpaceId) (va : Nat) (b : Byte) :
    S.Refines (.write id va b) (S.step (.write id va b)) := by
  refine refines_map ?_
  rw [write]
  cases hT : S.roots id with
  | none =>
    have habs : S.abs id = none := by rw [abs, hT, map_none]
    exact .of_ok rfl ⟨h, by simp only [Eager.step, habs]⟩
  | some T =>
    have habs : S.abs id = some (loadByte S.machine.ram T) := by rw [abs, hT, map_some]
    have hout := storeByte_outcome (h.cons hT) va b
    cases hsto : storeByte T va b 2 S.machine with
    | error e => exact .of_error (by simp only [hsto]) (hout.error e hsto)
    | ok s' =>
      obtain ⟨hfam, hoths, hloads⟩ := hout.ok s' hsto
      refine .of_ok (a := { S with machine := s' }) (by simp only [hsto]) ⟨?_, ?_⟩
      · show Family _ _ s' (pool S.roots) 0
        rw [pool_of_some hT]
        exact hfam
      have hrts : ({ S with machine := s' } : Spaces).roots =
          update S.roots id (some T) := by
        rw [← hT, update_eq_self]
      rw [abs_eq_update hrts fun U hU => (hoths U hU).loadByte_eq, map_some]
      simp only [Eager.step, habs]
      rw [hloads]
      split
      · rfl
      · rw [← habs, update_eq_self]

lemma free_refines (h : S.Owned) (id : SpaceId) : S.Refines (.free id) (S.step (.free id)) := by
  refine refines_map ?_
  rw [free]
  cases hT : S.roots id with
  | none =>
    have habs : S.abs id = none := by rw [abs, hT, map_none]
    refine .of_ok rfl ⟨h, ?_⟩
    rw [Eager.step, ← habs, update_eq_self]
  | some T =>
    obtain ⟨p, hfree, hfam⟩ := (h.cons hT).free
    obtain ⟨S', hS'⟩ : ∃ S' : Spaces, S' = { S with
      machine := { S.machine with pmm := p }, roots := update S.roots id none } := ⟨_, rfl⟩
    refine .of_ok (a := S') (by simp only [hfree, hS']) ⟨hS' ▸ hfam, ?_⟩
    have hrts : S'.roots = update S.roots id none := by rw [hS']
    rw [abs_eq_update hrts fun U _ => by rw [hS'], map_none, Eager.step]

/-- A fork is an eager copy to whoever looks at the bytes. -/
lemma fork_refines (h : S.Owned) (parent child : SpaceId) :
    S.Refines (.fork parent child) (S.step (.fork parent child)) := by
  refine refines_map ?_
  rw [fork]
  have hidle : S.abs parent = none ∨ S.abs child ≠ none →
      Eager.step S.abs (.fork parent child) = (S.abs, none) := by
    intro hcase
    simp only [Eager.step]
    split
    · rename_i hp hc
      rcases hcase with hcase | hcase
      · rw [hp] at hcase
        simp at hcase
      · exact absurd hc hcase
    · rfl
  split
  · rename_i p hP hC
    have hcreate := createUserPml4_outcome h.own S.kernelPml4
    cases hcr : createUserPml4 S.machine S.kernelPml4 with
    | error e =>
      obtain rfl := hcreate.error e hcr
      exact .of_error rfl rfl
    | ok r =>
      obtain ⟨c, s1⟩ := r
      have hc := hcreate.ok _ hcr
      obtain ⟨hfam1, hsame1⟩ := Family.create h hc
      rw [pool_of_some hP] at hfam1 hsame1
      have hcard : (pool (update S.roots parent none)).card ≤ 253 :=
        le_trans card_pool_le (by decide)
      obtain ⟨b, s2, hcopy, hcopied, hown, hfam2, hsame2⟩ := hfam1.copy hc.lower hcard
      cases b with
      | false => exact .of_error (by simp only [hcopy]) rfl
      | true =>
        obtain ⟨S', hS'⟩ : ∃ S' : Spaces, S' = { S with
          machine := s2, roots := update S.roots child (some c) } := ⟨_, rfl⟩
        have hrts : S'.roots = update S.roots child (some c) := by rw [hS']
        have hmac : S'.machine = s2 := by rw [hS']
        refine .of_ok (a := S') (by simp only [hcopy, hS']) ⟨?_, ?_⟩
        · rw [Owned, hrts, hmac, pool_update_of_none hC, pool_of_some hP]
          exact hfam2
        have hviewP : loadByte s2.ram p = loadByte S.machine.ram p := by
          rw [loadByte_congr fun va hva => hcopied.view_parent hown hva,
            (hsame1 p (by simp)).loadByte_eq]
        have hviewC : loadByte s2.ram c = loadByte S.machine.ram p := by
          rw [loadByte_congr fun va hva => hcopied.view_child hown hva,
            (hsame1 p (by simp)).loadByte_eq]
        rw [abs_eq_update hrts fun U hU => ?_, hmac, map_some, hviewC]
        · have habsP : S.abs parent = some (loadByte S.machine.ram p) := by
            rw [abs, hP, map_some]
          have habsC : S.abs child = none := by rw [abs, hC, map_none]
          simp only [Eager.step, habsP, habsC]
        -- the other spaces: the parent reads what it read before, the rest is untouched
        rw [← hC, update_eq_self, pool_of_some hP] at hU
        rw [hmac]
        rcases mem_cons.mp hU with rfl | hU
        · exact hviewP
        · exact ((hsame1 U (by simp [hU])).trans (hsame2 U hU)).loadByte_eq
  rename_i hcase
  refine .of_ok rfl ⟨h, hidle ?_⟩
  cases hp : S.roots parent with
  | none => exact .inl (by rw [abs, hp, map_none])
  | some p =>
    cases hc : S.roots child with
    | none => exact absurd hc (hcase p hp)
    | some c => exact .inr (by rw [abs, hc]; simp)

lemma step_refines (h : S.Owned) (op : SpaceOp) : S.Refines op (S.step op) := by
  cases op with
  | read id va =>
    refine .of_ok rfl ⟨h, ?_⟩
    rw [Eager.step, read, abs]
    cases S.roots id <;> rfl
  | write id va b => exact write_refines h id va b
  | fork parent child => exact fork_refines h parent child
  | free id => exact free_refines h id

lemma run_refines (h : S.Owned) (ops : List SpaceOp) :
    Outcome (run ops S) (fun r => Eager.run ops S.abs = (r.1.abs, r.2)) fun e =>
      e = .outOfMemory := by
  induction ops generalizing S with
  | nil => exact .of_ok rfl rfl
  | cons op ops ih =>
    have hstep := step_refines h op
    rw [run]
    cases hS : S.step op with
    | error e => exact .of_error rfl (hstep.error e hS)
    | ok r =>
      obtain ⟨S1, out⟩ := r
      obtain ⟨hown, hagr⟩ := hstep.ok _ hS
      have hrest := ih hown
      cases hS1 : run ops S1 with
      | error e => exact .of_error (by simp only [hS1]) (hrest.error e hS1)
      | ok r =>
        obtain ⟨S2, outs⟩ := r
        refine .of_ok (a := (S2, out :: outs)) (by simp only [hS1]) ?_
        rw [Eager.run, hagr]
        simp only [hrest.ok _ hS1]

/-- One space is alive; it uses no frame twice, and each has a reference count of 1. -/
structure Fresh (S : Spaces) (id : SpaceId) (T : Nat) : Prop where
  roots : S.roots = update (fun _ => none) id (some T)
  once : ∀ f, refs f (uses S.machine.ram 3 T) ≤ 1
  counted : ∀ u ∈ uses S.machine.ram 3 T, S.machine.pmm.refcount u.frame = 1
  used : ∀ f, 0 < S.machine.pmm.refcount f →
    S.machine.pmm.bitmapTest f = true ∧ 0 < f ∧ f < S.machine.pmm.totalFrames
  size : S.machine.pmm.totalFrames ≤ MAX_FRAMES

lemma Fresh.owned (h : S.Fresh id T) : S.Owned := by
  have hpool : pool S.roots = {T} := by
    rw [h.roots, pool_update_of_none rfl]
    rfl
  have hcnt : ∀ c ∈ holds S.machine.ram 3 T, S.machine.pmm.refcount c.1 = 1 := by
    intro c hc
    obtain ⟨u, hu, rfl⟩ := mem_map.mp hc
    rw [hold_fst]
    exact h.counted u hu
  rw [Owned, hpool, ← cons_zero]
  constructor
  · rw [total_cons, total_zero, add_zero, add_zero]
    refine ⟨⟨fun f => ?_, fun c hc _ => hcnt c hc, fun hfal => hfal.elim⟩, h.used,
      fun f hK => hK.elim, h.size⟩
    have hone := h.once f
    rw [← claims_holds] at hone
    by_cases hf : claims f (holds S.machine.ram 3 T) = 0
    · omega
    obtain ⟨c, hc, rfl⟩ := countP_pos.mp (Nat.pos_of_ne_zero hf)
    have := hcnt c hc
    omega
  intro U hU
  obtain rfl : U = T := by simpa using hU
  exact h.once

/-- **Copy-on-write fork refines eager copying.**  Until the allocator runs out, every read returns
what it returns in the system where each space has a memory of its own. -/
theorem run_refines_eager {T : Nat} (h : S.Fresh id T) (ops : List SpaceOp) :
    Outcome (run ops S) (fun r => Eager.run ops S.abs = (r.1.abs, r.2)) fun e => e = .outOfMemory :=
  run_refines h.owned ops

/-- Memory of 16 frames; frame 2 is the PML4 of an empty address space, frame 3 is allocated. -/
def emptySpace : Machine where
  pmm :=
    { bitmap := 15
      refcounts := (((Store.const 0).set 1 1).set 2 1).set 3 1
      totalFrames := 16
      freeFrames := 12 }
  ram := Store.const (Store.const 0)

lemma emptySpace_family : Family (fun _ => False) False emptySpace (2 ::ₘ 0) ({(3, true)} + 0) := by
  have hent : ∀ i < entryCount 3, Pte.target 3 (emptySpace.ram.entry 2 i) = none :=
    fun _ _ => Pte.target_zero 3
  have hhol : holds emptySpace.ram 3 2 = {(2, true)} := holds_of_empty hent
  constructor
  · rw [total_cons, total_zero, add_zero, add_zero, hhol]
    refine ⟨⟨fun f => ?_, ?_, fun hfal => hfal.elim⟩, fun f hf => ?_, fun f hK => hK.elim,
      by decide⟩
    · rw [claims_add, claims_singleton, claims_singleton]
      by_cases h2 : (2 : Nat) = f
      · subst h2
        decide
      by_cases h3 : (3 : Nat) = f
      · subst h3
        decide
      · simp [h2, h3]
    · simp only [mem_add, mem_singleton]
      rintro c (rfl | rfl) - <;> rfl
    simp only [Pmm.refcount, emptySpace, Store.get_set, Store.get_const] at hf
    by_cases h3 : f = 3
    · subst h3
      decide
    by_cases h2 : f = 2
    · subst h2
      decide
    by_cases h1 : f = 1
    · subst h1
      decide
    · simp [h1, h2, h3] at hf
  intro T hT f
  obtain rfl : T = 2 := by simpa using hT
  rw [← claims_holds, hhol, claims_singleton]
  split <;> omega

/-- The page at 0x1000 is mapped to frame 3, writable. -/
def onePage : Spaces where
  machine := ((referenceMapTo emptySpace 2 0x1000 3
    (Pte.PRESENT ||| Pte.WRITABLE ||| Pte.USER_ACCESSIBLE)).toOption).getD emptySpace
  kernelPml4 := 1
  roots := update (fun _ => none) 0 (some 2)

lemma onePage_fresh : onePage.Fresh 0 2 := by
  obtain ⟨s, hs⟩ : ∃ s, referenceMapTo emptySpace 2 0x1000 3
      (Pte.PRESENT ||| Pte.WRITABLE ||| Pte.USER_ACCESSIBLE) = .ok s := by
    cases h : referenceMapTo emptySpace 2 0x1000 3
      (Pte.PRESENT ||| Pte.WRITABLE ||| Pte.USER_ACCESSIBLE) with
    | ok s => exact ⟨s, rfl⟩
    | error e =>
      have : (referenceMapTo emptySpace 2 0x1000 3
        (Pte.PRESENT ||| Pte.WRITABLE ||| Pte.USER_ACCESSIBLE)).isOk = true := by decide +kernel
      rw [h] at this
      cases this
  have hmac : onePage.machine = s := by rw [onePage, hs]; rfl
  have hmap : referenceMapper.mapTo emptySpace 2 0x1000 3
      (Pte.PRESENT ||| Pte.WRITABLE ||| Pte.USER_ACCESSIBLE) = .ok s := hs
  have hmapped := emptySpace_family.mapTo referenceMapper_documented (by decide) (by decide)
    (by decide) hmap
  have hsole : ∀ c ∈ holds s.ram 3 2, c.2 = true := by
    intro c hc
    obtain ⟨u, hu, rfl⟩ := mem_map.mp hc
    cases u with
    | table l f => rfl
    | leaf e f =>
      -- the only leaf is the new one
      obtain ⟨q, hq, hleaf, -⟩ := exists_path_of_leaf_mem hu
      have hpte := hmapped.leaf q hq
      rw [pteAt, hleaf] at hpte
      split at hpte
      · cases hpte
        have hw : Pte.isWritable (Pte.setAddr 3
          (Pte.PRESENT ||| Pte.WRITABLE ||| Pte.USER_ACCESSIBLE)) = true := by decide
        exact hw
      obtain ⟨i, q, rfl, -⟩ := hq.exists_cons
      have hent : pageTree.target 3 (emptySpace.ram.tables 2 i) = none := by
        rw [pageTree_target]
        exact Pte.target_zero 3
      rw [pteAt, leafAt_of_target_none hent] at hpte
      cases hpte
  have hown := hmapped.family.own_cons
  refine ⟨rfl, ?_, ?_, ?_, ?_⟩
  · rw [hmac]
    exact hmapped.family.linear 2 (by simp)
  · rw [hmac]
    intro u hu
    have hmem : hold u ∈ holds s.ram 3 2 := mem_map.mpr ⟨u, hu, rfl⟩
    rw [← hold_fst]
    exact hown.ledger.sole _ (mem_add.mpr (.inl hmem)) (hsole _ hmem)
  · rw [hmac]
    exact hown.used
  · rw [hmac]
    exact hown.size

/-- The space is written, copied and written again; each space reads its own value. -/
theorem run_refines_eager_onePage : ∃ S,
    run [.write 0 0x1234 7, .fork 0 1, .write 1 0x1234 9, .read 0 0x1234, .read 1 0x1234] onePage =
        .ok (S, [none, none, none, some 7, some 9]) ∧
      Eager.run [.write 0 0x1234 7, .fork 0 1, .write 1 0x1234 9, .read 0 0x1234, .read 1 0x1234]
        onePage.abs = (S.abs, [none, none, none, some 7, some 9]) := by
  obtain ⟨ops, hops⟩ : ∃ ops : List SpaceOp,
    ops = [.write 0 0x1234 7, .fork 0 1, .write 1 0x1234 9, .read 0 0x1234, .read 1 0x1234] :=
    ⟨_, rfl⟩
  have hout : ((run ops onePage).toOption).map Prod.snd =
      some [none, none, none, some 7, some 9] := by
    rw [hops]
    decide +kernel
  rw [← hops]
  cases hrun : run ops onePage with
  | error e =>
    rw [hrun] at hout
    cases hout
  | ok r =>
    rw [hrun] at hout
    obtain ⟨S, outs⟩ := r
    have houts : outs = [none, none, none, some 7, some 9] := some.inj hout
    subst houts
    have heager := (run_refines_eager onePage_fresh ops).ok _ hrun
    refine ⟨S, rfl, ?_⟩
    exact heager

/-- A page table or a writable page has one user among all spaces; no count is below the number of
users. -/
structure Isolated (S : Spaces) : Prop where
  sole : ∀ i T u, S.roots i = some T → u ∈ uses S.machine.ram 3 T → (hold u).2 = true →
    claims u.frame (total S.machine.ram (pool S.roots)) = 1
  counted : ∀ f, claims f (total S.machine.ram (pool S.roots)) ≤ S.machine.pmm.refcount f

lemma Owned.isolated (h : S.Owned) : S.Isolated := by
  have hledger := add_zero (total S.machine.ram (pool S.roots)) ▸ h.own.ledger
  refine ⟨fun i T u hT hu hsole => ?_, hledger.bound⟩
  have hmem := hold_mem_total (mem_pool.mpr ⟨i, hT⟩) hu
  have hone := hledger.sole _ hmem hsole
  rw [← hold_fst]
  exact le_antisymm (hone ▸ hledger.bound _) (claims_pos hmem)

variable {ops : List SpaceOp} {outs : List (Option Byte)}

lemma Owned.run (h : S.Owned) (hrun : run ops S = .ok (S', outs)) : S'.Owned := by
  induction ops generalizing S outs with
  | nil =>
    cases hrun
    exact h
  | cons op ops ih =>
    rw [Spaces.run] at hrun
    split at hrun
    · cases hrun
    rename_i hstep
    split at hrun
    · cases hrun
    rename_i hrest
    cases hrun
    exact ih ((step_refines h op).ok _ hstep).1 hrest

/-- **Address spaces stay apart** under every sequence of reads, writes, forks and teardowns. -/
theorem run_isolated {T : Nat} (h : S.Fresh id T) (hrun : run ops S = .ok (S', outs)) :
    S'.Isolated :=
  (h.owned.run hrun).isolated

/-- A space is forked, and the copy written to. -/
theorem run_isolated_fork : ∃ S outs,
    run [.fork 0 1, .write 1 0x1234 9] onePage = .ok (S, outs) ∧ S.Isolated := by
  have hout : meets (run [.fork 0 1, .write 1 0x1234 9] onePage) (fun _ => true) = true := by
    decide +kernel
  obtain ⟨⟨S, outs⟩, hrun, -⟩ := exists_of_meets hout
  exact ⟨S, outs, hrun, run_isolated onePage_fresh hrun⟩

end Spaces

end Indominus.Memory
