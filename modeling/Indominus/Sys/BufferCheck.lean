import Indominus.Sys.Fd

/-!
# The check of user buffers (`is_valid_user_range`, `is_user_buffer_mapped`)

Only the last entry's user bit is looked at, and a large page ends the loop.
-/

namespace Indominus.Sys

open Lib Memory

variable {m : PhysMem} {pml4 addr len page : Nat}

/-! ## The rule of the hardware -/

/-- The entries that are read for an address; an absent entry, a large page or the PT ends the
walk. -/
def walkEntries (m : PhysMem) (pml4 va : Nat) : List Word :=
  let e4 := m.entry pml4 (pml4Index va)
  if ¬ Pte.isPresent e4 then [e4]
  else
    let e3 := m.entry (Pte.addr e4) (pdptIndex va)
    if ¬ Pte.isPresent e3 ∨ Pte.isHuge e3 then [e4, e3]
    else
      let e2 := m.entry (Pte.addr e3) (pdIndex va)
      if ¬ Pte.isPresent e2 ∨ Pte.isHuge e2 then [e4, e3, e2]
      else [e4, e3, e2, m.entry (Pte.addr e2) (ptIndex va)]

/-- The address translates, and user code may use the translation. -/
def UserTranslates (m : PhysMem) (pml4 va : Nat) : Prop :=
  ∀ e ∈ walkEntries m pml4 va, Pte.isPresent e = true ∧ Pte.isUser e = true

instance (m : PhysMem) (pml4 va : Nat) : Decidable (UserTranslates m pml4 va) :=
  List.decidableBAll (fun e => Pte.isPresent e = true ∧ Pte.isUser e = true) (walkEntries m pml4 va)

lemma walkEntries_page (va : Nat) :
    walkEntries m pml4 (va / PAGE_SIZE * PAGE_SIZE) = walkEntries m pml4 va := by
  have hidx : ∀ k, va / PAGE_SIZE * PAGE_SIZE / (PAGE_SIZE * k) = va / (PAGE_SIZE * k) := by
    intro k
    rw [← Nat.div_div_eq_div_mul, ← Nat.div_div_eq_div_mul, Nat.mul_div_cancel _ (by decide)]
  have h4 : pml4Index (va / PAGE_SIZE * PAGE_SIZE) = pml4Index va :=
    congrArg (· % 512) (hidx (2 ^ 27))
  have h3 : pdptIndex (va / PAGE_SIZE * PAGE_SIZE) = pdptIndex va :=
    congrArg (· % 512) (hidx (2 ^ 18))
  have h2 : pdIndex (va / PAGE_SIZE * PAGE_SIZE) = pdIndex va := congrArg (· % 512) (hidx (2 ^ 9))
  have h1 : ptIndex (va / PAGE_SIZE * PAGE_SIZE) = ptIndex va := congrArg (· % 512) (hidx 1)
  simp only [walkEntries, h4, h3, h2, h1]

lemma userTranslates_page (va : Nat) :
    UserTranslates m pml4 (va / PAGE_SIZE * PAGE_SIZE) ↔ UserTranslates m pml4 va := by
  rw [UserTranslates, walkEntries_page, UserTranslates]

/-! ## What the check looks at -/

/-- The entries of a page are present, and the last of them carries the user bit. -/
def leafUser (m : PhysMem) (pml4 page : Nat) : Bool :=
  (walkEntries m pml4 (page * PAGE_SIZE)).all Pte.isPresent &&
    (walkEntries m pml4 (page * PAGE_SIZE)).getLast?.any Pte.isUser

/-- The entries of a page above the last one carry the user bit. -/
def upperUser (m : PhysMem) (pml4 page : Nat) : Bool :=
  (walkEntries m pml4 (page * PAGE_SIZE)).dropLast.all Pte.isUser

/-- The page is part of a mapped page of 1 GiB or 2 MiB. -/
def isLarge (m : PhysMem) (pml4 page : Nat) : Bool :=
  (walkEntries m pml4 (page * PAGE_SIZE)).all Pte.isPresent &&
    decide ((walkEntries m pml4 (page * PAGE_SIZE)).length < 4)

lemma userTranslates_iff :
    UserTranslates m pml4 (page * PAGE_SIZE) ↔ leafUser m pml4 page = true ∧
      upperUser m pml4 page = true := by
  have hne : walkEntries m pml4 (page * PAGE_SIZE) ≠ [] := by
    unfold walkEntries
    dsimp only
    split_ifs <;> exact List.cons_ne_nil _ _
  rw [UserTranslates, leafUser, upperUser]
  generalize walkEntries m pml4 (page * PAGE_SIZE) = es at hne ⊢
  obtain ⟨upper, leaf, rfl⟩ : ∃ upper leaf, es = upper ++ [leaf] :=
    ⟨es.dropLast, es.getLast hne, (List.dropLast_append_getLast hne).symm⟩
  simp only [List.dropLast_concat, List.getLast?_concat, Option.any_some, List.all_append,
    List.all_cons, List.all_nil,
    Bool.and_true, Bool.and_eq_true, List.all_eq_true, List.mem_append, List.mem_singleton]
  constructor
  · intro h
    exact ⟨⟨⟨fun e he => (h e (.inl he)).1, (h leaf (.inr rfl)).1⟩, (h leaf (.inr rfl)).2⟩,
      fun e he => (h e (.inl he)).2⟩
  rintro ⟨⟨⟨hpres, hleaf⟩, huser⟩, hupper⟩ e (he | rfl)
  · exact ⟨hpres e he, hupper e he⟩
  · exact ⟨hleaf, huser⟩

lemma pageMapped_eq :
    pageMapped m pml4 (page * PAGE_SIZE) =
      (leafUser m pml4 page && !isLarge m pml4 page, leafUser m pml4 page) := by
  obtain ⟨es, hes⟩ : ∃ es, es = walkEntries m pml4 (page * PAGE_SIZE) := ⟨_, rfl⟩
  rw [pageMapped, leafUser, isLarge, ← hes]
  rw [walkEntries] at hes
  dsimp only at hes ⊢
  split_ifs at hes ⊢ <;> subst hes <;> simp_all

/-- The loop comes as far as the page: no page before it is a large one. -/
def Reached (m : PhysMem) (pml4 first page : Nat) : Prop :=
  ∀ q, first ≤ q → q < page → isLarge m pml4 q = false

/-- The loop looks at no page after a large one. -/
lemma pagesMapped_iff {n first : Nat} : pagesMapped m pml4 n first = true ↔
    ∀ page, first ≤ page → page < first + n → Reached m pml4 first page →
      leafUser m pml4 page = true := by
  induction n generalizing first with
  | zero =>
    refine iff_of_true rfl fun page hlo hhi => ?_
    omega
  | succ n ih =>
    rw [pagesMapped, pageMapped_eq]
    have hfst : Reached m pml4 first first := fun q hlo hhi => by omega
    cases hleaf : leafUser m pml4 first with
    | false =>
      refine iff_of_false Bool.false_ne_true fun h => ?_
      have htrue := h first le_rfl (by omega) hfst
      rw [hleaf] at htrue
      cases htrue
    | true =>
      cases hlarge : isLarge m pml4 first with
      | true =>
        -- the loop stops here, and nothing behind this page is reached
        refine iff_of_true rfl fun page hlo hhi hrchd => ?_
        rcases Nat.eq_or_lt_of_le hlo with rfl | hlt
        · exact hleaf
        have hfal := hrchd first le_rfl hlt
        rw [hlarge] at hfal
        cases hfal
      | false =>
        refine ih.trans ⟨fun h page hlo hhi hrchd => ?_, fun h page hlo hhi hrchd => ?_⟩
        · rcases Nat.eq_or_lt_of_le hlo with rfl | hlt
          · exact hleaf
          · exact h page hlt (by omega) fun q hq => hrchd q (by omega)
        refine h page (by omega) (by omega) fun q hq hqp => ?_
        rcases Nat.eq_or_lt_of_le hq with rfl | hlt
        · exact hlarge
        · exact hrchd q hlt hqp

/-! ## Buffers -/

def InBuffer (addr len page : Nat) : Prop :=
  addr / PAGE_SIZE ≤ page ∧ page ≤ (addr + len - 1) / PAGE_SIZE

lemma isValidUserRange_iff (hlen : len < 2 ^ 64) :
    isValidUserRange addr len = true ↔ addr ≠ 0 ∧ len ≠ 0 ∧ addr + len ≤ USER_ADDR_MAX := by
  unfold isValidUserRange USER_ADDR_MAX
  split_ifs with hzero
  · refine iff_of_false (by simp) ?_
    omega
  · simp only [Bool.and_eq_true, decide_eq_true_eq]
    omega

lemma isUserBufferMapped_iff (hlen : len < 2 ^ 64) (hval : isValidUserRange addr len = true) :
    isUserBufferMapped m pml4 addr len = true ↔
      ∀ page, InBuffer addr len page → Reached m pml4 (addr / PAGE_SIZE) page →
        leafUser m pml4 page = true := by
  obtain ⟨haddr, hpos, hend⟩ := (isValidUserRange_iff hlen).mp hval
  have hsm : addr + len - 1 < 2 ^ 64 := by
    unfold USER_ADDR_MAX at hend
    omega
  rw [isUserBufferMapped, if_neg (by omega)]
  rw [Nat.mod_eq_of_lt hsm, pagesMapped_iff]
  refine forall_congr' fun page => ⟨fun h hin => h hin.1 (by have := hin.2; omega),
    fun h hlo hhi => h ⟨hlo, by omega⟩⟩

/-- What the check does not look at is in order: upper entries, and pages behind a large one. -/
structure Trustworthy (m : PhysMem) (pml4 addr len : Nat) : Prop where
  upper : ∀ page, InBuffer addr len page → Reached m pml4 (addr / PAGE_SIZE) page →
    upperUser m pml4 page = true
  behind : ∀ page, InBuffer addr len page → ¬ Reached m pml4 (addr / PAGE_SIZE) page →
    UserTranslates m pml4 (page * PAGE_SIZE)

/-- **Soundness of the check.**  The two checks vouch for every byte of a buffer exactly if what
they leave out is in order wherever what they look at is. -/
theorem bufferCheck_sound_iff (m : PhysMem) (pml4 addr : Nat) (hlen : len < 2 ^ 64) :
    (isValidUserRange addr len = true → isUserBufferMapped m pml4 addr len = true →
        ∀ a, addr ≤ a → a < addr + len → a < 0x800000000000 ∧ UserTranslates m pml4 a) ↔
      (isValidUserRange addr len = true →
        (∀ page, InBuffer addr len page → Reached m pml4 (addr / PAGE_SIZE) page →
        leafUser m pml4 page = true) →
        Trustworthy m pml4 addr len) := by
  refine imp_congr_right fun hval => ?_
  rw [isUserBufferMapped_iff hlen hval]
  refine imp_congr_right fun hleaf => ?_
  obtain ⟨haddr, hpos, hend⟩ := (isValidUserRange_iff hlen).mp hval
  constructor
  · intro h
    -- every page of the buffer has an address of the buffer
    have hpgs : ∀ page, InBuffer addr len page → UserTranslates m pml4 (page * PAGE_SIZE) := by
      intro page hin
      obtain ⟨a, hlo, hhi, rfl⟩ : ∃ a, addr ≤ a ∧ a < addr + len ∧ a / PAGE_SIZE = page := by
        by_cases hfst : page = addr / PAGE_SIZE
        · exact ⟨addr, le_rfl, by omega, hfst.symm⟩
        obtain ⟨hlow, hhigh⟩ := hin
        unfold PAGE_SIZE at hlow hhigh hfst ⊢
        exact ⟨page * 4096, by omega, by omega, by omega⟩
      exact (userTranslates_page a).mpr (h a hlo hhi).2
    exact ⟨fun page hin hrchd => (userTranslates_iff.mp (hpgs page hin)).2,
      fun page hin _ => hpgs page hin⟩
  intro htrust a hlo hhi
  have hin : InBuffer addr len (a / PAGE_SIZE) :=
    ⟨Nat.div_le_div_right hlo, Nat.div_le_div_right (by omega)⟩
  refine ⟨by unfold USER_ADDR_MAX at hend; omega, (userTranslates_page a).mp ?_⟩
  by_cases hrchd : Reached m pml4 (addr / PAGE_SIZE) (a / PAGE_SIZE)
  · exact userTranslates_iff.mpr ⟨hleaf _ hin hrchd, htrust.upper _ hin hrchd⟩
  · exact htrust.behind _ hin hrchd

/-- One PML4, one PDPT and one PD: the first 2 MiB are a large page, and nothing else is mapped. -/
def largePageTables (pml4Flags : Word) : PhysMem :=
  let m : PhysMem := Store.const (Store.const 0)
  let m := m.setEntry 1 0 (Pte.setAddr 2 pml4Flags)
  let m := m.setEntry 2 0 (Pte.setAddr 3 (Pte.PRESENT ||| Pte.USER_ACCESSIBLE))
  m.setEntry 3 0 (Pte.setAddr 512 (Pte.PRESENT ||| Pte.USER_ACCESSIBLE ||| Pte.HUGE_PAGE))

/-- A buffer inside of the large page. -/
theorem bufferCheck_sound_iff_large : isValidUserRange 0x1000 0x2000 = true ∧
      isUserBufferMapped (largePageTables (Pte.PRESENT ||| Pte.USER_ACCESSIBLE)) 1 0x1000 0x2000 =
        true ∧
      ∀ a, 0x1000 ≤ a → a < 0x1000 + 0x2000 →
        a < 0x800000000000 ∧
          UserTranslates (largePageTables (Pte.PRESENT ||| Pte.USER_ACCESSIBLE)) 1 a := by
  have hval : isValidUserRange 0x1000 0x2000 = true := by decide
  have hmap : isUserBufferMapped
    (largePageTables (Pte.PRESENT ||| Pte.USER_ACCESSIBLE)) 1 0x1000 0x2000 = true := by
    decide +kernel
  have hpgs : ∀ page, InBuffer 0x1000 0x2000 page →
      UserTranslates (largePageTables (Pte.PRESENT ||| Pte.USER_ACCESSIBLE)) 1
        (page * PAGE_SIZE) := by
    rintro page ⟨hlo, hhi⟩
    obtain rfl | rfl : page = 1 ∨ page = 2 := by
      norm_num [PAGE_SIZE] at hlo hhi
      omega
    · decide +kernel
    · decide +kernel
  refine ⟨hval, hmap, (bufferCheck_sound_iff _ 1 0x1000 (by decide)).mpr (fun _ _ => ?_) hval hmap⟩
  exact ⟨fun page hin _ => (userTranslates_iff.mp (hpgs page hin)).2,
    fun page hin _ => hpgs page hin⟩

/-- A buffer that runs over the end of the large page, and one below a PML4 entry of the kernel. -/
theorem bufferCheck_unsound : (isValidUserRange 0x1FF000 0x2000 = true ∧
      isUserBufferMapped (largePageTables (Pte.PRESENT ||| Pte.USER_ACCESSIBLE)) 1 0x1FF000
        0x2000 = true ∧
      ¬ UserTranslates (largePageTables (Pte.PRESENT ||| Pte.USER_ACCESSIBLE)) 1 0x200000) ∧
    (isValidUserRange 0x1000 1 = true ∧
      isUserBufferMapped (largePageTables Pte.PRESENT) 1 0x1000 1 = true ∧
      ¬ UserTranslates (largePageTables Pte.PRESENT) 1 0x1000) := by
  decide +kernel

end Indominus.Sys
