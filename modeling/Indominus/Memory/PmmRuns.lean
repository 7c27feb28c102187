import Indominus.Memory.ExactMapper
import Indominus.Memory.PmmInit

/-! # The accounts of the allocator over whole runs -/

namespace Indominus.Memory

open Lib Pmm List Finset

variable {p0 p p' : Pmm} {f g : Nat} {map : MemoryMap} {r : Option Nat}

/-! ## Runs -/

inductive PmmCall
  | mark (physStart physEnd : Nat)
  | alloc
  | free (frame : Nat)
  | incref (frame : Nat)
  | decref (frame : Nat)
  deriving DecidableEq

/-- A call, with the frame that `alloc_frame` returns. -/
def PmmCall.run (p : Pmm) : PmmCall → Except Panic (Option Nat × Pmm)
  | .mark physStart physEnd => .ok (none, p.markRegionUsed physStart physEnd)
  | .alloc => .ok ((p.allocFrame.map Prod.fst), (p.allocFrame.map Prod.snd).getD p)
  | .free frame => (p.freeFrame frame).map fun p' => (none, p')
  | .incref frame => (p.incref frame).map fun p' => (none, p')
  | .decref frame => (p.decref frame).map fun p' => (none, p')

/-- The calls so far and what they returned, the newest first. -/
abbrev History := List (PmmCall × Option Nat)

namespace History

/-- `alloc_frame` has returned the frame. -/
def HandedOut (h : History) (frame : Nat) : Prop := (.alloc, some frame) ∈ h

def Early (h : History) : Prop := ∀ frame, ¬ h.HandedOut frame

/-- The frame was in a region that was marked before any allocation. -/
def MarkedEarly (frame : Nat) : History → Prop
  | [] => False
  | (c, _) :: h => MarkedEarly frame h ∨
      Early h ∧ ∃ physStart physEnd, c = .mark physStart physEnd ∧ ∃ a, physStart ≤ a ∧
        a < physEnd ∧ a / PAGE_SIZE = frame

end History

open History

/-- The calls on a frame are made on frames that `alloc_frame` has returned. -/
def PmmCall.Allowed (h : History) : PmmCall → Prop
  | .mark _ _ => True
  | .alloc => True
  | .free frame => h.HandedOut frame
  | .incref frame => h.HandedOut frame
  | .decref frame => h.HandedOut frame

/-- The runs of the allocator from a state, in which every call meets a condition. -/
inductive PmmRun (p0 : Pmm) (cond : History → PmmCall → Prop) : History → Pmm → Prop
  | start : PmmRun p0 cond [] p0
  | call {h : History} {p p' : Pmm} {c : PmmCall} {r : Option Nat} :
      PmmRun p0 cond h p → c.Allowed h → cond h c →
      c.run p = .ok (r, p') → PmmRun p0 cond ((c, r) :: h) p'

structure Accounts (map : MemoryMap) (h : History) (p : Pmm) : Prop where
  /-- The counter is the number of clear bits below `TOTAL_FRAMES`. -/
  counter : p.freeFrames = p.freeSet.card
  reserved : ∀ f, f = 0 ∨ ¬ map.Usable f ∨ h.MarkedEarly f → ¬ h.HandedOut f
  /-- `alloc_frame` returns the lowest free frame. -/
  lowest : ∀ f p', p.allocFrame = some (f, p') → f ∈ p.freeSet ∧ ∀ g ∈ p.freeSet, f ≤ g
  exhausted : p.allocFrame = none ↔ p.freeFrames = 0
  unreferenced : ∀ f p', p.allocFrame = some (f, p') → p.refcount f = 0

/-! ## The calls and the free frames -/

section Calls

lemma map_none_eq_ok {x : Except Panic Pmm} (h : (x.map fun p' => (none, p')) = .ok (r, p')) :
    r = none ∧ x = .ok p' := by
  cases x with
  | error e => cases h
  | ok q =>
    cases h
    exact ⟨rfl, rfl⟩

lemma freeSet_claim (p : Pmm) (f : Nat) : (p.claim f).freeSet = p.freeSet.erase f :=
  freeSet_reserve p f

lemma freeSet_release (hf : f < p.totalFrames) : (p.release f).freeSet = insert f p.freeSet :=
  freeSet_clearFrame hf

lemma notMem_freeSet (hbit : p.bitmapTest f = true) : f ∉ p.freeSet := by simp [hbit]

lemma allocFrame_eq_none (hzero : 0 ∉ p.freeSet) : p.allocFrame = none ↔ p.freeSet = ∅ := by
  constructor
  · intro h
    rw [allocFrame, Option.map_eq_none_iff] at h
    rw [eq_empty_iff_forall_notMem]
    intro f hf
    have hpos : f ≠ 0 := fun heq => hzero (heq ▸ hf)
    rw [mem_freeSet] at hf
    have hbit : p.bitmapTest f = true := scan_eq_none h f (by omega) (by omega)
    rw [hf.2] at hbit
    cases hbit
  intro hemp
  cases h : p.allocFrame with
  | none => rfl
  | some r =>
    obtain ⟨f, q⟩ := r
    obtain ⟨-, hlt, hfree, -⟩ := allocFrame_eq_some h
    have hmem : f ∈ p.freeSet := mem_freeSet.mpr ⟨hlt, hfree⟩
    rw [hemp] at hmem
    exact absurd hmem (notMem_empty _)

end Calls

/-! ## Consistent states -/

/-- The counter counts the free frames, frame 0 is not among them, and only allocated frames have
references. -/
structure Pmm.Consistent (p : Pmm) : Prop where
  counts : p.Counts
  zero : 0 ∉ p.freeSet
  unreferenced : ∀ f, p.bitmapTest f = false → p.refcount f = 0
  inRange : ∀ f, p.refcount f ≠ 0 → f ≠ 0 ∧ f < p.totalFrames
  size : p.totalFrames ≤ MAX_FRAMES

namespace Pmm.Consistent

lemma of_init (hmap : map.WellFormed) : (bss.init map).Consistent := by
  have hinit := init_initialised hmap bss
  have hnone : ∀ f, (bss.init map).refcount f = 0 :=
    fun f => (hinit.refcount f).trans (Store.get_const ..)
  refine ⟨hinit.counts, hinit.zero, fun f _ => hnone f, fun f hf => absurd (hnone f) hf, ?_⟩
  rw [hinit.total]
  exact Nat.min_le_right ..

lemma mark (hp : p.Consistent) (physStart physEnd : Nat) :
    (p.markRegionUsed physStart physEnd).Consistent := by
  have hmk := p.markRegionUsed_marked physStart physEnd
  refine ⟨hmk.counts hp.counts, ?_, fun f hf => ?_, fun f hf => ?_, ?_⟩
  · rw [hmk.free]
    exact fun hmem => hp.zero (mem_sdiff.mp hmem).1
  · rw [hmk.refcount]
    refine hp.unreferenced f (Bool.eq_false_of_not_eq_true fun hset => ?_)
    rw [hmk.bit f hset] at hf
    cases hf
  · rw [hmk.refcount] at hf
    rw [hmk.total]
    exact hp.inRange f hf
  · rw [hmk.total]
    exact hp.size

lemma alloc (hp : p.Consistent) (hall : p.allocFrame = some (f, p')) : p'.Consistent := by
  obtain ⟨hpos, hlt, hbit, -, rfl⟩ := allocFrame_eq_some hall
  have hmem : f ∈ p.freeSet := mem_freeSet.mpr ⟨hlt, hbit⟩
  refine ⟨?_, ?_, fun g hg => ?_, fun g hg => ?_, hp.size⟩
  · rw [Counts, freeSet_claim, card_erase_of_mem hmem, ← hp.counts]
    rfl
  · rw [freeSet_claim]
    exact fun hzero => hp.zero (Finset.mem_of_mem_erase hzero)
  · rw [claim_bitmapTest, Bool.or_eq_false_iff, decide_eq_false_iff_not] at hg
    rw [claim_refcount, if_neg hg.1]
    exact hp.unreferenced g hg.2
  by_cases heq : g = f
  · subst heq
    exact ⟨hpos.ne', hlt⟩
  · rw [claim_refcount, if_neg heq] at hg
    exact hp.inRange g hg

lemma setRefcount (hp : p.Consistent) (hf : f ≠ 0) (hlt : f < p.totalFrames)
    (hbit : p.bitmapTest f = true) (rc : Nat) : (p.setRefcount f rc).Consistent := by
  refine ⟨hp.counts, hp.zero, fun g hg => ?_, fun g hg => ?_, hp.size⟩
  · have hne : g ≠ f := by
      rintro rfl
      rw [setRefcount_bitmapTest, hbit] at hg
      cases hg
    rw [setRefcount_refcount, if_neg hne]
    exact hp.unreferenced g hg
  by_cases heq : g = f
  · subst heq
    exact ⟨hf, hlt⟩
  · rw [setRefcount_refcount, if_neg heq] at hg
    exact hp.inRange g hg

lemma release (hp : p.Consistent) (hf : f ≠ 0) (hlt : f < p.totalFrames)
    (hbit : p.bitmapTest f = true) : (p.release f).Consistent := by
  refine ⟨?_, ?_, fun g hg => ?_, fun g hg => ?_, hp.size⟩
  · rw [Counts, freeSet_release hlt, card_insert_of_notMem (notMem_freeSet hbit), ← hp.counts]
    rfl
  · rw [freeSet_release hlt, mem_insert, not_or]
    exact ⟨hf.symm, hp.zero⟩
  · by_cases heq : g = f
    · rw [release_refcount, if_pos heq]
    rw [release_bitmapTest, decide_eq_false heq] at hg
    rw [release_refcount, if_neg heq]
    exact hp.unreferenced g hg
  have hne : g ≠ f := fun heq => hg (by rw [release_refcount, if_pos heq])
  rw [release_refcount, if_neg hne] at hg
  exact hp.inRange g hg

end Pmm.Consistent

inductive PmmCall.Effect (p : Pmm) : PmmCall → Option Nat → Pmm → Prop
  | mark (physStart physEnd : Nat) :
      Effect p (.mark physStart physEnd) none (p.markRegionUsed physStart physEnd)
  | exhausted : Effect p .alloc none p
  | alloc {f : Nat} {p' : Pmm} (h : p.allocFrame = some (f, p')) : Effect p .alloc (some f) p'
  | release {c : PmmCall} {f : Nat} (hc : c = .free f ∨ c = .decref f) (hlt : f < p.totalFrames)
      (hbit : p.bitmapTest f = true) : Effect p c none (p.release f)
  | count {c : PmmCall} {f : Nat} (hc : c = .incref f ∨ c = .decref f) (hlt : f < p.totalFrames)
      (hbit : p.bitmapTest f = true) (rc : Nat) : Effect p c none (p.setRefcount f rc)
  | saturated (f : Nat) : Effect p (.incref f) none p

/-- All that a call can do to the allocator. -/
lemma PmmCall.effect {c : PmmCall} (hrun : c.run p = .ok (r, p')) : c.Effect p r p' := by
  cases c with
  | mark physStart physEnd =>
    cases hrun
    exact .mark physStart physEnd
  | alloc =>
    cases hall : p.allocFrame with
    | none =>
      obtain ⟨rfl, rfl⟩ : none = r ∧ p = p' := by simpa [PmmCall.run, hall] using hrun
      exact .exhausted
    | some x =>
      obtain ⟨f, q⟩ := x
      obtain ⟨rfl, rfl⟩ : some f = r ∧ q = p' := by simpa [PmmCall.run, hall] using hrun
      exact .alloc hall
  | free f =>
    obtain ⟨rfl, hfree⟩ := map_none_eq_ok hrun
    unfold freeFrame at hfree
    split_ifs at hfree with hzero hlt hbit hrc
    cases hfree
    exact .release (.inl rfl) hlt hbit
  | incref f =>
    obtain ⟨rfl, hincref⟩ := map_none_eq_ok hrun
    unfold Pmm.incref at hincref
    split_ifs at hincref with hlt hbit hrc
    · cases hincref
      exact .count (.inl rfl) hlt hbit _
    · cases hincref
      exact .saturated f
  | decref f =>
    obtain ⟨rfl, hdec⟩ := map_none_eq_ok hrun
    unfold Pmm.decref at hdec
    split_ifs at hdec with hlt hbit hzero hone
    · cases hdec
      exact .release (.inr rfl) hlt hbit
    · cases hdec
      exact .count (.inr rfl) hlt hbit _

variable {cond : History → PmmCall → Prop}

lemma PmmRun.consistent {h : History} (hst : p0.Consistent) (hrun : PmmRun p0 cond h p) :
    p.Consistent ∧ ¬ h.HandedOut 0 := by
  induction hrun with
  | start => exact ⟨hst, not_mem_nil⟩
  | @call h p p' c r _ halw _ hcall ih =>
    obtain ⟨hp, hzero⟩ := ih
    have hpos : ∀ f, h.HandedOut f → f ≠ 0 := fun f hf heq => hzero (heq ▸ hf)
    cases PmmCall.effect hcall with
    | mark physStart physEnd => exact ⟨hp.mark _ _, by simpa [HandedOut] using hzero⟩
    | exhausted => exact ⟨hp, by simpa [HandedOut] using hzero⟩
    | @alloc f _ hall =>
      have hne : 0 ≠ f := (allocFrame_eq_some hall).1.ne
      exact ⟨hp.alloc hall, by simpa [HandedOut, hne] using hzero⟩
    | @release _ f hc hlt hbit =>
      have hf : h.HandedOut f := by rcases hc with rfl | rfl <;> exact halw
      exact ⟨hp.release (hpos f hf) hlt hbit, by simpa [HandedOut] using hzero⟩
    | @count _ f hc hlt hbit rc =>
      have hf : h.HandedOut f := by rcases hc with rfl | rfl <;> exact halw
      exact ⟨hp.setRefcount (hpos f hf) hlt hbit rc, by simpa [HandedOut] using hzero⟩
    | saturated f => exact ⟨hp, by simpa [HandedOut] using hzero⟩

/-! ## The frames that are kept back -/

/-- The end of a marked region can be rounded up, if nothing has been allocated yet. -/
def RoundsUp (h : History) (c : PmmCall) : Prop :=
  ∀ physStart physEnd, c = .mark physStart physEnd → h.Early → physEnd + (PAGE_SIZE - 1) < 2 ^ 64

def Allotted (map : MemoryMap) (h : History) (frame : Nat) : Prop :=
  map.Usable frame ∧ ¬ h.MarkedEarly frame

lemma markedEarly_cons {h : History} {c : PmmCall}
    (hc : ∀ physStart physEnd, c ≠ .mark physStart physEnd) :
    MarkedEarly f ((c, r) :: h) ↔ h.MarkedEarly f := by
  refine or_iff_left ?_
  rintro ⟨-, physStart, physEnd, heq, -⟩
  exact hc _ _ heq

/-- The free frames and those that have been handed out may be handed out. -/
structure KeptBack (map : MemoryMap) (h : History) (p : Pmm) : Prop where
  free : ∀ f ∈ p.freeSet, Allotted map h f
  handed : ∀ f, h.HandedOut f → Allotted map h f

namespace KeptBack

variable {h : History} {r : Option Nat} {c : PmmCall}

lemma mark (hkept : KeptBack map h p) {physStart physEnd : Nat}
    (hrd : RoundsUp h (.mark physStart physEnd)) :
    KeptBack map ((.mark physStart physEnd, none) :: h) (p.markRegionUsed physStart physEnd) := by
  have hhanded : ∀ f, HandedOut ((.mark physStart physEnd, none) :: h) f → h.HandedOut f := by
    intro f hf
    exact (mem_cons.mp hf).resolve_left (by simp)
  refine ⟨fun f hf => ?_, fun f hf => ?_⟩
  · rw [(p.markRegionUsed_marked physStart physEnd).free, mem_sdiff, mem_toFinset] at hf
    obtain ⟨husable, hnot⟩ := hkept.free f hf.1
    refine ⟨husable, ?_⟩
    rintro (hearly | ⟨hearly, s, e, heq, a, hlo, hhi, rfl⟩)
    · exact hnot hearly
    obtain ⟨rfl, rfl⟩ := PmmCall.mark.inj heq
    have hend := hrd _ _ rfl hearly
    refine hf.2 (mem_markedFrames hend ?_ ?_) <;> (unfold PAGE_SIZE; omega)
  obtain ⟨husable, hnot⟩ := hkept.handed f (hhanded f hf)
  refine ⟨husable, ?_⟩
  rintro (hearly | ⟨hearly, -⟩)
  · exact hnot hearly
  · exact hearly f (hhanded f hf)

lemma other (hkept : KeptBack map h p) (hc : ∀ physStart physEnd, c ≠ .mark physStart physEnd)
    (hhanded : ∀ f, HandedOut ((c, r) :: h) f → h.HandedOut f ∨ f ∈ p.freeSet)
    (hfree : ∀ f ∈ p'.freeSet, f ∈ p.freeSet ∨ h.HandedOut f) : KeptBack map ((c, r) :: h) p' := by
  refine ⟨fun f hf => ?_, fun f hf => ?_⟩
  · rw [Allotted, markedEarly_cons hc]
    exact (hfree f hf).elim (hkept.free f) (hkept.handed f)
  · rw [Allotted, markedEarly_cons hc]
    exact (hhanded f hf).elim (hkept.handed f) (hkept.free f)

lemma step (hkept : KeptBack map h p) (halw : c.Allowed h) (hrd : RoundsUp h c)
    (hrun : c.run p = .ok (r, p')) : KeptBack map ((c, r) :: h) p' := by
  have hold : ∀ c : PmmCall, ∀ f, HandedOut ((c, none) :: h) f → h.HandedOut f ∨ f ∈ p.freeSet := by
    intro c f hf
    exact .inl ((mem_cons.mp hf).resolve_left (by simp))
  cases PmmCall.effect hrun with
  | mark physStart physEnd => exact hkept.mark hrd
  | exhausted => exact hkept.other (fun _ _ => PmmCall.noConfusion) (hold _) fun _ => .inl
  | @alloc f _ hall =>
    obtain ⟨-, hlt, hbit, -, rfl⟩ := allocFrame_eq_some hall
    refine hkept.other (fun _ _ => PmmCall.noConfusion) (fun g hg => ?_) fun g hg => ?_
    · rcases mem_cons.mp hg with heq | hg
      · obtain rfl : g = f := by simpa using heq
        exact .inr (mem_freeSet.mpr ⟨hlt, hbit⟩)
      · exact .inl hg
    · rw [freeSet_claim] at hg
      exact .inl (Finset.mem_of_mem_erase hg)
  | @release _ f hc hlt hbit =>
    have hf : h.HandedOut f := by rcases hc with rfl | rfl <;> exact halw
    refine hkept.other (by rcases hc with rfl | rfl <;> exact fun _ _ => PmmCall.noConfusion)
      (hold _) fun g hg => ?_
    rw [freeSet_release hlt, mem_insert] at hg
    rcases hg with rfl | hg
    · exact .inr hf
    · exact .inl hg
  | count hc =>
    have hmark : ∀ physStart physEnd, c ≠ .mark physStart physEnd := by
      rcases hc with rfl | rfl <;> exact fun _ _ => PmmCall.noConfusion
    exact hkept.other hmark (hold _) fun _ => .inl
  | saturated => exact hkept.other (fun _ _ => PmmCall.noConfusion) (hold _) fun _ => .inl

end KeptBack

lemma PmmRun.keptBack {h : History} (hmap : map.WellFormed)
    (hrun : PmmRun (bss.init map) RoundsUp h p) : KeptBack map h p := by
  induction hrun with
  | start =>
    refine ⟨fun f hf => ?_, fun f hf => absurd hf not_mem_nil⟩
    exact ⟨((init_initialised hmap bss).free f |>.mp hf).2.2, id⟩
  | call _ halw hrd hcall ih => exact ih.step halw hrd hcall

/-! ## The accounts -/

/-- **The accounts of the allocator** are in order in every run in which regions marked before the
first allocation can be rounded up. -/
theorem pmmRun_accounts {h : History} (hmap : map.WellFormed)
    (hrun : PmmRun (bss.init map) RoundsUp h p) : Accounts map h p := by
  obtain ⟨hp, hzero⟩ := hrun.consistent (.of_init hmap)
  have hkept := hrun.keptBack hmap
  refine ⟨hp.counts, fun f hf hout => ?_, fun f p' hall => ?_, ?_, fun f p' hall => ?_⟩
  · obtain ⟨husable, hnot⟩ := hkept.handed f hout
    rcases hf with rfl | hf | hf
    · exact hzero hout
    · exact hf husable
    · exact hnot hf
  · obtain ⟨-, hlt, hbit, hbel, -⟩ := allocFrame_eq_some hall
    refine ⟨mem_freeSet.mpr ⟨hlt, hbit⟩, fun g hg => ?_⟩
    by_contra hless
    have hpos : 0 < g := Nat.pos_of_ne_zero fun heq => hp.zero (heq ▸ hg)
    exact notMem_freeSet (hbel g hpos (not_le.mp hless)) hg
  · rw [allocFrame_eq_none hp.zero, ← card_eq_zero, ← hp.counts]
  · exact hp.unreferenced f (allocFrame_eq_some hall).2.2.1

/-! ## The frames that can be handed out -/

lemma mem_available_iff (hzero : f ≠ 0) : f ∈ p.available ↔ f ∈ p.freeSet := by
  simp [Nat.pos_of_ne_zero hzero]

lemma PmmRun.available {h : History} (hrun : PmmRun p0 cond h p) :
    (∀ f ∈ p.available, f ∈ p0.available) ∧ ∀ f, h.HandedOut f → f ∈ p0.available := by
  induction hrun with
  | start => exact ⟨fun _ hf => hf, fun _ hf => absurd hf not_mem_nil⟩
  | @call h p p' c r _ halw _ hcall ih =>
    obtain ⟨hfree, hout⟩ := ih
    have hold : ∀ f, HandedOut ((c, none) :: h) f → f ∈ p0.available := by
      intro f hf
      exact hout f ((mem_cons.mp hf).resolve_left (by simp))
    cases PmmCall.effect hcall with
    | mark physStart physEnd =>
      refine ⟨fun f hf => hfree f ?_, hold⟩
      have hne : f ≠ 0 := (mem_available.mp hf).1.1.ne'
      rw [mem_available_iff hne, (p.markRegionUsed_marked physStart physEnd).free, mem_sdiff] at hf
      exact (mem_available_iff hne).mpr hf.1
    | exhausted => exact ⟨hfree, hold⟩
    | @alloc f _ hall =>
      refine ⟨fun g hg => hfree g ?_, fun g hg => ?_⟩
      · rw [available_of_allocFrame hall] at hg
        exact Finset.mem_of_mem_erase hg
      rcases mem_cons.mp hg with heq | hg
      · obtain rfl : g = f := by simpa using heq
        exact hfree g (mem_available_of_allocFrame hall)
      · exact hout g hg
    | @release _ f hc hlt hbit =>
      have hf : h.HandedOut f := by rcases hc with rfl | rfl <;> exact halw
      refine ⟨fun g hg => ?_, hold⟩
      have hne : g ≠ 0 := (mem_available.mp hg).1.1.ne'
      rw [mem_available_iff hne, freeSet_release hlt, mem_insert] at hg
      rcases hg with rfl | hg
      · exact hout g hf
      · exact hfree g ((mem_available_iff hne).mpr hg)
    | count => exact ⟨hfree, hold⟩
    | saturated => exact ⟨hfree, hold⟩

lemma exists_handedOut {h : History} (hrun : PmmRun p0 (fun _ _ => True) h p)
    (hf : f ∈ p.available) : ∃ h' p', PmmRun p0 (fun _ _ => True) h' p' ∧ h'.HandedOut f := by
  induction hn : p.framesLeft generalizing h p with
  | zero =>
    rw [framesLeft, card_eq_zero] at hn
    rw [hn] at hf
    exact absurd hf (notMem_empty f)
  | succ n ih =>
    cases hall : p.allocFrame with
    | none =>
      rw [allocFrame_eq_none_iff] at hall
      omega
    | some o =>
      obtain ⟨g, p'⟩ := o
      have hnext : PmmRun p0 (fun _ _ => True) ((.alloc, some g) :: h) p' := by
        refine hrun.call trivial trivial ?_
        rw [PmmCall.run, hall]
        rfl
      by_cases heq : f = g
      · exact ⟨_, p', hnext, heq ▸ mem_cons_self⟩
      refine ih hnext ?_ ?_
      · rw [available_of_allocFrame hall]
        exact mem_erase.mpr ⟨heq, hf⟩
      · have hleft := framesLeft_of_allocFrame hall
        omega

/-! ## A small machine -/

/-- A machine with one region of usable memory, from address 0 on. -/
def lowMap (length : Nat) : MemoryMap where
  regions := ⟨0, length, .usable⟩ :: List.replicate 255 ⟨0, 0, .usable⟩
  count := 1
  size := by rw [List.length_cons, List.length_replicate, MAX_MEMORY_REGIONS]
  count_le := by decide

lemma lowMap_wellFormed {length : Nat} (h : length < 2 ^ 52) : (lowMap length).WellFormed := by
  have hents : (lowMap length).entries = [⟨0, length, .usable⟩] := rfl
  refine ⟨?_, ?_, ?_⟩
  · simp [hents]
  · simpa [hents] using h
  · simp [hents]

lemma PmmRun.allocOne {h : History} (hrun : PmmRun (bss.init (lowMap 0x3000)) cond h p)
    (hcond : cond h .alloc) (hscan : scan p.bitmap (p.totalFrames - 1) 1 = some 1) :
    PmmRun (bss.init (lowMap 0x3000)) cond ((.alloc, some 1) :: h) (p.claim 1) := by
  refine hrun.call trivial hcond ?_
  rw [PmmCall.run, allocFrame, hscan]
  rfl

/-- One frame is marked and another one allocated. -/
theorem pmmRun_accounts_two : ∃ h p, PmmRun (bss.init (lowMap 0x3000)) RoundsUp h p ∧
    (lowMap 0x3000).WellFormed ∧ h.MarkedEarly 2 ∧
    h.HandedOut 1 ∧ Accounts (lowMap 0x3000) h p := by
  have hmark : PmmRun (bss.init (lowMap 0x3000)) RoundsUp [(.mark 0x2000 0x3000, none)]
    ((bss.init (lowMap 0x3000)).markRegionUsed 0x2000 0x3000) := by
    refine PmmRun.start.call trivial ?_ rfl
    rintro s e heq -
    obtain ⟨rfl, rfl⟩ := PmmCall.mark.inj heq
    decide
  have hrun := hmark.allocOne (fun s e heq => PmmCall.noConfusion heq) (by decide +kernel)
  refine ⟨_, _, hrun, (lowMap_wellFormed (by decide)),
    .inl (.inr ⟨?_, _, _, rfl, 0x2000, by decide⟩), mem_cons_self,
    pmmRun_accounts (lowMap_wellFormed (by decide)) hrun⟩
  exact fun f hf => absurd hf not_mem_nil

/-- The end of the marked region wraps to 0: frame 1 is handed out all the same. -/
theorem pmmRun_hands_out_marked :
    ∃ h p, PmmRun (bss.init (lowMap 0x3000)) (fun _ _ => True) h p ∧ (lowMap 0x3000).WellFormed ∧
    h.MarkedEarly 1 ∧ h.HandedOut 1 := by
  have hmark : PmmRun (bss.init (lowMap 0x3000)) (fun _ _ => True) [(.mark 0 (2 ^ 64 - 1), none)]
      ((bss.init (lowMap 0x3000)).markRegionUsed 0 (2 ^ 64 - 1)) :=
    PmmRun.start.call trivial trivial rfl
  have hrun := hmark.allocOne trivial (by decide +kernel)
  refine ⟨_, _, hrun, (lowMap_wellFormed (by decide)),
    .inl (.inr ⟨?_, _, _, rfl, 0x1000, by decide⟩), mem_cons_self⟩
  exact fun f hf => absurd hf not_mem_nil

end Indominus.Memory
