import Indominus.Lib.Saturation
import Indominus.Memory.Pmm

/-!
# Frames with several holders (`incref`, `decref`)

The count has eight bits and stays at 255.
-/

namespace Indominus.Memory.Pmm

open Lib Lib.Saturation

variable {p q : Pmm} {f c : Nat} {ops : List Move}

/-- `incref` for a holder that comes, `decref` for one that goes. -/
def move (p : Pmm) (f : Nat) : Move → Except Panic Pmm
  | .join => p.incref f
  | .leave => p.decref f

/-- A sequence of calls on one frame. -/
def moves (p : Pmm) (f : Nat) (ops : List Move) : Except Panic Pmm :=
  ops.foldlM (fun p op => p.move f op) p

/-- The frame is in range, and its bit is clear exactly if its count is 0. -/
structure Counted (p : Pmm) (f c : Nat) : Prop where
  inRange : f < p.totalFrames
  refcount : p.refcount f = c
  bit : p.bitmapTest f = false ↔ c = 0

lemma Counted.of_allocFrame (h : p.allocFrame = some (f, q)) : q.Counted f 1 := by
  obtain ⟨-, hlt, -, -, rfl⟩ := allocFrame_eq_some h
  exact ⟨hlt, by simp, by simp⟩

lemma Counted.bitmapTest (h : p.Counted f c) (hc : c ≠ 0) : p.bitmapTest f = true := by
  rw [← Bool.not_eq_false]
  exact fun hbit => hc (h.bit.mp hbit)

/-- The allocator counts references as the saturating counter does. -/
lemma Counted.move (h : p.Counted f c) (op : Move) :
    (∀ c', step 255 c op = some c' → ∃ q, p.move f op = .ok q ∧ q.Counted f c') ∧
      (step 255 c op = none → ∃ e, p.move f op = .error e) := by
  have hlt := h.inRange
  by_cases hc : c = 0
  · -- both calls assert that the frame is allocated
    have hbit := h.bit.mpr hc
    refine ⟨fun c' hstep => absurd hc (step_eq_some hstep), fun _ => ?_⟩
    cases op with
    | join =>
        exact ⟨_, by rw [Pmm.move, incref, if_neg (by simpa using hlt), if_pos (by simp [hbit])]⟩
    | leave =>
        exact ⟨_, by rw [Pmm.move, decref, if_neg (by simpa using hlt), if_pos (by simp [hbit])]⟩
  have hbit := h.bitmapTest hc
  cases op with
  | join =>
    rw [step, if_neg hc]
    refine ⟨fun c' hstep => ?_, fun hnone => by cases hnone⟩
    rw [Option.some.injEq] at hstep
    subst hstep
    by_cases hroom : c < 255
    · refine ⟨_, incref_ok hlt hbit (h.refcount ▸ hroom), hlt, ?_, ?_⟩
      · simp [h.refcount, hroom]
      · simp [hbit, hroom]
    refine ⟨p, ?_, hlt, ?_, ?_⟩
    · simp [Pmm.move, incref, hlt, hbit, h.refcount, hroom]
    · rw [if_neg hroom, h.refcount]
    · rw [if_neg hroom]
      exact h.bit
  | leave =>
    rw [step, if_neg hc]
    refine ⟨fun c' hstep => ?_, fun hnone => by cases hnone⟩
    rw [Option.some.injEq] at hstep
    subst hstep
    by_cases hlast : c = 1
    · refine ⟨_, decref_last hlt hbit (h.refcount.trans hlast), hlt, ?_, ?_⟩ <;> simp [hlast]
    refine ⟨_, decref_shared hlt hbit (by rw [h.refcount]; omega), hlt, ?_, ?_⟩
    · simp [h.refcount]
    · rw [setRefcount_bitmapTest, hbit]
      exact iff_of_false (by simp) (by omega)

lemma Counted.moves (h : p.Counted f c) (ops : List Move) :
    (∀ c', ops.foldlM (step 255) c = some c' → ∃ q, p.moves f ops = .ok q ∧ q.Counted f c') ∧
      (ops.foldlM (step 255) c = none → ∃ e, p.moves f ops = .error e) := by
  induction ops generalizing p c with
  | nil =>
    refine ⟨fun c' hc' => ⟨p, rfl, ?_⟩, fun hnone => by cases hnone⟩
    obtain rfl : c = c' := Option.some.inj hc'
    exact h
  | cons op ops ih =>
    obtain ⟨hsome, hnone⟩ := h.move op
    simp only [Pmm.moves, List.foldlM_cons] at ih ⊢
    cases hstep : step 255 c op with
    | none =>
      obtain ⟨e, he⟩ := hnone hstep
      exact ⟨fun c' hc' => (by cases hc'), fun _ => ⟨e, by rw [he]; rfl⟩⟩
    | some c1 =>
      obtain ⟨q, hq, hcounted⟩ := hsome c1 hstep
      rw [hq]
      exact ih hcounted

/-- **A shared frame and its holders.**  The frame becomes free exactly with its last release,
without a panic, iff nothing follows that release and the number of holders never falls by 255 from
above 255. -/
theorem sharedFrame_freed_iff (halloc : p.allocFrame = some (f, q)) (hbal : Balanced ops) :
    (∀ t, t <+: ops → ∃ q', q.moves f t = .ok q' ∧
        (q'.bitmapTest f = false ↔ t.count .leave = 1 + t.count .join)) ↔ Within 255 ops := by
  rw [← count_exact_iff (by decide) hbal]
  refine forall_congr' fun t => imp_congr_right fun ht => ?_
  rw [← holders_eq_zero (hbal.of_initial ht)]
  obtain ⟨hsome, hnone⟩ := (Counted.of_allocFrame halloc).moves t
  cases hcnt : count 255 t with
  | none =>
    obtain ⟨e, he⟩ := hnone hcnt
    simp [he]
  | some c =>
    obtain ⟨q', hq', hcounted⟩ := hsome c hcnt
    simp [hq', hcounted.bit]

def oneFrame : Pmm := { bitmap := 1, refcounts := Store.const 0, totalFrames := 2, freeFrames := 1 }

/-- A frame that is shared and given back by both. -/
theorem sharedFrame_freed_two :
    ∃ q, oneFrame.allocFrame = some (1, q) ∧ Balanced [.join, .leave, .leave] ∧
    ∀ t, t <+: [.join, .leave, .leave] → ∃ q', q.moves 1 t = .ok q' ∧
      (q'.bitmapTest 1 = false ↔ t.count .leave = 1 + t.count .join) := by
  have hinitial : ∀ t, t <+: [Move.join, .leave, .leave] ↔ t ∈ [Move.join, .leave, .leave].inits :=
    fun t => (List.mem_inits t _).symm
  have hbal : Balanced [.join, .leave, .leave] := by
    intro t ht
    rw [hinitial] at ht
    revert t
    decide
  refine ⟨_, rfl, hbal, (sharedFrame_freed_iff (p := oneFrame) rfl hbal).mpr ⟨fun t ht => ?_,
    fun s t hs ht => ?_⟩⟩
  · rw [hinitial] at ht
    revert t
    decide
  have hfew : ∀ s ∈ [Move.join, .leave, .leave].inits, holders s ≤ 255 := by decide
  intro hover
  exact absurd (hfew s ((hinitial s).mp (hs.trans ht))) (not_le.mpr hover)

/-- With 256 holders the frame is free before the last one has gone, and the last release panics. -/
theorem sharedFrame_freed_early : ∃ q, oneFrame.allocFrame = some (1, q) ∧
    (q.moves 1 (List.replicate 255 .join ++ List.replicate 255 .leave)).toOption.any
      (fun q' => !q'.bitmapTest 1) = true ∧
    (q.moves 1 (List.replicate 255 .join ++ List.replicate 256 .leave)).toOption.isNone = true ∧
    holders (List.replicate 255 .join ++ List.replicate 255 .leave) = 1 := by
  exact ⟨_, rfl, by decide +kernel, by decide +kernel, by decide +kernel⟩

end Indominus.Memory.Pmm
