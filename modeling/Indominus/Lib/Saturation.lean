import Mathlib.Data.List.Infix

/-!
# Counters with a ceiling

The counter lags behind by as much as the number of holders has exceeded the ceiling.
-/

namespace Indominus.Lib.Saturation

open List

inductive Move
  | join
  | leave
  deriving DecidableEq, Repr

variable {top c : Nat} {ops s t : List Move} {op : Move}

/-- The holders after the moves; one has been there before. -/
def holders (ops : List Move) : Nat := 1 + ops.count .join - ops.count .leave

def Balanced (ops : List Move) : Prop := ∀ t, t <+: ops → t.count .leave ≤ 1 + t.count .join

lemma Balanced.of_initial (h : Balanced ops) (ht : t <+: ops) : Balanced t :=
  fun _ hs => h _ (hs.trans ht)

lemma holders_join (h : Balanced (ops ++ [.join])) :
    holders (ops ++ [.join]) = holders ops + 1 := by
  have hle := h ops (prefix_append _ _)
  simp only [holders, count_append, count_singleton, beq_iff_eq, reduceCtorEq, if_true, if_false]
  omega

lemma holders_leave (h : Balanced (ops ++ [.leave])) :
    holders (ops ++ [.leave]) + 1 = holders ops := by
  have hle := h _ (prefix_refl _)
  simp only [holders, count_append, count_singleton, beq_iff_eq, reduceCtorEq, if_true,
    if_false] at hle ⊢
  omega

lemma holders_eq_zero (h : Balanced ops) :
    holders ops = 0 ↔ ops.count .leave = 1 + ops.count .join := by
  have hle := h ops (prefix_refl _)
  unfold holders
  omega

/-- One move of the counter.  A counter at 0 does not move any more. -/
def step (top c : Nat) : Move → Option Nat
  | .join => if c = 0 then none else some (if c < top then c + 1 else c)
  | .leave => if c = 0 then none else some (c - 1)

def count (top : Nat) (ops : List Move) : Option Nat := ops.foldlM (step top) 1

lemma count_concat : count top (ops ++ [op]) = (count top ops).bind (step top · op) := by
  rw [count, foldlM_append, count]
  cases ops.foldlM (step top) 1 with
  | none => rfl
  | some c => simp [foldlM]

lemma step_eq_some {c' : Nat} (h : step top c op = some c') : c ≠ 0 := by
  rintro rfl
  cases op <;> simp [step] at h

/-- The counter is behind by as much as the holders have exceeded the ceiling. -/
def Lags (top : Nat) (ops : List Move) (c : Nat) : Prop :=
  ∃ lost, c + lost = holders ops ∧ (∀ s, s <+: ops → holders s ≤ top + lost) ∧
    (lost = 0 ∨ ∃ s, s <+: ops ∧ holders s = top + lost)

lemma Lags.join (h : Lags top ops c) (hbal : Balanced (ops ++ [.join])) :
    Lags top (ops ++ [.join]) (if c < top then c + 1 else c) := by
  obtain ⟨lost, hc, hle, hpeak⟩ := h
  have hnext := holders_join hbal
  split_ifs with hlt
  · refine ⟨lost, by omega, fun s hs => ?_, ?_⟩
    · rcases prefix_concat_iff.mp hs with rfl | hs
      · omega
      · exact hle s hs
    · exact hpeak.imp_right fun ⟨s, hs, heq⟩ => ⟨s, hs.trans (prefix_append _ _), heq⟩
  -- the ceiling is reached, and one more is lost
  have hceil := hle ops (prefix_refl _)
  refine ⟨lost + 1, by omega, fun s hs => ?_, .inr ⟨_, prefix_refl _, by omega⟩⟩
  rcases prefix_concat_iff.mp hs with rfl | hs
  · omega
  · exact (hle s hs).trans (by omega)

lemma Lags.leave (h : Lags top ops c) (hc : c ≠ 0) (hbal : Balanced (ops ++ [.leave])) :
    Lags top (ops ++ [.leave]) (c - 1) := by
  obtain ⟨lost, hsum, hle, hpeak⟩ := h
  have hnext := holders_leave hbal
  have hbef := hle ops (prefix_refl _)
  refine ⟨lost, by omega, fun s hs => ?_, ?_⟩
  · rcases prefix_concat_iff.mp hs with rfl | hs
    · omega
    · exact hle s hs
  · exact hpeak.imp_right fun ⟨s, hs, heq⟩ => ⟨s, hs.trans (prefix_append _ _), heq⟩

lemma lags_of_count (htop : 0 < top) (hbal : Balanced ops) (h : count top ops = some c) :
    Lags top ops c := by
  induction ops using reverseRecOn generalizing c with
  | nil =>
    obtain rfl : c = 1 := (Option.some.inj h).symm
    refine ⟨0, rfl, fun s hs => ?_, .inl rfl⟩
    rw [prefix_nil.mp hs]
    exact htop
  | append_singleton ops op ih =>
    rw [count_concat, Option.bind_eq_some_iff] at h
    obtain ⟨c0, hcnt, hstep⟩ := h
    have hlags := ih (hbal.of_initial (prefix_append _ _)) hcnt
    have hpos := step_eq_some hstep
    cases op with
    | join =>
      rw [step, if_neg hpos, Option.some.injEq] at hstep
      exact hstep ▸ hlags.join hbal
    | leave =>
      rw [step, if_neg hpos, Option.some.injEq] at hstep
      exact hstep ▸ hlags.leave hpos hbal

/-- Nothing happens after the last holder has left, and from above the ceiling the number never
falls by it. -/
structure Within (top : Nat) (ops : List Move) : Prop where
  stops : ∀ t, t <+: ops → t ≠ ops → holders t ≠ 0
  falls : ∀ s t, s <+: t → t <+: ops → top < holders s → holders s < holders t + top

lemma Within.of_initial (h : Within top ops) (ht : t <+: ops) : Within top t where
  stops s hs hne := by
    refine h.stops s (hs.trans ht) ?_
    rintro rfl
    exact hne (hs.eq_of_length_le ht.length_le)
  falls s s' hs hs' := h.falls s s' hs (hs'.trans ht)

lemma Lags.eq_zero_iff (h : Lags top ops c)
    (hfalls : ∀ s, s <+: ops → top < holders s → holders s < holders ops + top) :
    c = 0 ↔ holders ops = 0 := by
  obtain ⟨lost, hsum, -, rfl | ⟨s, hs, heq⟩⟩ := h
  · omega
  by_cases hlost : lost = 0
  · omega
  · have hlt := hfalls s hs (by omega)
    omega

lemma Within.count_isSome (h : Within top ops) (htop : 0 < top) (hbal : Balanced ops) :
    ∃ c, count top ops = some c := by
  induction ops using reverseRecOn with
  | nil => exact ⟨1, rfl⟩
  | append_singleton ops op ih =>
    have hinit : ops <+: ops ++ [op] := prefix_append _ _
    obtain ⟨c, hc⟩ := ih (h.of_initial hinit) (hbal.of_initial hinit)
    have hlags := lags_of_count htop (hbal.of_initial hinit) hc
    have hzero := hlags.eq_zero_iff fun s hs => h.falls s ops hs hinit
    have hpos : c ≠ 0 := fun h0 => h.stops ops hinit (by simp) (hzero.mp h0)
    rw [count_concat, hc]
    cases op <;> simp [step, hpos]

/-- The counter is right about zero exactly if there are never more than `top` holders. -/
lemma count_exact_iff (htop : 0 < top) (hbal : Balanced ops) :
    (∀ t, t <+: ops → ∃ c, count top t = some c ∧ (c = 0 ↔ holders t = 0)) ↔ Within top ops := by
  constructor
  · intro h
    refine ⟨fun t ht hne hzero => ?_, fun s t hs ht hover => ?_⟩
    · -- the next move finds the counter at 0
      obtain ⟨rest, rfl⟩ := ht
      cases rest with
      | nil => exact hne (append_nil t).symm
      | cons op rest =>
        obtain ⟨c, hc, hcz⟩ := h t (prefix_append _ _)
        obtain ⟨c', hc', -⟩ := h (t ++ [op]) ⟨rest, by simp⟩
        rw [count_concat, hc] at hc'
        exact step_eq_some hc' (hcz.mpr hzero)
    obtain ⟨c, hc, hcz⟩ := h t ht
    obtain ⟨lost, hsum, hle, -⟩ := lags_of_count htop (hbal.of_initial ht) hc
    have hpeak := hle s hs
    by_contra hfall
    omega
  intro h t ht
  obtain ⟨c, hc⟩ := (h.of_initial ht).count_isSome htop (hbal.of_initial ht)
  exact ⟨c, hc, (lags_of_count htop (hbal.of_initial ht) hc).eq_zero_iff
    fun s hs => h.falls s t hs ht⟩

end Indominus.Lib.Saturation
