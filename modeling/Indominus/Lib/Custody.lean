import Mathlib.Data.List.Nodup

/-!
# Custody of resources

`Frees` is a run with what it frees; `Balanced` says that a step keeps the books.
-/

namespace Indominus.Lib

variable {σ ε R : Type*} {step : σ → ε → σ → Prop} {freed : σ → ε → List R} {s s' : σ} {l : List R}

/-- A run with what it frees, in the order in which it is freed. -/
inductive Frees (step : σ → ε → σ → Prop) (freed : σ → ε → List R) (s : σ) : List R → σ → Prop
  | refl : Frees step freed s [] s
  | tail {s' s'' : σ} {l : List R} {e : ε} (hrun : Frees step freed s l s')
      (hlast : step s' e s'') :
      Frees step freed s (l ++ freed s' e) s''

/-- The books of one step, which frees `out` and hands out at most `into`. -/
structure Balanced (owned : σ → R → Prop) (out into : List R) (s s' : σ) : Prop where
  nodup : out.Nodup
  freed_owned : ∀ r ∈ out, owned s r
  keeps : ∀ r, owned s r → r ∉ out → owned s' r
  only : ∀ r, owned s' r → r ∈ into ∨ owned s r ∧ r ∉ out

namespace Frees

lemma invariant {P : σ → Prop} {r : R}
    (hstep : ∀ s e s', P s → step s e s' → r ∉ freed s e → P s') (h : Frees step freed s l s')
    (hr : r ∉ l) (hs : P s) : P s' := by
  induction h with
  | refl => exact hs
  | tail _ hlast ih =>
    rw [List.mem_append, not_or] at hr
    exact hstep _ _ _ (ih hr.1) hlast hr.2

variable [DecidableEq R] {owned : σ → R → Prop} {gives : σ → ε → List R} {I : σ → Prop} {r : R}

end Frees

end Indominus.Lib
