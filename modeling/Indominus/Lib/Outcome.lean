import Mathlib.Logic.Basic

/-!
# Outcomes of fallible programs

`Outcome r Q E`: the value satisfies `Q`, or the error satisfies `E`.
-/

namespace Indominus.Lib

variable {ε α : Type*} {r : Except ε α} {Q Q' : α → Prop} {E E' : ε → Prop}

/-- A result that satisfies `Q`, or an error that satisfies `E`. -/
structure Outcome (r : Except ε α) (Q : α → Prop) (E : ε → Prop) : Prop where
  ok : ∀ a, r = .ok a → Q a
  error : ∀ e, r = .error e → E e

namespace Outcome

lemma of_ok {a : α} (h : r = .ok a) (hQ : Q a) : Outcome r Q E := by
  subst h
  constructor
  · intro b hb
    exact Except.ok.inj hb ▸ hQ
  · intro e he
    cases he

lemma of_error {e : ε} (h : r = .error e) (hE : E e) : Outcome r Q E := by
  subst h
  constructor
  · intro b hb
    cases hb
  · intro e' he
    exact Except.error.inj he ▸ hE

lemma mono (h : Outcome r Q E) (hQ : ∀ a, Q a → Q' a) (hE : ∀ e, E e → E' e) : Outcome r Q' E' :=
  ⟨fun a ha => hQ a (h.ok a ha), fun e he => hE e (h.error e he)⟩

lemma returns (h : Outcome r Q fun _ => False) : ∃ a, r = .ok a ∧ Q a := by
  cases hr : r with
  | ok a => exact ⟨a, rfl, h.ok a hr⟩
  | error e => exact (h.error e hr).elim

end Outcome

/-! ## Inversion of `do` blocks -/

lemma mapError_eq_ok {ε ε' α : Type} {x : Except ε α} {f : ε → ε'} {a : α} :
    x.mapError f = .ok a ↔ x = .ok a := by
  cases x with
  | error e => exact iff_of_false (by rintro ⟨⟩) (by rintro ⟨⟩)
  | ok b =>
    show (Except.ok b : Except ε' α) = .ok a ↔ _
    simp

lemma bind_eq_ok {ε α β : Type} {x : Except ε α} {f : α → Except ε β} {b : β} :
    x.bind f = .ok b ↔ ∃ a, x = .ok a ∧ f a = .ok b := by
  cases x <;> simp [Except.bind]

lemma guard_eq_ok {ε α β : Type} {c : Prop} [Decidable c] {e : ε} {f : α → Except ε β}
    {x : Except ε β} {b : β} :
    (if c then (Except.error e).bind f else x) = .ok b ↔ ¬ c ∧ x = .ok b := by
  by_cases h : c <;> simp [h, Except.bind]

/-! ## Evaluation -/

/-- Does the program return a value that passes the test? -/
def meets (r : Except ε α) (test : α → Bool) : Bool :=
  match r with
  | .ok a => test a
  | .error _ => false

lemma exists_of_meets {test : α → Bool} (h : meets r test = true) :
    ∃ a, r = .ok a ∧ test a = true := by
  cases r with
  | ok a => exact ⟨a, rfl, h⟩
  | error e => cases h

end Indominus.Lib
