import Mathlib.Order.Bounds.Basic

/-!
# Searches that climb

A round looks at a candidate and jumps to a larger one or stops.
-/

namespace Indominus.Lib

variable {α : Type} {round : Nat → Nat ⊕ α} {stuck : α}

/-- The search from candidate `b` on, for at most `fuel` rounds. -/
def climb (round : Nat → Nat ⊕ α) (stuck : α) : (fuel b : Nat) → α
  | 0, _ => stuck
  | fuel + 1, b =>
    match round b with
    | .inl b' => climb round stuck fuel b'
    | .inr a => a

variable {fuel b bound : Nat} {I : Nat → Prop} {S : Set Nat} {found : Option Nat}

lemma climb_jump {b' : Nat} (h : round b = .inl b') :
    climb round stuck (fuel + 1) b = climb round stuck fuel b' := by
  rw [climb, h]

lemma climb_stop {a : α} (h : round b = .inr a) : climb round stuck (fuel + 1) b = a := by
  rw [climb, h]

/-- The loop rule: each jump goes up and keeps `I`, so it stops, with `Q`. -/
lemma climb_rule {Q : α → Prop} (hle : ∀ b, I b → b ≤ bound)
    (hjump : ∀ b b', I b → round b = .inl b' → b < b' ∧ I b')
    (hstop : ∀ b a, I b → round b = .inr a → Q a) (hI : I b) (hfuel : bound < b + fuel) :
    Q (climb round stuck fuel b) := by
  induction fuel generalizing b with
  | zero =>
    have hb := hle b hI
    omega
  | succ fuel ih =>
    cases hrd : round b with
    | inl b' =>
      obtain ⟨hlt, hI'⟩ := hjump b b' hI hrd
      rw [climb_jump hrd]
      exact ih hI' (by omega)
    | inr a =>
      rw [climb_stop hrd]
      exact hstop b a hI hrd

/-- What a search for the least element of `S` may return. -/
def FindsLeast (S : Set Nat) (found : Option Nat) : Prop :=
  (∀ b, found = some b → IsLeast S b) ∧ (found = none → S = ∅)

lemma FindsLeast.isSome_iff (h : FindsLeast S found) : found.isSome = true ↔ S.Nonempty := by
  cases found with
  | none => simp [h.2 rfl]
  | some b => simpa using ⟨b, (h.1 b rfl).1⟩

lemma FindsLeast.unique {found' : Option Nat} (h : FindsLeast S found) (h' : FindsLeast S found') :
    found = found' := by
  cases found with
  | none =>
    cases found' with
    | none => rfl
    | some b =>
      have hmem := (h'.1 b rfl).1
      rw [h.2 rfl] at hmem
      exact hmem.elim
  | some b =>
    cases found' with
    | none =>
      have hmem := (h.1 b rfl).1
      rw [h'.2 rfl] at hmem
      exact hmem.elim
    | some b' => rw [(h.1 b rfl).unique (h'.1 b' rfl)]

lemma climb_least {result : Option Nat → α} (hle : ∀ b, I b → b ≤ bound)
    (hjump : ∀ b b', I b → round b = .inl b' → b < b' ∧ I b' ∧ ∀ c ∈ S, b ≤ c → b' ≤ c)
    (hstop : ∀ b a, I b → round b = .inr a →
      (a = result (some b) ∧ b ∈ S) ∨ (a = result none ∧ ∀ c ∈ S, ¬ b ≤ c)) (hI : I b)
    (hS : ∀ c ∈ S, b ≤ c) (hfuel : bound < b + fuel) :
    ∃ found, climb round stuck fuel b = result found ∧ FindsLeast S found := by
  refine climb_rule (I := fun b => I b ∧ ∀ c ∈ S, b ≤ c)
    (Q := fun a => ∃ found, a = result found ∧ FindsLeast S found) (fun b hb => hle b hb.1) ?_ ?_
    ⟨hI, hS⟩ hfuel
  · intro b b' hb hrd
    obtain ⟨hlt, hI', hskip⟩ := hjump b b' hb.1 hrd
    exact ⟨hlt, hI', fun c hc => hskip c hc (hb.2 c hc)⟩
  intro b a hb hrd
  obtain ⟨ha, hmem⟩ | ⟨ha, hnone⟩ := hstop b a hb.1 hrd
  · refine ⟨some b, ha, ⟨fun b' hb' => ?_, fun h => (nomatch h)⟩⟩
    cases hb'
    exact ⟨hmem, hb.2⟩
  · refine ⟨none, ha, ⟨fun b' hb' => (nomatch hb'), fun _ => ?_⟩⟩
    exact Set.eq_empty_iff_forall_notMem.mpr fun c hc => hnone c hc (hb.2 c hc)

end Indominus.Lib
