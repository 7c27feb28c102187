import Mathlib.Data.List.Nodup

/-! # Lists linked in a table -/

namespace Indominus.Lib.LinkedTable

variable {K : Type*} {next next' : K → K} {ends : K → Prop} [DecidablePred ends] {c e : K}
  {l l' : List K} {n : Nat}

/-- The keys from a start on, at most `n`. -/
def follow (next : K → K) (ends : K → Prop) [DecidablePred ends] : Nat → K → List K
  | 0, _ => []
  | n + 1, c => if ends c then [] else c :: follow next ends n (next c)

/-- `n` links lead from `c` to the key, and none of the keys on the way is an end. -/
inductive Leads (next : K → K) (ends : K → Prop) (c : K) : Nat → K → Prop
  | start (h : ¬ ends c) : Leads next ends c 0 c
  | link {n : Nat} {x : K} (h : Leads next ends c n x) (hx : ¬ ends (next x)) :
      Leads next ends c (n + 1) (next x)

lemma follow_congr (hsame : ∀ x ∈ follow next ends n c, next' x = next x) :
    follow next' ends n c = follow next ends n c := by
  induction n generalizing c with
  | zero => rfl
  | succ n ih =>
    unfold follow at hsame ⊢
    split_ifs with hend
    · rfl
    · rw [if_neg hend] at hsame
      rw [hsame c (List.mem_cons_self ..), ih fun x hx => hsame x (List.mem_cons_of_mem c hx)]

variable {x y : K} {i j : Nat}

section

omit [DecidablePred ends]

lemma leads_zero : Leads next ends c 0 x ↔ ¬ ends c ∧ c = x := by
  constructor
  · rintro ⟨hc⟩
    exact ⟨hc, rfl⟩
  · rintro ⟨hc, rfl⟩
    exact .start hc

lemma leads_succ :
    Leads next ends c (i + 1) x ↔ ∃ y, Leads next ends c i y ∧ ¬ ends (next y) ∧ next y = x := by
  constructor
  · intro h
    cases h with
    | @link _ y h hy => exact ⟨y, h, hy, rfl⟩
  · rintro ⟨y, h, hy, rfl⟩
    exact .link h hy

lemma Leads.unique (hx : Leads next ends c i x) (hy : Leads next ends c i y) : x = y := by
  induction i generalizing x y with
  | zero => exact (leads_zero.mp hx).2.symm.trans (leads_zero.mp hy).2
  | succ i ih =>
    obtain ⟨x, hx', -, rfl⟩ := leads_succ.mp hx
    obtain ⟨y, hy', -, rfl⟩ := leads_succ.mp hy
    rw [ih hx' hy']

end

end Indominus.Lib.LinkedTable
