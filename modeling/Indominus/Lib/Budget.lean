import Mathlib.Data.List.Infix

/-!
# Growing a tree on a budget

Adding a path to a prefix-closed set of nodes takes one unit for its end, then one for every missing
inner node.
-/

namespace Indominus.Lib.Budget

variable {ι : Type} {has has' : List ι → Bool} {p : List ι} {units : Nat}

def missing : (has : List ι → Bool) → List ι → Nat
  | _, [] => 0
  | _, [_] => 0
  | has, i :: j :: p => (if has [i] then 0 else 1) + missing (fun q => has (i :: q)) (j :: p)

lemma missing_congr (h : ∀ q, q <+: p → q ≠ [] → has q = has' q) :
    missing has p = missing has' p := by
  induction p generalizing has has' with
  | nil => rfl
  | cons i p ih =>
    cases p with
    | nil => rfl
    | cons j p =>
      have hfst : has [i] = has' [i] := h [i] (by simp) (by simp)
      have hrest : missing (fun q => has (i :: q)) (j :: p) =
        missing (fun q => has' (i :: q)) (j :: p) :=
        ih fun q hq _ => h (i :: q) (List.cons_prefix_cons.mpr ⟨rfl, hq⟩) (by simp)
      rw [missing, missing, hfst, hrest]

lemma missing_cons {i : ι} (hp : p ≠ []) :
    missing has (i :: p) = (if has [i] then 0 else 1) + missing (fun q => has (i :: q)) p := by
  cases p with
  | nil => exact absurd rfl hp
  | cons j p => rfl

variable [DecidableEq ι]

def grown (has : List ι → Bool) (p : List ι) : List ι → Bool := fun q => has q || q.isPrefixOf p

/-- How the growth along a list of paths ends. -/
inductive Ending
  | done
  | dry
  /-- There was something left for the end of a path, but not for all of its inner nodes. -/
  | short
  | twice
  deriving DecidableEq, Repr

/-- Add the paths of a list: how many could be added, and how it ended. -/
def spend : (units : Nat) → (has : List ι → Bool) → List (List ι) → Nat × Ending
  | _, _, [] => (0, .done)
  | 0, _, _ :: _ => (0, .dry)
  | units + 1, has, p :: ps =>
    if has p then (0, .twice)
    else if units < missing has p then (0, .short)
    else
      let r := spend (units - missing has p) (grown has p) ps
      (r.1 + 1, r.2)

section Cons

variable {ps : List (List ι)}

lemma spend_dry : spend 0 has (p :: ps) = (0, .dry) := rfl

lemma spend_twice (hun : units ≠ 0) (hp : has p = true) :
    spend units has (p :: ps) = (0, .twice) := by
  obtain ⟨n, rfl⟩ := Nat.exists_eq_succ_of_ne_zero hun
  rw [spend, if_pos hp]

lemma spend_short (hun : units ≠ 0) (hp : has p = false) (hle : units ≤ missing has p) :
    spend units has (p :: ps) = (0, .short) := by
  obtain ⟨n, rfl⟩ := Nat.exists_eq_succ_of_ne_zero hun
  rw [spend, hp, if_neg Bool.false_ne_true, if_pos (by omega)]

lemma spend_step {rest : Nat} (hp : has p = false) (hrest : rest + missing has p + 1 = units) :
    spend units has (p :: ps) =
      ((spend rest (grown has p) ps).1 + 1, (spend rest (grown has p) ps).2) := by
  subst hrest
  rw [spend, hp, if_neg Bool.false_ne_true, if_neg (by omega), Nat.add_sub_cancel]

end Cons

lemma spend_congr {ps : List (List ι)} (h : ∀ p ∈ ps, ∀ q, q <+: p → has q = has' q) :
    spend units has ps = spend units has' ps := by
  induction ps generalizing units has has' with
  | nil => cases units <;> rfl
  | cons p ps ih =>
    cases units with
    | zero => rfl
    | succ units =>
      have hfst : has p = has' p := h p (by simp) p (List.prefix_refl p)
      have hmis : missing has p = missing has' p := missing_congr fun q hq _ => h p (by simp) q hq
      have hrest : spend (units - missing has' p) (grown has p) ps =
          spend (units - missing has' p) (grown has' p) ps := by
        refine ih fun p' hp' q hq => ?_
        rw [grown, grown, h p' (by simp [hp']) q hq]
      rw [spend, spend, hfst, hmis, hrest]

end Indominus.Lib.Budget
