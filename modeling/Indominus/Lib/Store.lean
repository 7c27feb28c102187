import Std.Data.TreeMap
import Mathlib.Logic.Basic

/-!
# Total stores over natural-number addresses

An array that is constant except at finitely many addresses, as a balanced tree.
-/

namespace Indominus.Lib

/-- An array of `α` indexed by `Nat`, equal to `fallback` outside finitely many cells. -/
structure Store (α : Type) where
  fallback : α
  cells : Std.TreeMap Nat α compare

namespace Store

variable {α : Type}

/-- The store that holds `a` in every cell. -/
def const (a : α) : Store α := ⟨a, ∅⟩

def get (s : Store α) (k : Nat) : α := s.cells.getD k s.fallback

def set (s : Store α) (k : Nat) (a : α) : Store α :=
  { s with cells := s.cells.insert k a }

@[simp] lemma get_const (a : α) (k : Nat) : (const a).get k = a := by
  simp [const, get]

lemma get_set (s : Store α) (k j : Nat) (a : α) :
    (s.set k a).get j = if j = k then a else s.get j := by
  simp only [get, set, Std.TreeMap.getD_insert, Std.LawfulEqCmp.compare_eq_iff_eq]
  exact if_congr eq_comm rfl rfl

end Store

end Indominus.Lib
