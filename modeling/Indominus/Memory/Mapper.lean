import Indominus.Memory.Leaves

/-!
# The paging crate's mapper

A parameter, with what the crate documents for the user half of proper page tables.
-/

namespace Indominus.Memory

open Lib Lib.Radix

/-- The tables below `t` are allocated and used once. -/
structure Hierarchy (k : Nat) (s : Machine) (t : Nat) : Prop where
  once : ∀ f, IsTable s.ram k t f → refs f (uses s.ram k t) ≤ 1
  allocated : ∀ f, IsTable s.ram k t f → s.pmm.bitmapTest f = true
  size : s.pmm.totalFrames ≤ MAX_FRAMES

variable {K : Nat → Prop} {exact : Prop} {p p' : Pmm} {l : List Nat}

lemma Own.hierarchy {s : Machine} {k t : Nat} {X : Claims Nat}
    (h : Own K exact s.pmm (holds s.ram k t + X)) : Hierarchy k s t where
  once _ hf := h.refs_table hf
  allocated _ hf := (h.claimed (Multiset.mem_add.mpr (.inl hf.mem_holds))).1
  size := h.size

/-- The allocator has handed out the frames of a list, one after the other. -/
inductive Allocates : Pmm → List Nat → Pmm → Prop
  | nil (p : Pmm) : Allocates p [] p
  | cons {p p₁ p₂ : Pmm} {f : Nat} {l : List Nat} (h : p.allocFrame = some (f, p₁))
      (rest : Allocates p₁ l p₂) : Allocates p (f :: l) p₂

lemma Allocates.append {p1 p2 : Pmm} {l' : List Nat} (h : Allocates p l p1)
    (h' : Allocates p1 l' p2) : Allocates p (l ++ l') p2 := by
  induction h with
  | nil => exact h'
  | cons hall _ ih => exact .cons hall (ih h')

lemma Allocates.fresh (h : Allocates p l p') : ∀ f ∈ l, p.bitmapTest f = false := by
  induction h with
  | nil => simp
  | @cons p p1 p2 g l hall _ ih =>
    obtain ⟨-, -, hfree, -, rfl⟩ := Pmm.allocFrame_eq_some hall
    intro f hf
    rcases List.mem_cons.mp hf with rfl | hf
    · exact hfree
    have := ih f hf
    rw [Pmm.claim_bitmapTest, Bool.or_eq_false_iff] at this
    exact this.2

lemma Allocates.own {A : Claims Nat} (h : Allocates p l p') (hown : Own K exact p A) :
    Own K exact p' ((l.map fun f => (f, true) : List (Nat × Bool)) + A) := by
  induction h generalizing A with
  | nil => simpa using hown
  | cons hall _ ih =>
    have hnext := ih (hown.allocFrame hall).1
    rw [List.map_cons, ← Multiset.cons_coe, ← Multiset.singleton_add]
    convert hnext using 1
    abel

def newTables (N : List (Nat × Nat)) : Multiset (Use Nat Word) :=
  (N.map fun c => Use.table c.1 c.2 : List (Use Nat Word))

@[simp] lemma newTables_append (N N' : List (Nat × Nat)) :
    newTables (N ++ N') = newTables N + newTables N' := by
  simp [newTables]

/-- The leaf entry `e` has been put at the end of an empty path below `t`; the tables `N` are
new. -/
structure Mapped (k : Nat) (s s' : Machine) (t : Nat) (path : List Nat) (e : Word)
    (N : List (Nat × Nat)) : Prop where
  alloc : Allocates s.pmm (N.map Prod.snd) s'.pmm
  uses : uses s'.ram k t = uses s.ram k t + newTables N + leafUse pageTree e
  empty : pteAt s.ram k t path = none
  leaf : ∀ q, InUser k q → pteAt s'.ram k t q = if q = path then some e else pteAt s.ram k t q
  grows : Grows (IsTable s.ram k t) s s'
  high : ∀ i, entryCount k ≤ i → s'.ram.entry t i = s.ram.entry t i

/-- The documented behaviour of the mapper. -/
structure Mapper.Documented (M : Mapper) : Prop where
  mapTo : ∀ {s s' : Machine} {T va frame : Nat} {flags : Word}, va < USER_SPACE_END →
    Hierarchy 3 s T → frame < 2 ^ 40 → Pte.IsFlags flags → Pte.isPresent flags = true →
    M.mapTo s T va frame flags = .ok s' →
      ∃ N, Mapped 3 s s' T (pathOf va) (Pte.setAddr frame flags) N
  unmap : ∀ {m m' : PhysMem} {T va frame : Nat}, va < USER_SPACE_END → TablesOnce m T →
    M.unmap m T va = some (frame, m') →
      ∃ e, pteAt m 3 T (pathOf va) = some e ∧ frame = Pte.addr e ∧ LeafEdit m m' T (pathOf va) e 0
  translatePage : ∀ {m : PhysMem} {T va : Nat}, va < USER_SPACE_END →
    M.translatePage m T va = (pteAt m 3 T (pathOf va)).map Pte.addr

end Indominus.Memory
