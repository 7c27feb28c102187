import Indominus.Lib.Radix

/-!
# The tables of a radix tree, named by their paths

For trees that map their own tables: no frame is a table in two places.
-/

namespace Indominus.Lib.Radix

open List Option

variable {F E : Type} {S : Shape F E} {h h' : F → Nat → E} {k i j : Nat} {t c d : F}
  {q r : List Nat} {e : E}

/-! ## Tables and their paths -/

variable (S h) in
/-- The table at the end of the beginning of a path. -/
def tableAt : Nat → F → List Nat → Option F
  | _, t, [] => some t
  | 0, _, _ :: _ => none
  | k + 1, t, i :: q => (S.target (k + 1) (h t i)).bind fun c => tableAt k c q

@[simp] lemma tableAt_nil : tableAt S h k t [] = some t := by
  cases k <;> rfl

lemma tableAt_cons (hc : S.target (k + 1) (h t i) = some c) :
    tableAt S h (k + 1) t (i :: q) = tableAt S h k c q := by
  rw [tableAt, hc, bind_some]

lemma tableAt_cons_none (hc : S.target (k + 1) (h t i) = none) :
    tableAt S h (k + 1) t (i :: q) = none := by
  rw [tableAt, hc, bind_none]

lemma tableAt_append : tableAt S h k t (q ++ r) =
    (tableAt S h k t q).bind fun c => tableAt S h (k - q.length) c r := by
  induction q generalizing k t with
  | nil => simp
  | cons i q ih =>
    cases k with
    | zero => rfl
    | succ k =>
      cases hc : S.target (k + 1) (h t i) with
      | none => simp [tableAt_cons_none hc]
      | some c => simp [tableAt_cons hc, ih]

lemma tableAt_concat (hq : q.length < k) (hc : tableAt S h k t q = some c) :
    tableAt S h k t (q ++ [i]) = S.target (k - q.length) (h c i) := by
  obtain ⟨l, hl⟩ : ∃ l, k - q.length = l + 1 := ⟨k - q.length - 1, by omega⟩
  rw [tableAt_append, hc, bind_some, hl]
  cases htgt : S.target (l + 1) (h c i) with
  | none => exact tableAt_cons_none htgt
  | some c' => rw [tableAt_cons htgt, tableAt_nil]

lemma leafAt_concat (hq : q.length = k) : leafAt S h k t (q ++ [i]) =
    (tableAt S h k t q).bind fun c => if (S.target 0 (h c i)).isSome then some (h c i)
      else none := by
  induction q generalizing k t with
  | nil =>
    subst hq
    rw [nil_append, length_nil, leafAt_zero, tableAt_nil, bind_some]
  | cons j q ih =>
    subst hq
    rw [cons_append, length_cons]
    cases hc : S.target (q.length + 1) (h t j) with
    | none => rw [leafAt_cons_none hc, tableAt_cons_none hc, bind_none]
    | some c => rw [leafAt_cons hc, tableAt_cons hc, ih rfl]

lemma tableAt_congr (hagr : ∀ r j, r ++ [j] <+: q → r.length < k → ∀ c, tableAt S h k t r = some c →
    S.target (k - r.length) (h' c j) = S.target (k - r.length) (h c j)) :
    tableAt S h' k t q = tableAt S h k t q := by
  induction q generalizing k t with
  | nil => rw [tableAt_nil, tableAt_nil]
  | cons i q ih =>
    cases k with
    | zero => rfl
    | succ k =>
      have hfst : S.target (k + 1) (h' t i) = S.target (k + 1) (h t i) :=
        hagr [] i ⟨q, rfl⟩ (Nat.succ_pos k) t tableAt_nil
      cases hc : S.target (k + 1) (h t i) with
      | none => rw [tableAt_cons_none hc, tableAt_cons_none (hfst.trans hc)]
      | some c =>
        rw [tableAt_cons hc, tableAt_cons (hfst.trans hc)]
        refine ih fun r j hr hlt c' hc' => ?_
        have hrest := hagr (i :: r) j (prefix_cons_inj i |>.mpr hr) (Nat.succ_lt_succ hlt) c'
          ((tableAt_cons hc).trans hc')
        rwa [length_cons, Nat.add_sub_add_right] at hrest

/-! ## Separate tables -/

def Indexed (I : Nat → Prop) (q : List Nat) : Prop := ∀ i ∈ q, I i

variable {I : Nat → Prop}

lemma Indexed.of_initial (hq : Indexed I q) (hr : r <+: q) : Indexed I r :=
  fun i hi => hq i (hr.subset hi)

lemma indexed_concat : Indexed I (q ++ [i]) ↔ Indexed I q ∧ I i := by
  simp only [Indexed, mem_append, mem_singleton, or_imp, forall_and, forall_eq]

variable (S h I) in
def Separate (k : Nat) (t : F) : Prop :=
  ∀ q r c, Indexed I q → Indexed I r → tableAt S h k t q = some c →
    tableAt S h k t r = some c → q = r

lemma tableAt_frame (hagr : ∀ r c, Indexed I r → tableAt S h k t r = some c → h' c = h c)
    (hq : Indexed I q) : tableAt S h' k t q = tableAt S h k t q := by
  refine tableAt_congr fun r j hr _ c hc => ?_
  rw [hagr r c (hq.of_initial ((prefix_append r [j]).trans hr)) hc]

lemma leafAt_frame (hagr : ∀ r c, Indexed I r → tableAt S h k t r = some c → h' c = h c)
    (hq : Indexed I (q ++ [i])) (hlen : q.length = k) :
    leafAt S h' k t (q ++ [i]) = leafAt S h k t (q ++ [i]) := by
  have hq := (indexed_concat.mp hq).1
  rw [leafAt_concat hlen, leafAt_concat hlen, tableAt_frame hagr hq]
  cases hc : tableAt S h k t q with
  | none => rfl
  | some c => rw [bind_some, bind_some, hagr q c hq hc]

lemma concat_ne (hlen : q.length < k) (hrlen : r.length = k) : r ++ [j] ≠ q ++ [i] := by
  intro heq
  have hlengths := congrArg length heq
  simp only [length_append, length_singleton] at hlengths
  omega

namespace Separate

variable (hsep : Separate S h I k t) (hw : Writes h h' c i e) (hq : Indexed I q)
  (hc : tableAt S h k t q = some c)

include hsep hw hq hc

lemma cell_eq (hr : Indexed I r) (hd : tableAt S h k t r = some d) (hne : r ++ [j] ≠ q ++ [i]) :
    h' d j = h d j := by
  by_cases heq : d = c
  · subst heq
    obtain rfl := hsep r q d hr hq hd hc
    exact hw.at_row j fun hj => hne (by rw [hj])
  · rw [hw.elsewhere d heq]

lemma tableAt_relink
    (htgt : q.length < k → S.target (k - q.length) e = S.target (k - q.length) (h c i))
    (hr : Indexed I r) : tableAt S h' k t r = tableAt S h k t r := by
  refine tableAt_congr fun r' j hr' hlt d hd => ?_
  by_cases heq : r' ++ [j] = q ++ [i]
  · obtain ⟨rfl, hj⟩ := append_inj' heq rfl
    obtain rfl : j = i := by simpa using hj
    obtain rfl : d = c := some.inj (hd.symm.trans hc)
    rw [hw.at_cell, htgt hlt]
  · rw [hsep.cell_eq hw hq hc (hr.of_initial ((prefix_append r' [j]).trans hr')) hd heq]

lemma put (hlen : q.length = k) (hr : Indexed I r) (hrlen : r.length = k) :
    leafAt S h' k t (r ++ [j]) =
      if r ++ [j] = q ++ [i] then (if (S.target 0 e).isSome then some e else none)
        else leafAt S h k t (r ++ [j]) := by
  have htbs := hsep.tableAt_relink hw hq hc (fun hlt => absurd hlen hlt.ne) hr
  rw [leafAt_concat hrlen, leafAt_concat hrlen, htbs]
  split_ifs with heq hsome
  · obtain ⟨rfl, hj⟩ := append_inj' heq rfl
    obtain rfl : j = i := by simpa using hj
    rw [hc, bind_some, hw.at_cell, if_pos hsome]
  · obtain ⟨rfl, hj⟩ := append_inj' heq rfl
    obtain rfl : j = i := by simpa using hj
    rw [hc, bind_some, hw.at_cell, if_neg hsome]
  cases hd : tableAt S h k t r with
  | none => rfl
  | some d => rw [bind_some, bind_some, hsep.cell_eq hw hq hc hr hd heq]

lemma relink (hlen : q.length < k)
    (htgt : S.target (k - q.length) e = S.target (k - q.length) (h c i)) (hr : Indexed I r)
    (hrlen : r.length = k) : leafAt S h' k t (r ++ [j]) = leafAt S h k t (r ++ [j]) := by
  rw [leafAt_concat hrlen, leafAt_concat hrlen, hsep.tableAt_relink hw hq hc (fun _ => htgt) hr]
  cases hd : tableAt S h k t r with
  | none => rfl
  | some d =>
    rw [bind_some, bind_some, hsep.cell_eq hw hq hc hr hd (concat_ne hlen hrlen)]

section

variable (hlen : q.length < k) (hnone : S.target (k - q.length) (h c i) = none)
  (htgt : S.target (k - q.length) e = some d) (hemp : ∀ j l, I j → S.target l (h' d j) = none)

include hlen hnone htgt hemp

lemma tableAt_link (hr : Indexed I r) :
    tableAt S h' k t r = if r = q ++ [i] then some d else tableAt S h k t r := by
  have hpar : tableAt S h' k t q = some c := by
    rw [← hc]
    refine tableAt_congr fun r' j hr' _ d' hd' => ?_
    have hne : r' ++ [j] ≠ q ++ [i] := by
      intro heq
      have hsh := hr'.length_le
      rw [heq, length_append, length_singleton] at hsh
      omega
    rw [hsep.cell_eq hw hq hc (hq.of_initial ((prefix_append r' [j]).trans hr')) hd' hne]
  have hnew : tableAt S h' k t (q ++ [i]) = some d := by
    rw [tableAt_concat hlen hpar, hw.at_cell, htgt]
  by_cases hthrough : q ++ [i] <+: r
  · obtain ⟨r', rfl⟩ := hthrough
    cases r' with
    | nil => rw [append_nil, if_pos rfl, hnew]
    | cons j r' =>
      have hlong : q ++ [i] ++ j :: r' ≠ q ++ [i] := by simp
      have hold : tableAt S h k t (q ++ [i]) = none := (tableAt_concat hlen hc).trans hnone
      rw [if_neg hlong, tableAt_append, hnew, tableAt_append, hold]
      -- nothing is below the new table
      cases hlevel : k - (q ++ [i]).length with
      | zero => rfl
      | succ l => exact tableAt_cons_none (hemp j (l + 1) (hr j (by simp)))
  have hne : r ≠ q ++ [i] := fun heq => hthrough (heq ▸ prefix_rfl)
  rw [if_neg hne]
  refine tableAt_congr fun r' j hr' _ d' hd' => ?_
  have hne' : r' ++ [j] ≠ q ++ [i] := fun heq => hthrough (heq ▸ hr')
  rw [hsep.cell_eq hw hq hc (hr.of_initial ((prefix_append r' [j]).trans hr')) hd' hne']

lemma link (hr : Indexed I r) (hj : I j) (hrlen : r.length = k) :
    leafAt S h' k t (r ++ [j]) = leafAt S h k t (r ++ [j]) := by
  rw [leafAt_concat hrlen, leafAt_concat hrlen, hsep.tableAt_link hw hq hc hlen hnone htgt hemp hr]
  split_ifs with heq
  · subst heq
    have hold : tableAt S h k t (q ++ [i]) = none := (tableAt_concat hlen hc).trans hnone
    rw [hold, bind_some, hemp j 0 hj]
    rfl
  cases hd : tableAt S h k t r with
  | none => rfl
  | some d' =>
    rw [bind_some, bind_some, hsep.cell_eq hw hq hc hr hd (concat_ne hlen hrlen)]

lemma of_link (hfr : ∀ r, Indexed I r → tableAt S h k t r ≠ some d) : Separate S h' I k t := by
  have htbs : ∀ r, Indexed I r → tableAt S h' k t r = if r = q ++ [i] then some d
    else tableAt S h k t r :=
    fun r hr => hsep.tableAt_link hw hq hc hlen hnone htgt hemp hr
  intro r r' c' hr hr' hd hd'
  rw [htbs r hr] at hd
  rw [htbs r' hr'] at hd'
  split_ifs at hd hd' with heq heq' heq'
  · rw [heq, heq']
  · cases hd
    exact absurd hd' (hfr r' hr')
  · cases hd'
    exact absurd hd (hfr r hr)
  · exact hsep r r' c' hr hr' hd hd'

end

lemma of_relink
    (htgt : q.length < k → S.target (k - q.length) e = S.target (k - q.length) (h c i)) :
    Separate S h' I k t := by
  intro r r' c' hr hr' hd hd'
  rw [hsep.tableAt_relink hw hq hc htgt hr] at hd
  rw [hsep.tableAt_relink hw hq hc htgt hr'] at hd'
  exact hsep r r' c' hr hr' hd hd'

end Separate

end Indominus.Lib.Radix
