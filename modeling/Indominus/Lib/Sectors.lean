import Indominus.Lib.Bytes
import Mathlib.Data.List.Nodup

/-!
# Sectors, sector writes and data spread over sectors

An update of a disk is a list of sector writes, and a crash leaves a front part of it done.
-/

namespace Indominus.Lib.Sectors

open Lib.Bytes List

variable {b : Image} {n m i : Nat} {S : List Nat} {data : List (BitVec 8)}

def sectorAt (b : Image) (n : Nat) : Image := fun i => b (512 * n + i)

def storeAt (b : Image) (n : Nat) (buf : Image) : Image := fun a =>
  if a / 512 = n then buf (a % 512) else b a

def applyWrites (b : Image) (ws : List (Nat × Image)) : Image :=
  ws.foldl (fun b w => storeAt b w.1 w.2) b

lemma applyWrites_nil : applyWrites b [] = b := rfl

lemma applyWrites_cons (w : Nat × Image) (ws : List (Nat × Image)) :
    applyWrites b (w :: ws) = applyWrites (storeAt b w.1 w.2) ws :=
  rfl

lemma applyWrites_append (ws ws' : List (Nat × Image)) :
    applyWrites b (ws ++ ws') = applyWrites (applyWrites b ws) ws' :=
  foldl_append ..

variable {a s : Nat}

lemma applyWrites_of_not_mem {ws : List (Nat × Image)} (h : ∀ w ∈ ws, w.1 ≠ a / 512) :
    applyWrites b ws a = b a := by
  induction ws generalizing b with
  | nil => rfl
  | cons w ws ih =>
    rw [applyWrites_cons, ih fun w' hw' => h w' (mem_cons_of_mem w hw'), storeAt,
      if_neg fun heq => h w (mem_cons_self ..) heq.symm]

lemma le_sectorAt {o : Nat} : le (sectorAt b n) o m = le b (512 * n + o) m := by
  apply le_congr
  intro i _
  rw [sectorAt, Nat.add_assoc]

/-! ## Data spread over sectors -/

/-- The address of byte `i`. -/
def place (S : List Nat) (i : Nat) : Option Nat := S[i / 512]?.map fun s => 512 * s + i % 512

/-- Byte `i`; zero behind the last sector. -/
def linear (b : Image) (S : List Nat) (i : Nat) : BitVec 8 := (place S i).elim 0 b

/-- The first `n` bytes. -/
def contents (b : Image) (S : List Nat) (n : Nat) : List (BitVec 8) :=
  (List.range n).map (linear b S)

lemma place_cons_lt (hi : i < 512) : place (s :: S) i = some (512 * s + i) := by
  rw [place, Nat.div_eq_of_lt hi, Nat.mod_eq_of_lt hi]
  rfl

lemma place_cons_add : place (s :: S) (i + 512) = place S i := by
  rw [place, Nat.add_div_right _ (by omega), Nat.add_mod_right]
  rfl

lemma place_mem (h : place S i = some a) : a / 512 ∈ S := by
  obtain ⟨s, hs, rfl⟩ := Option.map_eq_some_iff.mp h
  have hdiv : (512 * s + i % 512) / 512 = s := by omega
  rw [hdiv]
  exact mem_of_getElem? hs

lemma place_add {k : Nat} (h : place S i = some a) (hk : i % 512 + k < 512) :
    place S (i + k) = some (a + k) := by
  obtain ⟨s, hs, rfl⟩ := Option.map_eq_some_iff.mp h
  have hdiv : (i + k) / 512 = i / 512 := by omega
  have hmod : (i + k) % 512 = i % 512 + k := by omega
  rw [place, hdiv, hs, hmod, Option.map_some, Nat.add_assoc]

lemma place_injective (hS : S.Nodup) {j : Nat} (hi : place S i = some a) (hj : place S j = some a) :
    i = j := by
  obtain ⟨s, hs, hsa⟩ := Option.map_eq_some_iff.mp hi
  obtain ⟨t, ht, hta⟩ := Option.map_eq_some_iff.mp hj
  have hst : s = t := by omega
  subst hst
  obtain ⟨hlt, hsv⟩ := List.getElem?_eq_some_iff.mp hs
  obtain ⟨hlt', htv⟩ := List.getElem?_eq_some_iff.mp ht
  have hdiv : i / 512 = j / 512 := hS.getElem_inj_iff.mp (hsv.trans htv.symm)
  omega

lemma length_contents : (contents b S n).length = n := by
  rw [contents, length_map, length_range]

lemma getElem?_contents (hi : i < n) : (contents b S n)[i]? = some (linear b S i) := by
  rw [contents, getElem?_map, getElem?_range hi]
  rfl

lemma contents_cons (s : Nat) :
    contents b (s :: S) n = (range (min 512 n)).map (sectorAt b s) ++ contents b S (n - 512) := by
  have hspl : n = min 512 n + (n - 512) := by omega
  have hfst : ∀ i ∈ range (min 512 n), linear b (s :: S) i = sectorAt b s i := by
    intro i hi
    rw [linear, place_cons_lt (by have := mem_range.mp hi; omega)]
    rfl
  have hrest : ∀ i ∈ range (n - 512),
      (linear b (s :: S) ∘ fun x => min 512 n + x) i = linear b S i := by
    intro i hi
    have hmin : min 512 n = 512 := by
      have := mem_range.mp hi
      omega
    rw [Function.comp_apply, hmin, Nat.add_comm, linear, linear, place_cons_add]
  calc contents b (s :: S) n
    _ = (range (min 512 n + (n - 512))).map (linear b (s :: S)) := by rw [← hspl]; rfl
    _ = _ := by
      rw [range_add, map_append, map_congr_left hfst, map_map,
        map_congr_left hrest, contents]

lemma contents_zero : contents b S 0 = [] := rfl

lemma contents_append (S' : List Nat) : contents b (S ++ S') n
      = contents b S (min n (512 * S.length)) ++ contents b S' (n - 512 * S.length) := by
  induction S generalizing n with
  | nil =>
    rw [nil_append, length_nil, Nat.min_zero, contents_zero,
      nil_append, Nat.sub_zero]
  | cons s S ih =>
    rw [cons_append, contents_cons, contents_cons, ih, length_cons, append_assoc]
    have hfst : min 512 (min n (512 * (S.length + 1))) = min 512 n := by omega
    have hsec : min (n - 512) (512 * S.length) = min n (512 * (S.length + 1)) - 512 := by omega
    have hthird : n - 512 - 512 * S.length = n - 512 * (S.length + 1) := by omega
    rw [hfst, hsec, hthird]

lemma contents_pad : contents b S n
    = contents b S (min n (512 * S.length)) ++ replicate (n - min n (512 * S.length)) 0 := by
  have hpad : contents b [] (n - 512 * S.length) = replicate (n - 512 * S.length) 0 := by
    rw [eq_replicate_iff]
    refine ⟨length_contents, ?_⟩
    intro x hx
    obtain ⟨i, -, rfl⟩ := mem_map.mp hx
    rfl
  have happend := @contents_append b n S []
  rw [append_nil, hpad] at happend
  rw [show n - min n (512 * S.length) = n - 512 * S.length by omega]
  exact happend

lemma contents_congr {b' : Image} (h : ∀ a, a / 512 ∈ S → b' a = b a) :
    contents b' S n = contents b S n := by
  apply map_congr_left
  intro i _
  unfold linear
  cases hplc : place S i with
  | none => rfl
  | some a => exact h a (place_mem hplc)

/-! ## Storing data -/

/-- A buffer with the bytes from `start` on replaced. -/
def overlay (buf : Image) (start : Nat) (d : List (BitVec 8)) : Image := fun o =>
  if start ≤ o ∧ o < start + d.length then d.getD (o - start) 0 else buf o

/-- The writes that store data over a list of sectors. -/
def spreadWrites : List Nat → Image → List (BitVec 8) → List (Nat × Image)
  | [], _, _ => []
  | s :: S, b, data =>
    if data = [] then []
    else
      let buf := overlay (sectorAt b s) 0 (data.take 512)
      (s, buf) :: spreadWrites S (storeAt b s buf) (data.drop 512)

lemma spreadWrites_nil : spreadWrites S b [] = [] := by
  cases S with
  | nil => rfl
  | cons s S => rw [spreadWrites, if_pos rfl]

lemma spreadWrites_cons (hd : data ≠ []) :
    spreadWrites (s :: S) b data = (s, overlay (sectorAt b s) 0 (data.take 512)) ::
      spreadWrites S (storeAt b s (overlay (sectorAt b s) 0 (data.take 512))) (data.drop 512) := by
  rw [spreadWrites, if_neg hd]

lemma spreadWrites_append (S' : List Nat) : spreadWrites (S ++ S') b data = spreadWrites S b data
      ++ spreadWrites S' (applyWrites b (spreadWrites S b data)) (data.drop (512 * S.length)) := by
  induction S generalizing b data with
  | nil => rfl
  | cons s S ih =>
    rw [cons_append]
    by_cases hd : data = []
    · subst hd
      rw [spreadWrites_nil, spreadWrites_nil, drop_nil, spreadWrites_nil, append_nil]
    · rw [spreadWrites_cons hd, spreadWrites_cons hd, ih, cons_append, applyWrites_cons,
        drop_drop, length_cons, Nat.mul_succ, Nat.add_comm 512]

lemma spreadWrites_mem {w : Nat × Image} (h : w ∈ spreadWrites S b data) : w.1 ∈ S := by
  induction S generalizing b data with
  | nil => cases h
  | cons s S ih =>
    unfold spreadWrites at h
    split_ifs at h
    · cases h
    rcases mem_cons.mp h with rfl | h
    · exact mem_cons_self ..
    · exact mem_cons_of_mem s (ih h)

lemma sectorAt_storeAt {buf : Image} (ha : a / 512 = s) : storeAt b s buf a = buf (a % 512) := by
  rw [storeAt, if_pos ha]

lemma applyWrites_spread_of_not_mem {a : Nat} (h : a / 512 ∉ S) (m : Nat) :
    applyWrites b ((spreadWrites S b data).take m) a = b a := by
  apply applyWrites_of_not_mem
  intro w hw heq
  exact h (heq ▸ spreadWrites_mem (mem_of_mem_take hw))

/-- After `m` writes the first `m` sectors are new and the rest is old. -/
lemma linear_applyWrites_take (hS : S.Nodup) (hfits : data.length ≤ 512 * S.length) (m i : Nat) :
    linear (applyWrites b ((spreadWrites S b data).take m)) S i =
      if i < 512 * m ∧ i < data.length then data.getD i 0 else linear b S i := by
  induction S generalizing b data m i with
  | nil =>
    rw [length_nil] at hfits
    rw [if_neg (by omega)]
    rfl
  | cons s S ih =>
    obtain ⟨hs, hS⟩ := nodup_cons.mp hS
    unfold spreadWrites
    by_cases hd : data = []
    · simp [hd, applyWrites_nil]
    rw [if_neg hd]
    cases m with
    | zero => simp [applyWrites_nil]
    | succ m =>
      rw [take_succ_cons, applyWrites_cons]
      have hfits' : (data.drop 512).length ≤ 512 * S.length := by
        rw [length_drop]
        rw [length_cons] at hfits
        omega
      by_cases hi : i < 512
      · -- the first sector: the later writes are elsewhere
        have hdiv : (512 * s + i) / 512 = s := by omega
        have hmod : (512 * s + i) % 512 = i := by omega
        have hfst := @applyWrites_spread_of_not_mem
          (storeAt b s (overlay (sectorAt b s) 0 (data.take 512))) S (data.drop 512)
          (512 * s + i) (by rwa [hdiv]) m
        rw [linear, linear, place_cons_lt hi, Option.elim_some, hfst,
          sectorAt_storeAt hdiv, hmod, overlay, length_take, Nat.sub_zero]
        by_cases hlen : i < data.length
        · rw [if_pos (by omega), if_pos (by omega), getD_eq_getElem?_getD,
            getElem?_take_of_lt hi, ← getD_eq_getElem?_getD]
        · rw [if_neg (by omega), if_neg (by omega)]
          rfl
      -- a later sector
      obtain ⟨j, rfl⟩ : ∃ j, i = j + 512 := ⟨i - 512, by omega⟩
      have hrest := @ih (storeAt b s (overlay (sectorAt b s) 0 (data.take 512))) (data.drop 512)
        hS hfits' m j
      rw [length_drop, getD_eq_getElem?_getD, getElem?_drop, Nat.add_comm 512 j,
        ← getD_eq_getElem?_getD] at hrest
      rw [linear, place_cons_add]
      refine hrest.trans ?_
      have hold : linear (storeAt b s (overlay (sectorAt b s) 0 (data.take 512))) S j
          = linear b (s :: S) (j + 512) := by
        rw [linear, linear, place_cons_add]
        cases hplc : place S j with
        | none => rfl
        | some a =>
          have hne : a / 512 ≠ s := fun heq => hs (heq ▸ place_mem hplc)
          rw [Option.elim_some, Option.elim_some, storeAt, if_neg hne]
      rw [hold]
      by_cases hnew : j < 512 * m ∧ j < data.length - 512
      · rw [if_pos hnew, if_pos (by omega)]
      · rw [if_neg hnew, if_neg (by omega)]

lemma contents_applyWrites (hS : S.Nodup) (hfits : data.length ≤ 512 * S.length) :
    contents (applyWrites b (spreadWrites S b data)) S data.length = data := by
  have hall : (spreadWrites S b data).take (data.length + (spreadWrites S b data).length)
      = spreadWrites S b data := take_of_length_le (Nat.le_add_left ..)
  apply ext_getElem?
  intro i
  by_cases hi : i < data.length
  · have hlinear := linear_applyWrites_take (b := b) hS hfits
      (data.length + (spreadWrites S b data).length) i
    rw [hall, if_pos (by omega)] at hlinear
    rw [getElem?_contents hi, hlinear, getD_eq_getElem?_getD, getElem?_eq_getElem hi]
    rfl
  · have hlen : data.length ≤ i := Nat.le_of_not_lt hi
    rw [getElem?_eq_none (by rwa [length_contents]), getElem?_eq_none hlen]

end Indominus.Lib.Sectors
