import Indominus.Fat.Directory

/-!
# Long names and deleted slots

`parse_dir_entries` looks at the attribute of a slot before its deletion mark, and joins the parts
of a long name in the order of the slots.
-/

namespace Indominus.Fat

open Memory (Byte)
open Fs Lib.Bytes List FatDirEntry

/-! ## Directories as lists of slots -/

/-- Slot `k`, which has 32 bytes. -/
def slot (rawData : List Byte) (k : Nat) : Image :=
  fun i => if i < 32 then slotAt rawData (32 * k) i else 0

def slots (rawData : List Byte) : List Image :=
  (List.range (rawData.length / 32)).map (slot rawData)

/-- The loop of `parse_dir_entries` over a list of slots. -/
def parseSlots : List Image → Name → List FatDirEntry
  | [], _ => []
  | slot :: rest, pendingLfn =>
    match readSlot slot pendingLfn with
    | .stop => []
    | .lfn pendingLfn => parseSlots rest pendingLfn
    | .entry e => e :: parseSlots rest []
    | .skip => parseSlots rest []

variable {raw raw' : List Byte} {s s' : Image} {l l' : List Image} {p p' name : Name} {n : Nat}

lemma parseDirEntriesFrom_eq (i : Nat) :
    parseDirEntriesFrom raw n (32 * i) p = parseSlots ((range' i n).map (slot raw)) p := by
  induction n generalizing i p with
  | zero => rfl
  | succ n ih =>
    have hslot : readSlot (slot raw i) p = readSlot (slotAt raw (32 * i)) p :=
      readSlot_congr fun k hk => if_pos hk
    unfold parseDirEntriesFrom
    rw [range'_succ, map_cons, parseSlots, hslot, ← Nat.mul_succ]
    cases readSlot (slotAt raw (32 * i)) p with
    | stop => rfl
    | lfn pending => exact ih (i + 1)
    | entry e => exact congrArg (e :: ·) (ih (i + 1))
    | skip => exact ih (i + 1)

lemma parseDirEntries_eq : parseDirEntries raw = parseSlots (slots raw) [] := by
  rw [slots, range_eq_range']
  exact parseDirEntriesFrom_eq 0

def FatDirEntry.named (pendingLfn : Name) (e : FatDirEntry) : FatDirEntry :=
  if pendingLfn ≠ [] then { e with name := pendingLfn } else e

lemma parseSlots_stop (h : s 0 = 0) : parseSlots (s :: l) p = [] := by
  rw [parseSlots, readSlot, if_pos h]

lemma parseSlots_lfn (h : s 0 ≠ 0) (hlfn : s 11 = 0x0F) :
    parseSlots (s :: l) p = parseSlots l (p ++ lfnChars s) := by
  rw [parseSlots, readSlot, if_neg h, if_pos hlfn]

lemma parseSlots_short (h : s 0 ≠ 0) (hlfn : s 11 ≠ 0x0F) : parseSlots (s :: l) p
    = ((parse s).map (named p)).toList ++ parseSlots l [] := by
  rw [parseSlots, readSlot, if_neg h, if_neg hlfn]
  cases parse s <;> rfl

/-! ## Deleted slots -/

/-- The contents are equal but for the bytes behind the deletion mark of deleted slots. -/
def SameButDeleted (raw raw' : List Byte) : Prop :=
  raw'.length = raw.length ∧ ∀ a, raw'.getD a 0 = raw.getD a 0 ∨
    a % 32 ≠ 0 ∧ raw.getD (a - a % 32) 0 = 0xE5

/-- No entry comes after a deleted slot with only long-name slots between; `after` says that the
slots in front end with a deleted one and long-name slots. -/
def DeletedApart : (after : Bool) → List Image → Prop
  | _, [] => True
  | after, slot :: rest =>
    if slot 0 = 0 then True
    else if slot 0 = 0xE5 then DeletedApart true rest
    else if slot 11 = 0x0F then DeletedApart after rest
    else (after = true → FatDirEntry.parse slot = none) ∧ DeletedApart false rest

/-- A deleted slot is read as one of a long name, if that is its attribute. -/
lemma parseSlots_deleted (h : s 0 = 0xE5) :
    ∃ f : Name → Name, ∀ l p, parseSlots (s :: l) p = parseSlots l (f p) := by
  have hstop : s 0 ≠ 0 := by simp [h]
  by_cases hlfn : s 11 = 0x0F
  · exact ⟨_, fun l p => parseSlots_lfn hstop hlfn⟩
  · refine ⟨fun _ => [], fun l p => ?_⟩
    rw [parseSlots_short hstop hlfn, parse, if_pos (.inl h)]
    rfl

lemma parseSlots_alike {after : Bool}
    (hl : List.Forall₂ (fun s s' => s' = s ∨ s 0 = 0xE5 ∧ s' 0 = 0xE5) l l')
    (h : DeletedApart after l) (hp : after = false → p' = p) :
    parseSlots l' p' = parseSlots l p := by
  induction hl generalizing after p p' with
  | nil => rfl
  | @cons s s' l l' hs _ ih =>
    unfold DeletedApart at h
    by_cases hdel : s 0 = 0xE5
    · have hdel' : s' 0 = 0xE5 := hs.elim (fun heq => heq ▸ hdel) And.right
      obtain ⟨f, hf⟩ := parseSlots_deleted hdel
      obtain ⟨f', hf'⟩ := parseSlots_deleted hdel'
      rw [if_neg (by simp [hdel]), if_pos hdel] at h
      rw [hf, hf']
      exact ih h fun haft => Bool.noConfusion haft
    obtain rfl := hs.resolve_right fun hboth => hdel hboth.1
    by_cases hstop : s' 0 = 0
    · rw [parseSlots_stop hstop, parseSlots_stop hstop]
    rw [if_neg hstop, if_neg hdel] at h
    by_cases hlfn : s' 11 = 0x0F
    · rw [if_pos hlfn] at h
      rw [parseSlots_lfn hstop hlfn, parseSlots_lfn hstop hlfn]
      exact ih h fun haft => congrArg (· ++ lfnChars s') (hp haft)
    rw [if_neg hlfn] at h
    rw [parseSlots_short hstop hlfn, parseSlots_short hstop hlfn, ih h.2 fun _ => rfl]
    cases after with
    | true => rw [h.1 rfl, Option.map_none, Option.map_none]
    | false => rw [hp rfl]

/-- A deleted slot that is read as the letter `c` of a long name. -/
def mark (c : Byte) : Image :=
  fun i => if i = 0 then 0xE5 else if i = 1 then c else if i = 11 then 0x0F else 0

def marked (c : Byte) (s : Image) : Image := if s 0 = 0xE5 then mark c else s

/-- If an entry comes after a deleted slot, the letter in that slot shows in a name. -/
lemma parseSlots_marked_ne {after : Bool} (h : ¬ DeletedApart after l)
    (hp : after = true → p ≠ p' ∧ p ≠ [] ∧ p' ≠ []) :
    parseSlots (l.map (marked 0x61)) p ≠ parseSlots (l.map (marked 0x62)) p' := by
  induction l generalizing after p p' with
  | nil => exact absurd trivial h
  | cons s l ih =>
    rw [map_cons, map_cons, marked, marked]
    unfold DeletedApart at h
    by_cases hdel : s 0 = 0xE5
    · rw [if_neg (by simp [hdel]), if_pos hdel] at h
      rw [if_pos hdel, if_pos hdel, parseSlots_lfn (by decide) rfl, parseSlots_lfn (by decide) rfl,
        show lfnChars (mark 0x61) = ['a'] by decide, show lfnChars (mark 0x62) = ['b'] by decide]
      exact ih h fun _ => by simp
    rw [if_neg hdel, if_neg hdel]
    by_cases hstop : s 0 = 0
    · rw [if_pos hstop] at h
      exact absurd trivial h
    rw [if_neg hstop, if_neg hdel] at h
    by_cases hlfn : s 11 = 0x0F
    · rw [if_pos hlfn] at h
      rw [parseSlots_lfn hstop hlfn, parseSlots_lfn hstop hlfn]
      exact ih h fun haft => by simp [hp haft]
    rw [if_neg hlfn] at h
    rw [parseSlots_short hstop hlfn, parseSlots_short hstop hlfn]
    intro heq
    cases hpar : parse s with
    | none =>
      rw [hpar] at heq
      exact ih (fun hrest => h ⟨fun _ => hpar, hrest⟩) (fun hf => Bool.noConfusion hf) heq
    | some e =>
      rw [hpar] at heq
      obtain ⟨hhead, htail⟩ := cons.inj heq
      by_cases haft : after = true
      · obtain ⟨hne, hp, hp'⟩ := hp haft
        rw [named, named, if_pos hp, if_pos hp'] at hhead
        exact hne (congrArg name hhead)
      · have htl : ¬ DeletedApart false l := fun hrest => h ⟨fun ht => absurd ht haft, hrest⟩
        exact ih htl (fun hf => Bool.noConfusion hf) htail

/-- The directory with every deleted slot replaced. -/
def markedRaw (raw : List Byte) (c : Byte) : List Byte :=
  firstBytes (fun a => if raw.getD (a - a % 32) 0 = 0xE5 then mark c (a % 32)
    else raw.getD a 0) raw.length

lemma length_markedRaw (c : Byte) : (markedRaw raw c).length = raw.length := by
  rw [markedRaw, firstBytes, length_map, length_range]

lemma sameButDeleted_markedRaw (c : Byte) : SameButDeleted raw (markedRaw raw c) := by
  refine ⟨length_markedRaw c, fun a => ?_⟩
  by_cases ha : a < raw.length
  · rw [markedRaw, getD_firstBytes ha]
    split_ifs with hdel
    · by_cases hfst : a % 32 = 0
      · rw [hfst, Nat.sub_zero] at hdel
        exact .inl (by rw [hfst, hdel]; rfl)
      · exact .inr ⟨hfst, hdel⟩
    · exact .inl rfl
  · left
    have hlen := @length_markedRaw raw c
    rw [getD_eq_default _ _ (by omega), getD_eq_default _ _ (by omega)]

lemma slots_markedRaw (c : Byte) : slots (markedRaw raw c) = (slots raw).map (marked c) := by
  unfold slots
  rw [length_markedRaw, map_map]
  apply map_congr_left
  intro k hk
  have hk := mem_range.mp hk
  have hdel : slot raw k 0 = raw.getD (32 * k) 0 := rfl
  funext i
  rw [Function.comp_apply, marked, hdel, slot]
  by_cases hi : i < 32
  · have hfst : 32 * k + i - (32 * k + i) % 32 = 32 * k := by omega
    have hmod : (32 * k + i) % 32 = i := by omega
    rw [if_pos hi, slotAt, markedRaw, getD_firstBytes (by omega), hfst, hmod]
    split_ifs
    · rfl
    · rw [slot, if_pos hi, slotAt]
  · have hmark : mark c i = 0 := by
      rw [mark, if_neg (by omega), if_neg (by omega), if_neg (by omega)]
    rw [if_neg hi]
    split_ifs
    · exact hmark.symm
    · exact (if_neg hi).symm

lemma SameButDeleted.alike (h : SameButDeleted raw raw') :
    List.Forall₂ (fun s s' => s' = s ∨ s 0 = 0xE5 ∧ s' 0 = 0xE5) (slots raw) (slots raw') := by
  unfold slots
  rw [h.1, forall₂_map_left_iff, forall₂_map_right_iff, forall₂_same]
  intro k _
  have hfst : raw'.getD (32 * k) 0 = raw.getD (32 * k) 0 :=
    (h.2 (32 * k)).resolve_right fun hne => hne.1 (by omega)
  by_cases hdel : raw.getD (32 * k) 0 = 0xE5
  · exact .inr ⟨hdel, hfst.trans hdel⟩
  · left
    funext i
    unfold slot
    split_ifs with hi
    · refine (h.2 (32 * k + i)).resolve_right fun hne => hdel ?_
      rw [← hne.2]
      congr 1
      omega
    · rfl

/-- A deleted slot can name the entry behind it: its attribute is looked at first. -/
theorem deleted_slots_iff (raw : List Byte) :
    (∀ raw', SameButDeleted raw raw' → parseDirEntries raw' = parseDirEntries raw) ↔
      DeletedApart false (slots raw) := by
  constructor
  · intro h
    by_contra hnot
    refine @parseSlots_marked_ne (slots raw) [] [] false hnot (fun hf => Bool.noConfusion hf) ?_
    rw [← slots_markedRaw, ← slots_markedRaw, ← parseDirEntries_eq, ← parseDirEntries_eq,
      h _ (sameButDeleted_markedRaw _), h _ (sameButDeleted_markedRaw _)]
  · intro h raw' hsame
    rw [parseDirEntries_eq, parseDirEntries_eq]
    exact parseSlots_alike hsame.alike h fun _ => rfl

/-- A deleted slot and the entry of a file `a`. -/
def deletedThenFile : List Byte := 0xE5 :: List.replicate 31 0 ++ 0x41 :: List.replicate 31 0x20

/-- With a long name left in the deleted slot, `a` is listed under that name. -/
theorem deleted_slot_shows : ¬ ∀ raw', SameButDeleted deletedThenFile raw' →
    parseDirEntries raw' = parseDirEntries deletedThenFile := by
  intro h
  exact absurd (h _ (sameButDeleted_markedRaw 0x78)) (by decide)

/-! ## Long names -/

/-- The pending long name behind some slots; `none` if the end mark is among them. -/
def pendingAfter : List Image → Name → Option Name
  | [], pendingLfn => some pendingLfn
  | slot :: rest, pendingLfn =>
    match readSlot slot pendingLfn with
    | .stop => none
    | .lfn pendingLfn => pendingAfter rest pendingLfn
    | .entry _ => pendingAfter rest []
    | .skip => pendingAfter rest []

lemma parseSlots_append {q : Name} (h : pendingAfter l p = some q) :
    parseSlots (l ++ l') p = parseSlots l p ++ parseSlots l' q := by
  induction l generalizing p with
  | nil =>
    cases h
    rfl
  | cons s l ih =>
    unfold pendingAfter at h
    rw [cons_append, parseSlots, parseSlots]
    cases hslot : readSlot s p <;> rw [hslot] at h
    case stop => cases h
    case lfn => exact ih h
    case entry e => exact congrArg (e :: ·) (ih h)
    case skip => exact ih h

def lfnPieces (name : Name) : List Name :=
  (List.range ((name.length + 12) / 13)).map fun k => (name.drop (13 * k)).take 13

/-- The units of a slot: the characters, a NUL and padding. -/
def lfnUnits (piece : Name) : List Nat :=
  (piece.map Char.toNat ++ 0 :: List.replicate 12 0xFFFF).take 13

/-- The long-name slots of a name on the disk: the last part comes first, and is marked with
`0x40`. -/
structure IsLongName (name : Name) (l : List Image) : Prop where
  ascii : ∀ c ∈ name, 0 < c.toNat ∧ c.toNat < 128
  length : 1 ≤ name.length ∧ name.length ≤ 255
  seq : l.map (fun s => s 0) = (List.range l.length).map fun k =>
    BitVec.ofNat 8 ((if k = 0 then 0x40 else 0) + (l.length - k))
  units : List.Forall₂ (fun piece s => s 11 = 0x0F ∧
    lfnOffsets.map (fun o => le s o 2) = lfnUnits piece)
    (lfnPieces name).reverse l

lemma lfnChars_eq {piece : Name} (hasc : ∀ c ∈ piece, 0 < c.toNat ∧ c.toNat < 128)
    (hlen : piece.length ≤ 13) (h : lfnOffsets.map (fun o => le s o 2) = lfnUnits piece) :
    lfnChars s = piece := by
  have hcodes : ∀ c ∈ piece.map Char.toNat, decide (c ≠ 0 ∧ c ≠ 0xFFFF) = true := by
    intro c hc
    obtain ⟨ch, hch, rfl⟩ := mem_map.mp hc
    have := hasc ch hch
    exact decide_eq_true (by omega)
  have hend : ∀ m, ((0 :: replicate 12 0xFFFF).take m).takeWhile
      (fun c => decide (c ≠ 0 ∧ c ≠ 0xFFFF)) = [] := by
    rintro (_ | m) <;> rfl
  have hsm : ((piece.map Char.toNat).filter fun c => c < 128) = piece.map Char.toNat := by
    rw [filter_eq_self]
    intro c hc
    obtain ⟨ch, hch, rfl⟩ := mem_map.mp hc
    exact decide_eq_true (hasc ch hch).2
  rw [lfnChars, h, lfnUnits, take_append, take_of_length_le (by rw [length_map]; exact hlen),
    takeWhile_append_of_pos hcodes, hend, append_nil, hsm, map_map]
  exact (map_congr_left fun c _ => Char.ofNat_toNat c).trans (map_id piece)

lemma flatten_lfnPieces : (lfnPieces name).flatten = name := by
  have htake : ∀ n, ((range n).map fun k => (name.drop (13 * k)).take 13).flatten
      = name.take (13 * n) := by
    intro n
    induction n with
    | zero => rfl
    | succ n ih =>
      rw [range_succ, map_append, flatten_append, ih, Nat.mul_succ, take_add]
      simp
  rw [lfnPieces, htake, take_of_length_le (by omega)]

lemma parseSlots_pieces {pieces : List Name} (hlive : ∀ s ∈ l, s 0 ≠ 0)
    (hpieces : ∀ piece ∈ pieces, piece.length ≤ 13 ∧ ∀ c ∈ piece, 0 < c.toNat ∧ c.toNat < 128)
    (h : List.Forall₂ (fun piece s =>
      s 11 = 0x0F ∧ lfnOffsets.map (fun o => le s o 2) = lfnUnits piece) pieces l) :
    parseSlots (l ++ l') p = parseSlots l' (p ++ pieces.flatten) := by
  induction h generalizing p with
  | nil => rw [nil_append, flatten_nil, append_nil]
  | @cons piece s pieces l hs _ ih =>
    obtain ⟨⟨hlen, hasc⟩, hpieces⟩ := forall_mem_cons.mp hpieces
    obtain ⟨hfst, hlive⟩ := forall_mem_cons.mp hlive
    rw [cons_append, parseSlots_lfn hfst hs.1, lfnChars_eq hasc hlen hs.2, ih hlive hpieces,
      flatten_cons, append_assoc]

lemma parseSlots_longName (h : IsLongName name l) :
    parseSlots (l ++ l') p = parseSlots l' (p ++ (lfnPieces name).reverse.flatten) := by
  have hcnt : l.length = (name.length + 12) / 13 := by
    simpa [lfnPieces] using h.units.length_eq.symm
  refine parseSlots_pieces ?_ ?_ h.units
  · intro s hs
    have hseq := mem_map_of_mem (f := fun s : Image => s 0) hs
    rw [h.seq] at hseq
    obtain ⟨k, hk, hk0⟩ := mem_map.mp hseq
    have hk := mem_range.mp hk
    have hlen := h.length
    rw [← hk0, ne_eq, ← BitVec.toNat_inj, BitVec.toNat_ofNat]
    simp only [BitVec.ofNat_eq_ofNat, BitVec.toNat_ofNat]
    split_ifs <;> omega
  · intro piece hpc
    obtain ⟨k, -, rfl⟩ := mem_map.mp (mem_reverse.mp hpc)
    exact ⟨length_take_le .., fun c hc =>
      h.ascii c (mem_of_mem_drop (mem_of_mem_take hc))⟩

/-- The parts are joined as they stand on the disk, behind what is pending from the slots in
front. -/
theorem longName_decoded_iff {before rest : List Image} {short : Image} {e : FatDirEntry}
    (hraw : slots raw = before ++ (l ++ short :: rest)) (hbefore : pendingAfter before [] = some p)
    (hname : IsLongName name l) (hshort : FatDirEntry.parse short = some e)
    (hattr : short 11 ≠ 0x0F) :
    parseDirEntries raw = parseSlots before [] ++ { e with name := name } :: parseSlots rest [] ↔
      p = [] ∧ (lfnPieces name).reverse.flatten = name := by
  have hlive : short 0 ≠ 0 := by
    intro hzero
    rw [parse, if_pos (.inr hzero)] at hshort
    cases hshort
  have hlen : ((lfnPieces name).reverse.flatten).length = name.length := by
    conv_rhs => rw [← @flatten_lfnPieces name]
    simp [length_flatten]
  have hent : parseDirEntries raw = parseSlots before []
      ++ named (p ++ (lfnPieces name).reverse.flatten) e :: parseSlots rest [] := by
    rw [parseDirEntries_eq, hraw, parseSlots_append hbefore, parseSlots_longName hname,
      parseSlots_short hlive hattr, hshort]
    rfl
  generalize (lfnPieces name).reverse.flatten = joined at hlen hent ⊢
  have hne : p ++ joined ≠ [] := by
    intro hnil
    rw [append_eq_nil_iff.mp hnil |>.2] at hlen
    exact absurd hname.length.1 (by simp [← hlen])
  rw [hent, append_cancel_left_eq, named, if_pos hne]
  constructor
  · intro h
    have hjoined : p ++ joined = name := congrArg FatDirEntry.name (cons.inj h).1
    have hp : p = [] := by
      rw [← hjoined, length_append] at hlen
      exact length_eq_zero_iff.mp (by omega)
    exact ⟨hp, by rwa [hp] at hjoined⟩
  · rintro ⟨rfl, rfl⟩
    rfl

def lfnSlot (seq : Byte) (piece : Name) : Image :=
  (lfnOffsets.zip (lfnUnits piece)).foldl (fun s x => put s x.1 2 x.2)
    fun i => if i = 0 then seq else if i = 11 then 0x0F else 0

/-- A directory with long-name slots and the entry of a file. -/
def withLongName (l : List Image) : List Byte :=
  l.flatMap (firstBytes · 32) ++ 0x41 :: List.replicate 31 0x20

/-- A name that fits one slot. -/
theorem longName_decoded_one : parseDirEntries (withLongName [lfnSlot 0x41 ['x']])
    = [⟨['x'], 0x20, 0x20202020, 0x20202020, false⟩] := by
  have hname : IsLongName ['x'] [slot (withLongName [lfnSlot 0x41 ['x']]) 0] :=
    ⟨by simp, by decide, by decide, .cons ⟨rfl, by decide⟩ .nil⟩
  exact (@longName_decoded_iff (withLongName [lfnSlot 0x41 ['x']]) _ [] ['x'] [] []
    (slot (withLongName [lfnSlot 0x41 ['x']]) 1) _ rfl rfl hname rfl (by decide)).mpr
    ⟨rfl, by decide⟩

/-- The second part of the name comes first. -/
theorem longName_reversed :
    IsLongName (List.replicate 13 'a' ++ ['b'])
      ((slots (withLongName [lfnSlot 0x42 ['b'], lfnSlot 1 (List.replicate 13 'a')])).take 2) ∧
    (parseDirEntries (withLongName [lfnSlot 0x42 ['b'], lfnSlot 1 (List.replicate 13 'a')])).map
      FatDirEntry.name = ['b' :: List.replicate 13 'a'] := by
  refine ⟨⟨by simp, by decide, by decide, ?_⟩, by decide⟩
  exact .cons ⟨rfl, by decide⟩ (.cons ⟨rfl, by decide⟩ .nil)

end Indominus.Fat
