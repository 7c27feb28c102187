import Indominus.Fs.Initrd
import Indominus.Memory.PageFill
import Indominus.Sys.Run
import Indominus.User.Shell

/-!
# Arguments on their way to a program (`exec_external`, `sys_execve`)

`sys_execve` reads each pointer as a string that ends with a zero; the shell's copy of the line has
none between the words.
-/

namespace Indominus.Sys

open Memory Fs

/-! ## Reading the arguments -/

/-- The loop of `sys_execve` over the bytes of a string, from `ptr + j` on. -/
def readString (m : PhysMem) (pml4 cr3 ptr : Nat) : (n j : Nat) → List Byte
  | 0, _ => []
  | n + 1, j =>
    let addr := (ptr + j) % 2 ^ 64
    if ¬ isValidUserRange addr 1 then []
    else if ¬ isUserBufferMapped m pml4 addr 1 then []
    else
      let byte := loadByte m cr3 addr
      if byte = 0 then [] else byte :: readString m pml4 cr3 ptr n (j + 1)

/-- `String::from_utf8(..).unwrap_or_default()`, as bytes. -/
def fromUtf8OrDefault (bytes : List Byte) : List Byte :=
  if (Initrd.fromUtf8 bytes).isSome then bytes else []

def loadWord (m : PhysMem) (cr3 addr : Nat) : Nat :=
  (loadBytes m cr3 addr 8).foldr (fun b w => b.toNat + 256 * w) 0

/-- The loop of `sys_execve` over the array, from index `i` on. -/
def readArgvFrom (m : PhysMem) (pml4 cr3 argvPtr : Nat) : (n i : Nat) → List (List Byte)
  | 0, _ => []
  | n + 1, i =>
    let slot := (argvPtr + i * 8) % 2 ^ 64
    if ¬ isValidUserRange slot 8 then []
    else if ¬ isUserBufferMapped m pml4 slot 8 then []
    else
      let strPtr := loadWord m cr3 slot
      if strPtr = 0 then [] :: readArgvFrom m pml4 cr3 argvPtr n (i + 1)
      else fromUtf8OrDefault (readString m pml4 cr3 strPtr 4096 0) ::
        readArgvFrom m pml4 cr3 argvPtr n (i + 1)

/-- `argv_strings` of `sys_execve`. -/
def readArgv (m : PhysMem) (pml4 cr3 argc argvPtr : Nat) : List (List Byte) :=
  if 0 < argc ∧ argvPtr ≠ 0 then readArgvFrom m pml4 cr3 argvPtr (min argc 64) 0 else []

variable {m : PhysMem} {pml4 cr3 ptr n j : Nat}

lemma lt_of_isValidUserRange {addr len : Nat} (h : isValidUserRange addr len = true) :
    addr ≠ 0 ∧ addr < 2 ^ 47 := by
  rw [isValidUserRange] at h
  split_ifs at h with hzero
  rw [not_or] at hzero
  simp only [Bool.and_eq_true, decide_eq_true_eq] at h
  refine ⟨hzero.1, ?_⟩
  unfold USER_ADDR_MAX at h
  omega

lemma readString_shift : readString m pml4 cr3 ptr n j = readString m pml4 cr3 (ptr + j) n 0 := by
  induction n generalizing ptr j with
  | zero => rfl
  | succ n ih =>
    rw [readString, readString, ih, @ih (ptr + j)]
    rfl

def StopsAt (m : PhysMem) (pml4 cr3 a : Nat) : Prop :=
  isValidUserRange a 1 = false ∨ isUserBufferMapped m pml4 a 1 = false ∨ loadByte m cr3 a = 0

instance (a : Nat) : Decidable (StopsAt m pml4 cr3 a) := inferInstanceAs (Decidable (_ ∨ _))

lemma readString_eq_nil_iff {a : Nat} (ha : a < 2 ^ 64) (hn : n ≠ 0) :
    readString m pml4 cr3 a n 0 = [] ↔ StopsAt m pml4 cr3 a := by
  obtain ⟨n, rfl⟩ := Nat.exists_eq_succ_of_ne_zero hn
  rw [readString, Nat.add_zero, Nat.mod_eq_of_lt ha, StopsAt]
  cases isValidUserRange a 1 with
  | false => simp
  | true =>
    cases isUserBufferMapped m pml4 a 1 with
    | false => simp
    | true => by_cases hbyte : loadByte m cr3 a = 0 <;> simp [hbyte]

lemma readString_cons {a : Nat} (ha : a < 2 ^ 64) (h : ¬ StopsAt m pml4 cr3 a) :
    readString m pml4 cr3 a (n + 1) 0 = loadByte m cr3 a :: readString m pml4 cr3 (a + 1) n 0 := by
  rw [StopsAt, not_or, not_or, Bool.not_eq_false, Bool.not_eq_false] at h
  rw [readString, Nat.add_zero, Nat.mod_eq_of_lt ha, if_neg (not_not.mpr h.1),
    if_neg (not_not.mpr h.2.1)]
  simp only [if_neg h.2.2]
  rw [readString_shift]

/-- The bytes in memory from `a` on, up to the first that is zero or cannot be read, `n` at most. -/
def bytesAt (m : PhysMem) (pml4 cr3 a n : Nat) : List Byte :=
  ((List.range n).takeWhile fun j => ¬ StopsAt m pml4 cr3 (a + j)).map fun j =>
    loadByte m cr3 (a + j)

lemma readString_eq_bytesAt {a : Nat} (ha : a + n ≤ 2 ^ 64) :
    readString m pml4 cr3 a n 0 = bytesAt m pml4 cr3 a n := by
  induction n generalizing a with
  | zero => rfl
  | succ n ih =>
    rw [bytesAt, List.range_succ_eq_map]
    by_cases hstop : StopsAt m pml4 cr3 a
    · rw [(readString_eq_nil_iff (by omega) (Nat.succ_ne_zero n)).mpr hstop]
      simp [hstop]
    · rw [readString_cons (by omega) hstop, ih (by omega), bytesAt]
      simp [hstop, List.takeWhile_map, Function.comp_def, Nat.add_assoc, Nat.add_comm 1]

end Indominus.Sys

namespace Indominus.User

open Memory Sys Fs List

variable {m : PhysMem} {pml4 cr3 base argv n i s : Nat} {line : List Byte}
  {cmd : ParsedCmd} {t : Token}

/-! ## The command in the memory of the shell -/

/-- The copy of the line lies at `base`, followed by zeros, and the pointers of `exec_external` lie
at `argv`. -/
structure ArgvInMemory (m : PhysMem) (pml4 cr3 base argv : Nat) (cmd : ParsedCmd) : Prop where
  line : ∀ i < MAX_INPUT, isValidUserRange (base + i) 1 = true ∧
    isUserBufferMapped m pml4 (base + i) 1 = true ∧
    Sys.loadByte m cr3 (base + i) = cmd.inputLine.getD i 0
  pointers : ∀ i < cmd.argOffsets.length, isValidUserRange (argv + i * 8) 8 = true ∧
    isUserBufferMapped m pml4 (argv + i * 8) 8 = true ∧
    loadWord m cr3 (argv + i * 8) = base + (cmd.argOffsets.getD i (0, 0)).1

lemma ArgvInMemory.base_lt (h : ArgvInMemory m pml4 cr3 base argv cmd) : base ≠ 0 ∧ base < 2 ^ 47 :=
  lt_of_isValidUserRange (h.line 0 (by decide)).1

/-- A string runs to the first zero of the line, or on behind the line. -/
lemma readString_line (h : ArgvInMemory m pml4 cr3 base argv cmd) (hline : cmd.inputLine = line)
    (hlen : line.length ≤ MAX_INPUT) (hs : s ≤ line.length) (hn : line.length - s ≤ n) :
    readString m pml4 cr3 (base + s) n 0 = (line.drop s).takeWhile (· ≠ 0) ++
      if 0 ∈ line.drop s then []
        else readString m pml4 cr3 (base + line.length) (n - (line.length - s)) 0 := by
  obtain ⟨rest, hrest⟩ : ∃ rest, rest = line.drop s := ⟨_, rfl⟩
  rw [← hrest]
  induction rest generalizing s n with
  | nil =>
    have hend : line.length ≤ s := drop_eq_nil_iff.mp hrest.symm
    obtain rfl : s = line.length := by omega
    rw [takeWhile_nil, nil_append, if_neg not_mem_nil, Nat.sub_self, Nat.sub_zero]
  | cons b rest ih =>
    have hlt : s < line.length := by
      by_contra hge
      rw [drop_eq_nil_of_le (not_lt.mp hge)] at hrest
      cases hrest
    have hnext : rest = line.drop (s + 1) := by
      rw [← drop_drop, ← hrest]
      rfl
    obtain ⟨hval, hmap, hbyte⟩ := h.line s (by omega)
    have hb : Sys.loadByte m cr3 (base + s) = b := by
      rw [hbyte, hline, getD_eq_getElem?_getD, ← head?_drop, ← hrest]
      rfl
    have haddr : base + s < 2 ^ 64 := by
      have hrg := (lt_of_isValidUserRange hval).2
      omega
    obtain ⟨n, rfl⟩ : ∃ n', n = n' + 1 := ⟨n - 1, by omega⟩
    by_cases hzero : b = 0
    · subst hzero
      rw [(readString_eq_nil_iff haddr (Nat.succ_ne_zero n)).mpr (.inr (.inr hb))]
      rfl
    have hgo : ¬ StopsAt m pml4 cr3 (base + s) := by
      rw [StopsAt, hval, hmap, hb]
      rintro (hno | hno | hno)
      · cases hno
      · cases hno
      · exact hzero hno
    have hmem : (0 ∈ b :: rest) = (0 ∈ rest) := by
      rw [mem_cons, eq_false (Ne.symm hzero), false_or]
    have hkeep : (b :: rest).takeWhile (· ≠ 0) = b :: rest.takeWhile (· ≠ 0) :=
      takeWhile_cons_of_pos (p := fun x : Byte => decide (x ≠ 0)) (decide_eq_true hzero)
    have hleft : n + 1 - (line.length - s) = n - (line.length - (s + 1)) := by omega
    rw [readString_cons haddr hgo, hb, Nat.add_assoc, ih (by omega) (by omega) hnext,
      hkeep, cons_append, hleft]
    simp only [hmem]

/-! ## One word -/

def Token.text (line : List Byte) (t : Token) : List Byte :=
  (line.drop t.start).take (t.stop - t.start)

/-- A word that ends the line, without zeros, valid UTF-8 and with a zero behind it; or, by
accident, an empty word with invalid UTF-8 behind it. -/
def Token.Arrives (m : PhysMem) (pml4 cr3 base : Nat) (line : List Byte) (t : Token) : Prop :=
  (t.stop = line.length ∧ 0 ∉ t.text line ∧ (Initrd.fromUtf8 (t.text line)).isSome ∧
      (line.length < MAX_INPUT ∨ StopsAt m pml4 cr3 (base + MAX_INPUT))) ∨
    (t.start = t.stop ∧ ¬ (Initrd.fromUtf8 (bytesAt m pml4 cr3 (base + t.start) 4096)).isSome)

instance : Decidable (t.Arrives m pml4 cr3 base line) := inferInstanceAs (Decidable (_ ∨ _))

lemma Token.text_of_end (hstop : t.stop = line.length) : t.text line = line.drop t.start := by
  rw [Token.text, hstop, ← length_drop, take_length]

lemma le_length_takeWhile {α : Type} {p : α → Bool} {l : List α} {k : Nat} (hk : k ≤ l.length)
    (h : ∀ a ∈ l.take k, p a = true) : k ≤ (l.takeWhile p).length := by
  obtain hall | ⟨a, ha, hpa⟩ := takeWhile_next p l
  · omega
  by_contra hlt
  have hmem : a ∈ l.take k := mem_of_getElem? (by rwa [getElem?_take_of_lt (not_le.mp hlt)])
  rw [h a hmem] at hpa
  cases hpa

section Word

variable (h : ArgvInMemory m pml4 cr3 base argv cmd) (hline : cmd.inputLine = line)
  (hlen : line.length ≤ MAX_INPUT) (hcut : t.Cut line)

include h hline hlen

lemma stopsAt_end (hlast : line.length < MAX_INPUT ∨ StopsAt m pml4 cr3 (base + MAX_INPUT)) :
    StopsAt m pml4 cr3 (base + line.length) := by
  by_cases hlt : line.length < MAX_INPUT
  · refine .inr (.inr ?_)
    rw [(h.line _ hlt).2.2, hline, getD_eq_default _ _ (le_refl _)]
  obtain heq : line.length = MAX_INPUT := by omega
  rw [heq]
  exact hlast.resolve_left hlt

include hcut

lemma readString_of_end (hstop : t.stop = line.length) (hzero : 0 ∉ t.text line)
    (hlast : StopsAt m pml4 cr3 (base + line.length)) :
    readString m pml4 cr3 (base + t.start) 4096 0 = t.text line := by
  have hbase := h.base_lt.2
  have hmax : MAX_INPUT = 512 := rfl
  rw [Token.text_of_end hstop] at hzero ⊢
  rw [readString_line h hline hlen (hcut.le.trans hcut.stop_le) (by omega), if_neg hzero,
    (readString_eq_nil_iff (by omega) (by omega)).mpr hlast, append_nil, takeWhile_eq_self_iff]
  intro b hb
  exact decide_eq_true fun heq => hzero (heq ▸ hb)

lemma ends_of_readString (hread : readString m pml4 cr3 (base + t.start) 4096 0 = t.text line) :
    t.stop = line.length ∧ 0 ∉ t.text line ∧ StopsAt m pml4 cr3 (base + line.length) := by
  have hbase := h.base_lt.2
  have hmax : MAX_INPUT = 512 := rfl
  have hle := hcut.le
  have hstop := hcut.stop_le
  rw [readString_line h hline hlen (hle.trans hstop) (by omega)] at hread
  have hnozero : 0 ∉ t.text line := by
    by_cases hmem : 0 ∈ line.drop t.start
    · rw [if_pos hmem, append_nil] at hread
      rw [← hread]
      intro hzero
      have hne := mem_takeWhile_imp hzero
      exact absurd rfl (of_decide_eq_true hne)
    · exact fun hzero => hmem (mem_of_mem_take hzero)
  have hend : t.stop = line.length := by
    obtain hend | ⟨b, hb, hne⟩ := hcut.ends
    · exact hend
    -- the byte after the word is read, too
    rw [head?_drop] at hb
    have hlt : t.stop < line.length := (List.getElem?_eq_some_iff.mp hb).1
    have hmore : t.stop - t.start + 1 ≤ ((line.drop t.start).takeWhile (· ≠ 0)).length := by
      refine le_length_takeWhile (by rw [length_drop]; omega) fun a ha => ?_
      have hget : (line.drop t.start)[t.stop - t.start]? = some b := by
        rw [getElem?_drop, Nat.add_sub_cancel' hle, hb]
      rw [take_add_one, hget, mem_append] at ha
      rcases ha with ha | ha
      · exact decide_eq_true fun heq => hnozero (heq ▸ ha)
      · rw [mem_singleton.mp ha]
        exact decide_eq_true hne
    have hcnt := congrArg length hread
    rw [length_append, Token.text, length_take] at hcnt
    omega
  refine ⟨hend, hnozero, ?_⟩
  rw [Token.text_of_end hend] at hread hnozero
  have hall : (line.drop t.start).takeWhile (· ≠ 0) = line.drop t.start := by
    rw [takeWhile_eq_self_iff]
    exact fun b hb => decide_eq_true fun heq => hnozero (heq ▸ hb)
  rw [hall, if_neg hnozero, append_right_eq_self] at hread
  exact (readString_eq_nil_iff (by omega) (by omega)).mp hread

lemma readString_word :
    fromUtf8OrDefault (readString m pml4 cr3 (base + t.start) 4096 0) = t.text line ↔
    t.Arrives m pml4 cr3 base line := by
  have hle := hcut.le
  have hstop := hcut.stop_le
  have hbase := h.base_lt.2
  have hmax : MAX_INPUT = 512 := rfl
  constructor
  · intro hread
    rw [fromUtf8OrDefault] at hread
    split_ifs at hread with hval
    · obtain ⟨hend, hzero, hlast⟩ := ends_of_readString h hline hlen hcut hread
      rw [hread] at hval
      refine .inl ⟨hend, hzero, hval, ?_⟩
      by_cases hlt : line.length < MAX_INPUT
      · exact .inl hlt
      obtain heq : line.length = MAX_INPUT := by omega
      rw [heq] at hlast
      exact .inr hlast
    -- what was read is no string, and the empty one took its place
    have hemp := congrArg length hread
    rw [Token.text, length_take, length_drop, length_nil] at hemp
    rw [readString_eq_bytesAt (by omega)] at hval
    exact .inr ⟨by omega, hval⟩
  rintro (⟨hend, hzero, hval, hlast⟩ | ⟨hemp, hval⟩)
  · rw [readString_of_end h hline hlen hcut hend hzero (stopsAt_end h hline hlen hlast),
      fromUtf8OrDefault, if_pos hval]
  · rw [← readString_eq_bytesAt (by omega)] at hval
    rw [fromUtf8OrDefault, if_neg hval, Token.text, hemp, Nat.sub_self, take_zero]

end Word

/-! ## All arguments -/

lemma readArgvFrom_eq {args : List (Nat × Nat)}
    (hpointers : ∀ j < args.length, isValidUserRange (argv + (i + j) * 8) 8 = true ∧
      isUserBufferMapped m pml4 (argv + (i + j) * 8) 8 = true ∧
      loadWord m cr3 (argv + (i + j) * 8) = base + (args.getD j (0, 0)).1) (hbase : base ≠ 0) :
    readArgvFrom m pml4 cr3 argv args.length i =
      args.map fun a => fromUtf8OrDefault (readString m pml4 cr3 (base + a.1) 4096 0) := by
  induction args generalizing i with
  | nil => rfl
  | cons a args ih =>
    obtain ⟨hval, hmap, hword⟩ := hpointers 0 (by simp)
    rw [Nat.add_zero] at hval hmap hword
    have haddr := (lt_of_isValidUserRange hval).2
    have hrest := ih (i := i + 1) fun j hj => by
      have hnext := hpointers (j + 1) (by simpa using hj)
      rwa [← Nat.add_assoc, Nat.add_right_comm, getD_cons_succ] at hnext
    rw [length_cons, readArgvFrom, Nat.mod_eq_of_lt (by omega), if_neg (not_not.mpr hval),
      if_neg (not_not.mpr hmap), hword, getD_cons_zero]
    simp only [if_neg (show base + a.1 ≠ 0 by omega), hrest, map_cons]

lemma readArgv_eq (h : ArgvInMemory m pml4 cr3 base argv cmd) (hroom : cmd.argOffsets.length ≤ 64) :
    readArgv m pml4 cr3 cmd.argOffsets.length argv =
      cmd.argOffsets.map fun a =>
        fromUtf8OrDefault (readString m pml4 cr3 (base + a.1) 4096 0) := by
  by_cases hargs : cmd.argOffsets.length = 0
  · rw [length_eq_zero_iff.mp hargs]
    rfl
  have hargv : argv ≠ 0 := by
    have hzero := (lt_of_isValidUserRange (h.pointers 0 (by omega)).1).1
    omega
  rw [readArgv, if_pos ⟨by omega, hargv⟩, Nat.min_eq_left hroom]
  refine readArgvFrom_eq (fun j hj => ?_) h.base_lt.1
  rw [Nat.zero_add]
  exact h.pointers j hj

/-- The words of the command number `i` of a line. -/
def commandWords (line : List Byte) (i : Nat) : List Token :=
  wordsOf ((commandTokens (tokenize line)).getD i [])

/-- The strings that `sys_execve` reads for a command are its words. -/
def ArgvSurvives (m : PhysMem) (pml4 cr3 argv : Nat) (line : List Byte) (i : Nat)
    (cmd : ParsedCmd) : Prop :=
  readArgv m pml4 cr3 cmd.argOffsets.length argv = (commandWords line i).map (Token.text line)

/-- **Arguments survive** for commands with at most 32 words all of which arrive; by right only the
last can. -/
theorem argv_survives_iff (hlen : line.length ≤ MAX_INPUT)
    (hcmd : (parsePipeline line (tokenize line))[i]? = some cmd)
    (h : ArgvInMemory m pml4 cr3 base argv cmd) :
    ArgvSurvives m pml4 cr3 argv line i cmd ↔
      (commandWords line i).length ≤ MAX_ARGS ∧
        ∀ t ∈ commandWords line i, t.Arrives m pml4 cr3 base line := by
  have hline : cmd.inputLine = line := by rw [parsePipeline_inputLine hcmd, take_of_length_le hlen]
  obtain ⟨command, hcommand, hargs⟩ := parsePipeline_args hcmd
  have hwds : commandWords line i = wordsOf command := by
    rw [commandWords, getD_eq_getElem?_getD, hcommand, Option.getD_some]
  have hcut : ∀ t ∈ wordsOf command, t.Cut line := by
    intro t ht
    rw [wordsOf, mem_filter, decide_eq_true_eq] at ht
    exact tokenizeFrom_cut (i := 0) rfl
      (mem_of_mem_commandTokens (mem_of_getElem? hcommand) ht.1) ht.2
  have hroom : cmd.argOffsets.length ≤ 64 := by
    rw [hargs, argsOf, length_take]
    exact le_trans (min_le_left _ _) (by decide)
  rw [ArgvSurvives, hwds, readArgv_eq h hroom, hargs]
  by_cases hmany : (wordsOf command).length ≤ MAX_ARGS
  · rw [argsOf, take_of_length_le (by rwa [length_map]), map_map, map_inj_left, and_iff_right hmany]
    exact forall₂_congr fun t ht => readString_word h hline hlen (hcut t ht)
  refine iff_of_false (fun heq => ?_) fun hall => hmany hall.1
  have hcnt := congrArg length heq
  rw [argsOf, length_map, length_map, length_take] at hcnt
  omega

/-! ## Two command lines -/

def pointerBytes (p : Nat) : List Byte := (List.range 8).map fun i => BitVec.ofNat 8 (p / 256 ^ i)

/-- The tables of an address space with one user page, at 0x400000. -/
def shellTables : PhysMem :=
  [(3, 0, 4), (4, 0, 5), (5, 2, 6), (6, 0, 7)].foldl
    (fun m e => PhysMem.setEntry m e.1 e.2.1
      (Pte.setAddr e.2.2 (Pte.PRESENT ||| Pte.WRITABLE ||| Pte.USER_ACCESSIBLE)))
    (Lib.Store.const (Lib.Store.const 0))

/-- The page with the copy of the line, and the pointers 1024 bytes behind it. -/
def shellPage (cmd : ParsedCmd) : PhysMem :=
  (shellTables.writeBytes (7 * PAGE_SIZE) cmd.inputLine).writeBytes (7 * PAGE_SIZE + 1024)
    (cmd.argOffsets.flatMap fun a => pointerBytes (0x400000 + a.1))

lemma shellTables_byte (hi : i < PAGE_SIZE) : shellTables.byte (7 * PAGE_SIZE + i) = 0 := by
  have hfrm : (7 * PAGE_SIZE + i) / PAGE_SIZE = 7 := by
    unfold PAGE_SIZE at *
    omega
  have hent : ∀ j, shellTables.entry 7 j = 0 := fun _ => rfl
  rw [PhysMem.byte, hfrm, hent]
  simp [getByte]

lemma shellPage_byte (hi : i < MAX_INPUT) :
    (shellPage cmd).byte (7 * PAGE_SIZE + i) = cmd.inputLine.getD i 0 := by
  have hmax : MAX_INPUT = 512 := rfl
  rw [shellPage, PhysMem.byte_writeBytes, if_neg (by omega), PhysMem.byte_writeBytes]
  split_ifs with hin
  · rw [Nat.add_sub_cancel_left]
  · rw [shellTables_byte (by unfold PAGE_SIZE; omega), getD_eq_default _ _ (by omega)]

lemma walk_page {va : Nat} (hva : va % PAGE_SIZE = 0) (hi : i < PAGE_SIZE) :
    walkPageTableToPte m cr3 (va + i) = walkPageTableToPte m cr3 va := by
  have hpage : (va + i) / 2 ^ 12 = va / 2 ^ 12 := by
    unfold PAGE_SIZE at *
    omega
  have hidx : ∀ k, (va + i) / 2 ^ (12 + k) = va / 2 ^ (12 + k) := fun k => by
    rw [Nat.pow_add, ← Nat.div_div_eq_div_mul, ← Nat.div_div_eq_div_mul, hpage]
  have h4 : pml4Index (va + i) = pml4Index va := congrArg (· % 512) (hidx 27)
  have h3 : pdptIndex (va + i) = pdptIndex va := congrArg (· % 512) (hidx 18)
  have h2 : pdIndex (va + i) = pdIndex va := congrArg (· % 512) (hidx 9)
  have h1 : ptIndex (va + i) = ptIndex va := congrArg (· % 512) hpage
  rw [walkPageTableToPte, walkPageTableToPte, h4, h3, h2, h1]

lemma mapped_page {va : Nat} (hva : va % PAGE_SIZE = 0) (hpos : va ≠ 0) (hva' : va < 2 ^ 47)
    (hi : i < PAGE_SIZE) :
    isUserBufferMapped m pml4 (va + i) 1 = isUserBufferMapped m pml4 va 1 := by
  have hpage : (va + i) / PAGE_SIZE = va / PAGE_SIZE := by
    unfold PAGE_SIZE at *
    omega
  have hend : (va + i + 1 - 1) % 2 ^ 64 = va + i := by
    unfold PAGE_SIZE at *
    omega
  have hend' : (va + 1 - 1) % 2 ^ 64 = va := by omega
  rw [isUserBufferMapped, isUserBufferMapped, if_neg (by omega), if_neg (by omega), hend, hend']
  simp only [hpage]

lemma shellPage_line (hwalk : walkPageTableToPte (shellPage cmd) 3 0x400000 = some (6, 0))
    (hent : Pte.addr ((shellPage cmd).entry 6 0) = 7)
    (hmap : isUserBufferMapped (shellPage cmd) 3 0x400000 1 = true) (hi : i < MAX_INPUT) :
    isValidUserRange (0x400000 + i) 1 = true ∧
      isUserBufferMapped (shellPage cmd) 3 (0x400000 + i) 1 = true ∧
      Sys.loadByte (shellPage cmd) 3 (0x400000 + i) = cmd.inputLine.getD i 0 := by
  have hpage : i < PAGE_SIZE := lt_of_lt_of_le hi (by decide)
  refine ⟨?_, ?_, ?_⟩
  · have hmax : MAX_INPUT = 512 := rfl
    rw [isValidUserRange, if_neg (by omega)]
    simp only [Bool.and_eq_true, decide_eq_true_eq]
    unfold USER_ADDR_MAX
    omega
  · rw [mapped_page (by decide) (by decide) (by decide) hpage, hmap]
  have hoff : (0x400000 + i) % PAGE_SIZE = i := by
    unfold PAGE_SIZE at *
    omega
  simp only [Sys.loadByte, walk_page (show 0x400000 % PAGE_SIZE = 0 by decide) hpage,
    hwalk, hent, hoff]
  exact shellPage_byte hi

/-- The line `/bin/cat`: a program, not the command `cat` that the shell has built in. -/
def catLine : List Byte := [0x2F, 0x62, 0x69, 0x6E, 0x2F, 0x63, 0x61, 0x74]

def catCmd : ParsedCmd := ⟨catLine, [(0, 8)], [], [], false⟩

/-- The line `/bin/cat f`. -/
def catFileLine : List Byte := catLine ++ [0x20, 0x66]

def catFileCmd : ParsedCmd := ⟨catFileLine, [(0, 8), (9, 10)], [], [], false⟩

lemma shellPage_cat : ArgvInMemory (shellPage catCmd) 3 3 0x400000 0x400400 catCmd where
  line _ hi := shellPage_line (by decide +kernel) (by decide +kernel) (by decide +kernel) hi
  pointers := by decide +kernel

/-- The line `/bin/cat`: the word arrives. -/
theorem argv_survives_iff_cat : ArgvSurvives (shellPage catCmd) 3 3 0x400400 catLine 0 catCmd :=
  (argv_survives_iff (by decide) (by decide +kernel) shellPage_cat).mpr
    ⟨by decide +kernel, by decide +kernel⟩

/-- The line `/bin/cat f`: the first string that is read is the whole line. -/
theorem argv_runs_together :
    (parsePipeline catFileLine (tokenize catFileLine))[0]? = some catFileCmd ∧
    ArgvInMemory (shellPage catFileCmd) 3 3 0x400000 0x400400 catFileCmd ∧
      ¬ ArgvSurvives (shellPage catFileCmd) 3 3 0x400400 catFileLine 0 catFileCmd := by
  refine ⟨by decide +kernel, ⟨fun i hi => ?_, by decide +kernel⟩, ?_⟩
  · exact shellPage_line (by decide +kernel) (by decide +kernel) (by decide +kernel) hi
  · unfold ArgvSurvives
    decide +kernel

end Indominus.User
