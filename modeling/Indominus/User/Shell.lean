import Indominus.Memory.PageTable
import Mathlib.Data.List.TakeWhile

/-!
# The command line of the shell (`userspace/shell/src/lib.rs`)

A token is a pair of positions; a command keeps a copy of the line.  An array with a count is a
list.
-/

namespace Indominus.User

open Memory List

def MAX_INPUT : Nat := 512

def MAX_ARGS : Nat := 32

def MAX_PATH : Nat := 256

def MAX_TOKENS : Nat := 64

def MAX_CMDS : Nat := 8

/-! ## Tokens -/

inductive TokenKind
  | word
  | pipe
  | redirectOut
  | appendOut
  | redirectIn
  deriving DecidableEq, Repr

structure Token where
  start : Nat
  stop : Nat
  kind : TokenKind
  deriving DecidableEq, Repr

def ascii (c : Char) : Byte := BitVec.ofNat 8 c.toNat

def isBlank (b : Byte) : Bool := b == ascii ' ' || b == ascii '\t'

def isWordByte (b : Byte) : Bool :=
  !(isBlank b || b == ascii '|' || b == ascii '>' || b == ascii '<')

/-- The loop of `tokenize` at position `i`, with room for `room` more tokens; `rest` is the input
from `i` on. -/
def tokenizeFrom : (room i : Nat) → (rest : List Byte) → List Token
  | 0, _, _ => []
  | room + 1, i, rest =>
    let blanks := (rest.takeWhile isBlank).length
    let i := i + blanks
    match rest.drop blanks with
    | [] => []
    | b :: tail =>
      if b = ascii '|' then ⟨i, i + 1, .pipe⟩ :: tokenizeFrom room (i + 1) tail
      else if b = ascii '>' then
        if tail.head? = some (ascii '>')
          then ⟨i, i + 2, .appendOut⟩ :: tokenizeFrom room (i + 2) (tail.drop 1)
        else ⟨i, i + 1, .redirectOut⟩ :: tokenizeFrom room (i + 1) tail
      else if b = ascii '<' then ⟨i, i + 1, .redirectIn⟩ :: tokenizeFrom room (i + 1) tail
      else if b = ascii '"' then
        let len := (tail.takeWhile (· ≠ ascii '"')).length
        -- without a closing quote there is nothing left
        ⟨i + 1, i + 1 + len, .word⟩ :: tokenizeFrom room (i + 1 + len + 1) (tail.drop (len + 1))
      else
        let len := ((b :: tail).takeWhile isWordByte).length
        ⟨i, i + len, .word⟩ :: tokenizeFrom room (i + len) ((b :: tail).drop len)

def tokenize (input : List Byte) : List Token := tokenizeFrom MAX_TOKENS 0 input

/-! ## Commands -/

/-- `ParsedCmd`; the copy of the line is followed by zeros up to `MAX_INPUT`. -/
structure ParsedCmd where
  inputLine : List Byte
  argOffsets : List (Nat × Nat)
  stdinFile : List Byte
  stdoutFile : List Byte
  appendMode : Bool
  deriving DecidableEq

/-- `ParsedCmd::new`, with the copy of the line. -/
def ParsedCmd.new (input : List Byte) : ParsedCmd := ⟨input.take MAX_INPUT, [], [], [], false⟩

/-- The name of a redirection.  What is copied is the operator itself. -/
def redirectName (input : List Byte) (t : Token) : List Byte :=
  (input.drop t.start).take (min (min t.stop input.length - t.start) (MAX_PATH - 1))

/-- `cmds[cmd_count] = current`, if there is room. -/
def pushCmd (cmds : List ParsedCmd) (current : ParsedCmd) : List ParsedCmd :=
  if cmds.length < MAX_CMDS then cmds ++ [current] else cmds

/-- The loop of `parse_pipeline`. -/
def parseLoop (input : List Byte) :
    List Token → (cmds : List ParsedCmd) → (current : ParsedCmd) → List ParsedCmd
  | [], cmds, current => if 0 < current.argOffsets.length then pushCmd cmds current else cmds
  | t :: tokens, cmds, current =>
    match t.kind with
    | .word =>
      parseLoop input tokens cmds (if current.argOffsets.length < MAX_ARGS then
        { current with argOffsets := current.argOffsets ++ [(t.start, min t.stop input.length)] }
        else current)
    | .redirectIn => parseLoop input tokens cmds { current with stdinFile := redirectName input t }
    | .redirectOut =>
      parseLoop input tokens cmds
        { current with stdoutFile := redirectName input t, appendMode := false }
    | .appendOut =>
      parseLoop input tokens cmds
        { current with stdoutFile := redirectName input t, appendMode := true }
    | .pipe => parseLoop input tokens (pushCmd cmds current) (ParsedCmd.new input)

def parsePipeline (input : List Byte) (tokens : List Token) : List ParsedCmd :=
  parseLoop input tokens [] (ParsedCmd.new input)

/-! ## Where the words are -/

lemma takeWhile_next {α : Type} (p : α → Bool) (l : List α) : (l.takeWhile p).length = l.length ∨
    ∃ a, l[(l.takeWhile p).length]? = some a ∧ p a = false := by
  induction l with
  | nil => exact .inl rfl
  | cons a l ih =>
    cases ha : p a with
    | false => exact .inr ⟨a, by rw [takeWhile_cons_of_neg (by simp [ha])]; rfl, ha⟩
    | true =>
      rw [takeWhile_cons_of_pos ha, length_cons, length_cons]
      obtain hall | ⟨b, hb, hpb⟩ := ih
      · exact .inl (by rw [hall])
      · exact .inr ⟨b, by rwa [getElem?_cons_succ], hpb⟩

/-- A word of the line: it ends with the line, or before a byte that is not zero. -/
structure Token.Cut (line : List Byte) (t : Token) : Prop where
  le : t.start ≤ t.stop
  stop_le : t.stop ≤ line.length
  ends : t.stop = line.length ∨ ∃ b, (line.drop t.stop).head? = some b ∧ b ≠ 0

variable {line rest : List Byte} {t : Token}

lemma Token.Cut.of_takeWhile {i : Nat} (hrest : rest = line.drop i) (hi : i ≤ line.length)
    {p : Byte → Bool} (hp : p 0 = true) (kind : TokenKind) :
    Token.Cut line ⟨i, i + (rest.takeWhile p).length, kind⟩ := by
  have hlen : rest.length = line.length - i := by rw [hrest, length_drop]
  have hinit : rest.takeWhile p <+: rest := takeWhile_prefix p
  have hle := hinit.length_le
  refine ⟨Nat.le_add_right _ _, by dsimp only; omega, ?_⟩
  obtain hall | ⟨b, hb, hpb⟩ := takeWhile_next p rest
  · exact .inl (by dsimp only; omega)
  refine .inr ⟨b, ?_, ?_⟩
  · rwa [hrest, getElem?_drop, ← hrest, ← head?_drop] at hb
  rintro rfl
  rw [hp] at hpb
  cases hpb

lemma tokenizeFrom_cut {room i : Nat} (hrest : rest = line.drop i)
    (ht : t ∈ tokenizeFrom room i rest) (hword : t.kind = .word) : t.Cut line := by
  induction room generalizing i rest with
  | zero => cases ht
  | succ room ih =>
    rw [tokenizeFrom] at ht
    have haft : rest.drop (rest.takeWhile isBlank).length =
      line.drop (i + (rest.takeWhile isBlank).length) := by
      rw [hrest, drop_drop]
    generalize i + (rest.takeWhile isBlank).length = j at ht haft
    generalize rest.drop (rest.takeWhile isBlank).length = after at ht haft
    cases after with
    | nil => cases ht
    | cons b tail =>
      have hj : j < line.length := by
        by_contra hge
        rw [drop_eq_nil_of_le (by omega)] at haft
        cases haft
      have htail : tail = line.drop (j + 1) := by rw [← drop_drop, ← haft]; rfl
      have hdrop : ∀ n, (b :: tail).drop n = line.drop (j + n) := fun n => by rw [haft, drop_drop]
      simp only at ht
      split_ifs at ht
      · -- a pipe, and the redirections after it: not words
        rcases mem_cons.mp ht with rfl | ht
        · cases hword
        · exact ih htail ht
      · rcases mem_cons.mp ht with rfl | ht
        · cases hword
        · exact ih (hdrop 2) ht
      · rcases mem_cons.mp ht with rfl | ht
        · cases hword
        · exact ih htail ht
      · rcases mem_cons.mp ht with rfl | ht
        · cases hword
        · exact ih htail ht
      · rcases mem_cons.mp ht with rfl | ht
        · exact .of_takeWhile htail hj (by decide) _
        refine ih ?_ ht
        rw [htail, drop_drop]
        rfl
      rcases mem_cons.mp ht with rfl | ht
      · exact .of_takeWhile haft hj.le (by decide) _
      · exact ih (hdrop _) ht

/-! ## Which words a command has -/

def wordsOf (tokens : List Token) : List Token := tokens.filter (·.kind = .word)

/-- The tokens of each command: what stands between the pipes. -/
def commandTokens (tokens : List Token) : List (List Token) := tokens.splitOnP (·.kind = .pipe)

/-- The arguments that a command with these words has room for. -/
def argsOf (input : List Byte) (words : List Token) : List (Nat × Nat) :=
  (words.map fun t => (t.start, min t.stop input.length)).take MAX_ARGS

lemma argsOf_concat {input : List Byte} {words : List Token} (t : Token) :
    argsOf input (words ++ [t]) = if (argsOf input words).length < MAX_ARGS then
      argsOf input words ++ [(t.start, min t.stop input.length)] else argsOf input words := by
  have hlen : (argsOf input words).length = min MAX_ARGS words.length := by
    rw [argsOf, length_take, length_map]
  unfold argsOf at *
  rw [map_append, take_append, length_map, map_singleton]
  split_ifs with hroom
  · rw [take_of_length_le (l := [_]) (by rw [length_singleton]; omega)]
  · have hfull : MAX_ARGS - words.length = 0 := by omega
    rw [hfull, take_zero, append_nil]

variable {input : List Byte} {tokens : List Token} {cmds : List ParsedCmd}
  {current cmd : ParsedCmd} {i : Nat}

lemma pushCmd_of_full (hfull : MAX_CMDS ≤ cmds.length) : pushCmd cmds current = cmds :=
  if_neg (not_lt.mpr hfull)

lemma parseLoop_of_full (hfull : MAX_CMDS ≤ cmds.length) :
    parseLoop input tokens cmds current = cmds := by
  induction tokens generalizing current with
  | nil =>
    rw [parseLoop, pushCmd_of_full hfull, ite_self]
  | cons t tokens ih =>
    rw [parseLoop]
    cases t.kind with
    | pipe =>
      simp only [pushCmd_of_full hfull]
      exact ih
    | _ => exact ih

lemma pushCmd_get (h : (pushCmd cmds current)[i]? = some cmd) :
    cmds[i]? = some cmd ∨ i = cmds.length ∧ cmd = current := by
  rw [pushCmd] at h
  split_ifs at h
  · rcases Nat.lt_trichotomy i cmds.length with hlt | rfl | hgt
    · rw [getElem?_append_left hlt] at h
      exact .inl h
    · rw [getElem?_concat_length] at h
      exact .inr ⟨rfl, (Option.some.inj h).symm⟩
    · rw [getElem?_eq_none (by rw [length_append, length_singleton]; omega)] at h
      cases h
  · exact .inl h

lemma commandTokens_pipe (ht : t.kind = .pipe) :
    commandTokens (t :: tokens) = [] :: commandTokens tokens := by
  rw [commandTokens, splitOnP_cons_eq_if_modifyHead, if_pos (by simp [ht]), commandTokens]

lemma commandTokens_cons (seen : List Token) (ht : t.kind ≠ .pipe) :
    (commandTokens (t :: tokens)).modifyHead (seen ++ ·) =
      (commandTokens tokens).modifyHead ((seen ++ [t]) ++ ·) := by
  rw [commandTokens, splitOnP_cons_eq_if_modifyHead, if_neg (by simp [ht]), modifyHead_modifyHead]
  congr 1
  funext l
  simp

lemma mem_of_mem_commandTokens {command : List Token} (hcmd : command ∈ commandTokens tokens)
    (ht : t ∈ command) : t ∈ tokens := by
  induction tokens generalizing command with
  | nil =>
    rw [commandTokens, splitOnP_nil, mem_singleton] at hcmd
    rwa [hcmd] at ht
  | cons u tokens ih =>
    rw [commandTokens, splitOnP_cons_eq_if_modifyHead, ← commandTokens] at hcmd
    split_ifs at hcmd
    · rcases mem_cons.mp hcmd with rfl | hcmd
      · cases ht
      · exact mem_cons_of_mem _ (ih hcmd ht)
    cases hrest : commandTokens tokens with
    | nil =>
      rw [hrest] at hcmd
      cases hcmd
    | cons first rest =>
      rw [hrest] at hcmd ih
      rcases mem_cons.mp hcmd with rfl | hcmd
      · rcases mem_cons.mp ht with rfl | ht
        · exact mem_cons_self
        · exact mem_cons_of_mem _ (ih mem_cons_self ht)
      · exact mem_cons_of_mem _ (ih (mem_cons_of_mem _ hcmd) ht)

lemma modifyHead_nil_append (l : List (List Token)) : l.modifyHead ([] ++ ·) = l := by
  cases l <;> rfl

/-- The arguments of a command are the words between its pipes. -/
lemma parseLoop_args {seen : List Token} (hargs : current.argOffsets = argsOf input (wordsOf seen))
    (hget : (parseLoop input tokens cmds current)[i]? = some cmd) : cmds[i]? = some cmd ∨
      ∃ j command, i = cmds.length + j ∧ ((commandTokens tokens).modifyHead (seen ++ ·))[j]? =
        some command ∧
        cmd.argOffsets = argsOf input (wordsOf command) := by
  induction tokens generalizing cmds current seen with
  | nil =>
    rw [parseLoop] at hget
    split_ifs at hget
    · obtain hold | ⟨rfl, rfl⟩ := pushCmd_get hget
      · exact .inl hold
      · exact .inr ⟨0, seen, rfl, by simp [commandTokens], hargs⟩
    · exact .inl hget
  | cons t tokens ih =>
    rw [parseLoop] at hget
    cases hkind : t.kind with
    | word =>
      simp only [hkind] at hget
      rw [commandTokens_cons seen (by simp [hkind])]
      refine ih ?_ hget
      have hwds : wordsOf (seen ++ [t]) = wordsOf seen ++ [t] := by simp [wordsOf, hkind]
      rw [hwds, argsOf_concat, ← hargs]
      split_ifs <;> rfl
    | pipe =>
      simp only [hkind] at hget
      rw [commandTokens_pipe hkind, modifyHead_cons, append_nil]
      by_cases hfull : MAX_CMDS ≤ cmds.length
      · rw [pushCmd_of_full hfull, parseLoop_of_full hfull] at hget
        exact .inl hget
      have hlen : (pushCmd cmds current).length = cmds.length + 1 := by
        rw [pushCmd, if_pos (not_le.mp hfull), length_append, length_singleton]
      obtain hold | ⟨j, command, rfl, hcmd, hargs'⟩ :=
        @ih (pushCmd cmds current) (.new input) [] rfl hget
      · obtain hold | ⟨rfl, rfl⟩ := pushCmd_get hold
        · exact .inl hold
        · exact .inr ⟨0, seen, rfl, rfl, hargs⟩
      · rw [modifyHead_nil_append] at hcmd
        exact .inr ⟨j + 1, command, by omega, hcmd, hargs'⟩
    | _ =>
      -- a redirection changes no argument
      simp only [hkind] at hget
      rw [commandTokens_cons seen (by simp [hkind])]
      refine ih ?_ hget
      have hwds : wordsOf (seen ++ [t]) = wordsOf seen := by simp [wordsOf, hkind]
      rw [hwds]
      exact hargs

lemma parsePipeline_args (hget : (parsePipeline input tokens)[i]? = some cmd) :
    ∃ command, (commandTokens tokens)[i]? = some command ∧
      cmd.argOffsets = argsOf input (wordsOf command) := by
  obtain hold | ⟨j, command, rfl, hcmd, hargs⟩ :=
    @parseLoop_args input tokens [] _ cmd i [] rfl hget
  · cases hold
  rw [modifyHead_nil_append] at hcmd
  refine ⟨command, ?_, hargs⟩
  rwa [length_nil, Nat.zero_add]

lemma parseLoop_inputLine (hcmds : ∀ c ∈ cmds, c.inputLine = input.take MAX_INPUT)
    (hcrt : current.inputLine = input.take MAX_INPUT) :
    ∀ c ∈ parseLoop input tokens cmds current, c.inputLine = input.take MAX_INPUT := by
  have hpush : ∀ {cmds : List ParsedCmd} {current : ParsedCmd},
      (∀ c ∈ cmds, c.inputLine = input.take MAX_INPUT) →
      current.inputLine = input.take MAX_INPUT →
        ∀ c ∈ pushCmd cmds current, c.inputLine = input.take MAX_INPUT := by
    intro cmds current hcmds hcrt c hc
    rw [pushCmd] at hc
    split_ifs at hc
    · rcases mem_append.mp hc with hc | hc
      · exact hcmds c hc
      · rwa [mem_singleton.mp hc]
    · exact hcmds c hc
  induction tokens generalizing cmds current with
  | nil =>
    rw [parseLoop]
    split_ifs
    · exact hpush hcmds hcrt
    · exact hcmds
  | cons t tokens ih =>
    rw [parseLoop]
    cases t.kind with
    | word =>
      refine ih hcmds ?_
      split_ifs
      · exact hcrt
      · exact hcrt
    | pipe => exact ih (hpush hcmds hcrt) rfl
    | _ => exact ih hcmds hcrt

lemma parsePipeline_inputLine (hget : (parsePipeline input tokens)[i]? = some cmd) :
    cmd.inputLine = input.take MAX_INPUT :=
  parseLoop_inputLine (by simp) rfl cmd (mem_of_getElem? hget)

end Indominus.User
