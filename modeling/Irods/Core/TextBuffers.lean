-- SUMMARY: Text appended to growing buffers, and text split at a character.
import Irods.Api.RodsDef
import Irods.Base.CInt
import Irods.Base.CString
import Mathlib.Data.List.TakeWhile

/-!
# Growing buffers and splitting

`appendToByteBuf` and `appendToByteBufNew` count in `int`; a `malloc` of a negative length has no
result. `rSplitStr` splits at the first occurrence of a character and `splitPathByKey` at the last one.
-/

namespace TextBuffers

open List (append_assoc concat_eq_append dropWhile_cons length_append length_cons length_nil mem_cons
  singleton_append takeWhile_cons)

def USER_STRLEN_TOOLONG : Int := -306000
def SYS_INVALID_FILE_PATH : Int := -31000

/-! ## Appending -/

/-- The text in the block, and the recorded length of the block. -/
structure BytesBuf where
  buf : Option Text
  len : Int

/-- The buffer, and how far into the block was written. The first block is cleared as a whole
by `appendToByteBufNew` only. -/
def appendText (clear : Bool) (b : BytesBuf) (str : Text) : Option (BytesBuf × Int) :=
  let i := int32 str.length
  match b.buf with
  | none =>
    let len := int32 (i + 1 + MAX_NAME_LEN * 5)
    if len < 0 then none
    else some (⟨some str, len⟩, if clear then max len (str.length + 1) else str.length + 1)
  | some buf =>
    let j := int32 buf.length
    if int32 (i + j) < b.len then some (⟨some (buf ++ str), b.len⟩, buf.length + str.length + 1)
    else
      let len := int32 (j + i + 1 + MAX_NAME_LEN * 5)
      if len < 0 then none else some (⟨some (buf ++ str), len⟩, buf.length + str.length + 1)

def appendToByteBuf : BytesBuf → Text → Option (BytesBuf × Int) := appendText false
def appendToByteBufNew : BytesBuf → Text → Option (BytesBuf × Int) := appendText true

/-- `true` for `appendToByteBufNew`. -/
def appendEither (new : Bool) : BytesBuf → Text → Option (BytesBuf × Int) :=
  if new then appendToByteBufNew else appendToByteBuf

/-- The buffer in the end, and for each call how far it wrote and the length that was recorded then. -/
def appends : List (Bool × Text) → BytesBuf → Option (BytesBuf × List (Int × Int))
  | [], b => some (b, [])
  | (new, str) :: strs, b => do
    let (b, upTo) ← appendEither new b str
    let (b', writes) ← appends strs b
    return (b', (upTo, b.len) :: writes)

/-- The block holds the text and its terminator. -/
def BytesBuf.Holds (b : BytesBuf) (text : Text) : Prop :=
  b.buf = none ∧ text = [] ∨ b.buf = some text ∧ (text.length : Int) < b.len ∧ b.len < intBound

theorem appendText_spec (clear : Bool) {b : BytesBuf} {text : Text} (hb : b.Holds text) (str : Text)
    (hlen : text.length + str.length + 1 + MAX_NAME_LEN * 5 < intBound) :
    ∃ len upTo, appendText clear b str = some (⟨some (text ++ str), len⟩, upTo) ∧
      ((text ++ str).length : Int) < len ∧ len < intBound ∧ upTo ≤ len := by
  obtain ⟨buf, len⟩ := b
  have hint (n : Nat) (h : n < intBound) : int32 n = n := int32_natCast h
  have hi := hint str.length (by omega)
  have hnew := hint (text.length + str.length + 1 + MAX_NAME_LEN * 5) hlen
  rw [length_append]
  push_cast at hnew ⊢
  obtain ⟨rfl, rfl⟩ | ⟨rfl, hroom, hbound⟩ := hb
  · simp only [length_nil, Int.natCast_zero, Int.zero_add, Nat.zero_add] at hnew hlen ⊢
    have hpos : ¬ (str.length + 1 + MAX_NAME_LEN * 5 : Int) < 0 := by omega
    simp only [appendText, hi, hnew, if_neg hpos]
    refine ⟨_, _, rfl, ?_, ?_, ?_⟩
    · omega
    · omega
    · split
      · omega
      · omega
  · have hj := hint text.length (by omega)
    have hsum := hint (str.length + text.length) (by omega)
    push_cast at hsum
    have hpos : ¬ (text.length + str.length + 1 + MAX_NAME_LEN * 5 : Int) < 0 := by omega
    simp only [appendText, hi, hj, hsum, hnew, if_neg hpos]
    split
    · exact ⟨_, _, rfl, by omega, hbound, by omega⟩
    · exact ⟨_, _, rfl, by omega, by omega, by omega⟩

theorem appends_spec (strs : List (Bool × Text)) {b : BytesBuf} {text : Text} (hb : b.Holds text)
    (hlen : (text ++ strs.flatMap Prod.snd).length + 1 + MAX_NAME_LEN * 5 < intBound) :
    ∃ b' writes, appends strs b = some (b', writes) ∧ b'.Holds (text ++ strs.flatMap Prod.snd) ∧
      (strs ≠ [] → b'.buf.isSome) ∧ writes.length = strs.length ∧ ∀ w ∈ writes, w.1 ≤ w.2 := by
  induction strs generalizing b text with
  | nil => exact ⟨b, [], rfl, by simpa using hb, fun h => absurd rfl h, rfl, nofun⟩
  | cons new strs ih =>
    obtain ⟨new, str⟩ := new
    rw [List.flatMap_cons, ← append_assoc] at hlen ⊢
    have hstr : text.length + str.length + 1 + MAX_NAME_LEN * 5 < intBound := by
      simp only [length_append] at hlen
      omega
    obtain ⟨len, upTo, hrun, hroom, hbound, hupTo⟩ := appendText_spec new hb str hstr
    obtain ⟨b', writes, hruns, hholds', hsome', hcount, hwrites⟩ := ih (b := ⟨some (text ++ str), len⟩)
      (.inr ⟨rfl, hroom, hbound⟩) hlen
    have happend : appendEither new b str = some (⟨some (text ++ str), len⟩, upTo) := by
      rw [← hrun]
      cases new <;> rfl
    refine ⟨b', (upTo, len) :: writes, ?_, hholds', fun _ => ?_, congrArg Nat.succ hcount,
      List.forall_mem_cons.mpr ⟨hupTo, hwrites⟩⟩
    · simp [appends, happend, hruns]
    · cases strs with
      | nil =>
        obtain ⟨rfl, -⟩ := Prod.mk.inj (Option.some.inj hruns)
        rfl
      | cons _ _ => exact hsome' (List.cons_ne_nil _ _)

/-- As long as the text and the reserve are within an `int`, the buffer holds what was appended, and
no write leaves the block. -/
theorem appends_concat (strs : List (Bool × Text)) (hne : strs ≠ [])
    (hlen : (strs.flatMap Prod.snd).length + 1 + MAX_NAME_LEN * 5 < intBound) :
    ∃ b writes, appends strs ⟨none, 0⟩ = some (b, writes) ∧ b.buf = some (strs.flatMap Prod.snd) ∧
      writes.length = strs.length ∧ ∀ w ∈ writes, w.1 ≤ w.2 := by
  obtain ⟨b, writes, hrun, hholds, hsome, hcount, hwrites⟩ := appends_spec strs (b := ⟨none, 0⟩) (.inl ⟨rfl, rfl⟩) hlen
  obtain ⟨buf, hbuf⟩ := Option.isSome_iff_exists.mp (hsome hne)
  refine ⟨b, writes, hrun, ?_, hcount, hwrites⟩
  obtain ⟨hnone, -⟩ | ⟨hsome, -⟩ := hholds
  · rw [hnone] at hbuf
    cases hbuf
  · exact hsome

theorem appends_concat_two : ∃ b writes, appends [(true, ['a', 'b']), (false, ['c'])] ⟨none, 0⟩ = some (b, writes) ∧
    b.buf = some ['a', 'b', 'c'] ∧ writes.length = 2 ∧ ∀ w ∈ writes, w.1 ≤ w.2 :=
  appends_concat [(true, ['a', 'b']), (false, ['c'])] (by decide) (by decide)

/-- The reserve does not fit into an `int` behind the longest text. -/
theorem appends_overflow : (List.replicate 2147483647 'a').length < intBound ∧
    appends [(false, List.replicate 2147483647 'a')] ⟨none, 0⟩ = none := by
  have hlen : (List.replicate 2147483647 'a').length = 2147483647 := List.length_replicate
  refine ⟨by rw [hlen]; decide, ?_⟩
  have hneg : int32 (int32 (2147483647 : Nat) + 1 + MAX_NAME_LEN * 5) < 0 := by decide
  simp only [appends, appendEither, appendToByteBuf, appendText, hlen, if_pos hneg, Bool.false_eq_true, if_false]
  rfl

/-! ## Splitting -/

/-- What is in the first output, and what is left behind the key; `.error` has the number of bytes
that were written when the length test failed. -/
def rSplitLoop (key : Char) (maxOutLen1 : Int) : (outStr1 inPtr : Text) → Except Nat (Text × Text)
  | outStr1, [] => .ok (outStr1, [])
  | outStr1, c :: inPtr =>
    if c = key then .ok (outStr1, inPtr)
    -- the character is stored before the test
    else if maxOutLen1 ≤ outStr1.length then .error (outStr1.length + 1)
    else rSplitLoop key maxOutLen1 (outStr1 ++ [c]) inPtr

/-- `written` counts the bytes of the first output, with the terminator. -/
structure SplitStr where
  status : Int
  outStr1 : Text
  outStr2 : Text
  written : Nat

def rSplitStr (inStr : Text) (maxOutLen1 maxOutLen2 : Int) (key : Char) : SplitStr :=
  match rSplitLoop key maxOutLen1 [] inStr with
  | .error written => ⟨USER_STRLEN_TOOLONG, [], [], written⟩
  | .ok (outStr1, inPtr) =>
    if maxOutLen2 ≤ inPtr.length then ⟨USER_STRLEN_TOOLONG, outStr1, [], outStr1.length + 1⟩
    else ⟨0, outStr1, inPtr, outStr1.length + 1⟩

/-- The scan from the end; the status, the directory and the file. -/
def splitPathLoop (srcPath : Text) (key : Char) : Nat → Int × Text × Text
  | 0 =>
    if srcPath[0]? = some key then (0, srcPath.take 1, srcPath.drop 1) else (SYS_INVALID_FILE_PATH, [], srcPath)
  | dirLen + 1 =>
    if srcPath[dirLen + 1]? = some key then (0, srcPath.take (dirLen + 1), srcPath.drop (dirLen + 2))
    else splitPathLoop srcPath key dirLen

def splitPathByKey (srcPath : Text) (key : Char) : Int × Text × Text :=
  if MAX_NAME_LEN ≤ srcPath.length then (USER_STRLEN_TOOLONG, [], [])
  else if srcPath = [] then (0, [], [])
  else splitPathLoop srcPath key (srcPath.length - 1)

variable {key : Char}

variable {maxOutLen1 : Int} {inPtr : Text} {out first second : Text}

/-- What is in front of the key, and what is behind it. -/
theorem rSplitLoop_ok (h : rSplitLoop key maxOutLen1 out inPtr = .ok (first, second)) :
    first = out ++ inPtr.takeWhile (· ≠ key) ∧
      (inPtr = inPtr.takeWhile (· ≠ key) ++ key :: second ∨ inPtr.takeWhile (· ≠ key) = inPtr ∧ second = []) := by
  induction inPtr generalizing out with
  | nil =>
    obtain ⟨rfl, rfl⟩ := Prod.mk.inj (Except.ok.inj h)
    exact ⟨(List.append_nil out).symm, .inr ⟨rfl, rfl⟩⟩
  | cons c inPtr ih =>
    unfold rSplitLoop at h
    by_cases hc : c = key
    · rw [if_pos hc] at h
      obtain ⟨rfl, rfl⟩ := Prod.mk.inj (Except.ok.inj h)
      simp [hc]
    · rw [if_neg hc] at h
      split at h
      · cases h
      · obtain ⟨hfirst, hsecond⟩ := ih h
        rw [takeWhile_cons, if_pos (by simpa using hc), hfirst, append_assoc, singleton_append]
        refine ⟨rfl, hsecond.imp (congrArg (c :: ·)) (.imp_left (congrArg (c :: ·)))⟩

theorem rSplitLoop_error {written : Nat} (h : rSplitLoop key maxOutLen1 out inPtr = .error written) :
    maxOutLen1 < written ∧ maxOutLen1 ≤ (out.length + (inPtr.takeWhile (· ≠ key)).length : Nat) := by
  induction inPtr generalizing out with
  | nil => cases h
  | cons c inPtr ih =>
    unfold rSplitLoop at h
    by_cases hc : c = key
    · rw [if_pos hc] at h
      cases h
    · rw [if_neg hc] at h
      split at h
      · obtain rfl := Except.error.inj h
        omega
      · obtain ⟨hwritten, hlen⟩ := ih h
        rw [takeWhile_cons, if_pos (by simpa using hc)]
        simp only [length_append, length_cons, length_nil] at hlen ⊢
        omega

theorem not_mem_takeWhile_ne (inStr : Text) : key ∉ inStr.takeWhile (· ≠ key) := fun h => by
  simpa using List.mem_takeWhile_imp h

theorem splitPathLoop_ok {srcPath dir file : Text} {n : Nat} (hlast : key ∉ srcPath.drop (n + 1))
    (h : splitPathLoop srcPath key n = (0, dir, file)) :
    key ∉ file ∧ (srcPath = dir ++ key :: file ∨ srcPath = key :: file ∧ dir = [key]) := by
  induction n with
  | zero =>
    unfold splitPathLoop at h
    split at h
    · rename_i hkey
      obtain ⟨-, rfl, rfl⟩ := h
      cases srcPath with
      | nil => cases hkey
      | cons c srcPath =>
        obtain rfl := Option.some.inj hkey
        exact ⟨hlast, .inr ⟨rfl, rfl⟩⟩
    · cases h
  | succ n ih =>
    unfold splitPathLoop at h
    split at h
    · rename_i hkey
      obtain ⟨-, rfl, rfl⟩ := h
      obtain ⟨hlt, hget⟩ := List.getElem?_eq_some_iff.mp hkey
      refine ⟨hlast, .inl ?_⟩
      rw [← hget, ← List.drop_eq_getElem_cons hlt, List.take_append_drop]
    · rename_i hkey
      refine ih (fun hmem => ?_) h
      by_cases hlt : n + 1 < srcPath.length
      · rw [List.drop_eq_getElem_cons hlt, mem_cons] at hmem
        exact hmem.elim (fun heq => hkey (heq ▸ List.getElem?_eq_getElem hlt)) hlast
      · rw [List.drop_eq_nil_of_le (Nat.not_lt.mp hlt)] at hmem
        cases hmem

/-- Splitting loses nothing; the first output is only within its bound if the first part is shorter. -/
theorem rSplitStr_within_iff (inStr : Text) (maxOutLen1 maxOutLen2 : Int) (key : Char) :
    (((rSplitStr inStr maxOutLen1 maxOutLen2 key).written : Int) ≤ maxOutLen1 ∧
      (∀ first second written, rSplitStr inStr maxOutLen1 maxOutLen2 key = ⟨0, first, second, written⟩ →
        key ∉ first ∧ (inStr = first ++ key :: second ∨ inStr = first ∧ second = [])) ∧
      ∀ srcPath dir file, srcPath ≠ [] → splitPathByKey srcPath key = (0, dir, file) →
        key ∉ file ∧ (srcPath = dir ++ key :: file ∨ srcPath = key :: file ∧ dir = [key])) ↔
    ((inStr.takeWhile (· ≠ key)).length : Int) < maxOutLen1 := by
  have hpath : ∀ srcPath dir file, srcPath ≠ [] → splitPathByKey srcPath key = (0, dir, file) →
      key ∉ file ∧ (srcPath = dir ++ key :: file ∨ srcPath = key :: file ∧ dir = [key]) := by
    intro srcPath dir file hne h
    unfold splitPathByKey at h
    split at h
    · cases h
    · refine splitPathLoop_ok ?_ h
      rw [List.drop_eq_nil_of_le (by omega)]
      exact List.not_mem_nil
  cases hloop : rSplitLoop key maxOutLen1 [] inStr with
  | error written =>
    obtain ⟨hwritten, hlen⟩ := rSplitLoop_error hloop
    rw [length_nil, Nat.zero_add] at hlen
    have hrun : rSplitStr inStr maxOutLen1 maxOutLen2 key = ⟨USER_STRLEN_TOOLONG, [], [], written⟩ := by
      rw [rSplitStr, hloop]
    rw [hrun]
    exact ⟨fun h => absurd h.1 (Int.not_le.mpr hwritten), fun h => absurd hlen (Int.not_le.mpr h)⟩
  | ok split =>
    obtain ⟨first, rest⟩ := split
    obtain ⟨rfl, hsplit⟩ := rSplitLoop_ok hloop
    rw [List.nil_append] at hloop
    have hwritten : (rSplitStr inStr maxOutLen1 maxOutLen2 key).written = (inStr.takeWhile (· ≠ key)).length + 1 := by
      simp only [rSplitStr, hloop]
      split
      · rfl
      · rfl
    rw [hwritten]
    refine ⟨fun h => h.1, fun h => ⟨h, fun first second written hrun => ?_, hpath⟩⟩
    simp only [rSplitStr, hloop] at hrun
    split at hrun
    · cases hrun
    · obtain ⟨-, rfl, rfl, -⟩ := hrun
      exact ⟨not_mem_takeWhile_ne inStr, hsplit.imp id (.imp_left Eq.symm)⟩

/-- A first part as long as the buffer leaves no room for the terminator. -/
theorem rSplitStr_overrun : ¬ ((rSplitStr ['a', 'b', '.'] 2 8 '.').written : Int) ≤ 2 ∧
    (rSplitStr ['a', 'b', '.'] 2 8 '.').status = 0 := by decide

end TextBuffers
