-- SUMMARY: The two kinds of rule sources the lexer reads from.
import Irods.Base.CInt
import Irods.Base.Machine
import Mathlib.Data.List.TakeWhile

/-!
# Rule sources

A `Pointer` reads the rules from a file, through a window of `POINTER_BUF_SIZE` characters that is
moved on by half of what it holds, or from a string in memory. Either way the lexer sees a position
in the content: that is the cursor, and every operation of a pointer is an operation of the cursor.
-/

namespace Pointer

open Option (bind_eq_bind bind_some)

def POINTER_BUF_SIZE : Nat := 16 * 1024

/-- A `char` as an `int`. -/
def charInt (c : UInt8) : Int := if c.toNat < 128 then c.toNat else c.toNat - 256

/-- What the lexer calls, with positions in place of labels. -/
inductive Op where
  | lookAhead (n : Nat)
  | nextChar
  | getFPos
  | seekInFile (x : Nat)
  | dupString (start n : Nat)
deriving DecidableEq

/-- The content is without the characters that end a string or look like the end of a file. -/
def Plain (content : List UInt8) : Prop := ∀ c ∈ content, c ≠ 0 ∧ c ≠ 0xFF

instance (content : List UInt8) : Decidable (Plain content) :=
  inferInstanceAs (Decidable (∀ c ∈ content, c ≠ 0 ∧ c ≠ 0xFF))

inductive Answer where
  | char (ch : Int)
  | position (exprloc : Nat)
  | done
  | string (buf : List UInt8) (len : Int)
deriving DecidableEq

/-! ## Cursor -/

namespace Cursor

/-- The character at a position; `-1` behind the last one. -/
def look (content : List UInt8) (i : Nat) : Int :=
  match content[i]? with
  | some c => charInt c
  | none => -1

def step (content : List UInt8) (pos : Nat) : Op → Nat × Answer
  | .lookAhead n => (pos, .char (look content (pos + n)))
  | .nextChar => (pos + 1, .char (look content (pos + 1)))
  | .getFPos => (pos, .position pos)
  | .seekInFile x => (x, .done)
  | .dupString start n => (pos, .string ((content.drop start).take n) ((content.drop start).take n).length)

def machine (content : List UInt8) : Machine Nat Op Answer := ⟨fun pos op => some (step content pos op)⟩

/-- Looking ahead reaches less than half a buffer, and the operations stay in the content. -/
def Allowed (content : List UInt8) (pos : Nat) : Op → Prop
  | .lookAhead n => n < POINTER_BUF_SIZE / 2
  | .nextChar => pos < content.length
  | .getFPos => True
  | .seekInFile x => x ≤ content.length
  | .dupString start n => start ≤ content.length ∧ n < POINTER_BUF_SIZE / 2

instance (content : List UInt8) (pos : Nat) : ∀ op, Decidable (Allowed content pos op)
  | .lookAhead n => inferInstanceAs (Decidable (n < POINTER_BUF_SIZE / 2))
  | .nextChar => inferInstanceAs (Decidable (pos < content.length))
  | .getFPos => inferInstanceAs (Decidable True)
  | .seekInFile x => inferInstanceAs (Decidable (x ≤ content.length))
  | .dupString start n => inferInstanceAs (Decidable (start ≤ content.length ∧ n < POINTER_BUF_SIZE / 2))

end Cursor

/-! ## Files -/

/-- A pointer into a file: the first `len` characters of the buffer, the next character in it,
where it begins in the file, and where the file is read next. -/
structure FilePointer where
  buf : List UInt8
  p : Nat
  fpos : Nat
  fp : Nat
deriving DecidableEq

namespace FilePointer

def len (s : FilePointer) : Nat := s.buf.length

def initPointer : FilePointer := ⟨[], 0, 0, 0⟩

def readToBuffer (content : List UInt8) (s : FilePointer) : FilePointer :=
  let move := (s.len + 1) / 2
  let move := if s.p < move then s.p else move
  let startpos := s.len - move
  let load := POINTER_BUF_SIZE - startpos
  let chars := (content.drop s.fp).take load
  ⟨s.buf.drop move ++ chars, s.p - move, s.fpos + move, s.fp + chars.length⟩

def lookAhead (content : List UInt8) (s : FilePointer) (n : Nat) : FilePointer × Int :=
  match s.buf[s.p + n]? with
  | some c => (s, charInt c)
  | none =>
    let s := readToBuffer content s
    match s.buf[s.p + n]? with
    | some c => (s, charInt c)
    | none => (s, -1)

def nextChar (content : List UInt8) (s : FilePointer) : FilePointer × Int :=
  let (s, ch) := lookAhead content s 1
  ({ s with p := s.p + 1 }, ch)

def getFPos (s : FilePointer) : Nat := s.fpos + s.p

def clearBuffer (s : FilePointer) : FilePointer := { s with buf := [], p := 0, fpos := s.fpos + s.len }

def seekInFile (content : List UInt8) (s : FilePointer) (x : Nat) : FilePointer :=
  if s.fpos < x ∨ x ≤ s.fpos + s.len then
    readToBuffer content { clearBuffer { s with fp := x } with fpos := x }
  else { s with p := x - s.fpos }

/-- The loop of `dupString`, for `n` more characters. -/
def copyChars (content : List UInt8) : Nat → FilePointer → FilePointer × List UInt8
  | 0, s => (s, [])
  | n + 1, s =>
    let (s, ch) := lookAhead content s 0
    if ch = -1 then (s, [])
    else
      let (s, _) := nextChar content s
      let (s, buf) := copyChars content n s
      (s, UInt8.ofNat (ch % 256).toNat :: buf)

def dupString (content : List UInt8) (s : FilePointer) (start n : Nat) : FilePointer × List UInt8 :=
  let curr := getFPos s
  let s := seekInFile content s start
  let (s, buf) := copyChars content n s
  (seekInFile content s curr, buf)

def step (content : List UInt8) (s : FilePointer) : Op → FilePointer × Answer
  | .lookAhead n => ((lookAhead content s n).1, .char (lookAhead content s n).2)
  | .nextChar => ((nextChar content s).1, .char (nextChar content s).2)
  | .getFPos => (s, .position (getFPos s))
  | .seekInFile x => (seekInFile content s x, .done)
  | .dupString start n =>
    ((dupString content s start n).1, .string (dupString content s start n).2 (dupString content s start n).2.length)

def machine (content : List UInt8) : Machine FilePointer Op Answer := ⟨fun s op => some (step content s op)⟩

end FilePointer

/-! ## Strings -/

/-- An `unsigned int`. -/
def uint32 (x : Nat) : Nat := x % 2 ^ 32

/-- A pointer into a string: the next character and the length that was found first. -/
structure StringPointer where
  strp : Nat
  strlen : Nat
deriving DecidableEq

namespace StringPointer

/-- A character of the string or its terminator; `none` behind it. -/
def strbuf (content : List UInt8) (i : Nat) : Option UInt8 := (content ++ [0])[i]?

/-- The characters in front of the terminator; `none` from behind it. -/
def strlenFrom (content : List UInt8) (i : Nat) : Option Nat :=
  if i ≤ content.length then some ((content.drop i).takeWhile (· ≠ 0)).length else none

def initPointer2 (content : List UInt8) : Option StringPointer := do
  let strlen ← strlenFrom content 0
  return ⟨0, uint32 strlen⟩

def lookAhead (content : List UInt8) (s : StringPointer) (n : Nat) : Option Int :=
  if s.strlen ≤ uint32 (n + s.strp) then some (-1) else (strbuf content (uint32 (s.strp + n))).map charInt

def nextChar (content : List UInt8) (s : StringPointer) : Option (StringPointer × Int) := do
  let c ← strbuf content s.strp
  if c = 0 then return (s, -1)
  let s := { s with strp := uint32 (s.strp + 1) }
  let ch ← strbuf content s.strp
  return (s, if ch = 0 then -1 else charInt ch)

def seekInFile (s : StringPointer) (x : Nat) : StringPointer := { s with strp := uint32 x }

/-- `len` characters in front of a terminator; `memcpy` of a negative number is undefined. -/
def copied (content : List UInt8) (start : Nat) (len : Int) : Option (List UInt8 × Int) :=
  if len < 0 then none else some ((content.drop start).take len.toNat, len)

def dupString (content : List UInt8) (start n : Nat) : Option (List UInt8 × Int) :=
  (strlenFrom content start).bind fun len => copied content start (min n (int32 len))

def step (content : List UInt8) (s : StringPointer) : Op → Option (StringPointer × Answer)
  | .lookAhead n => return (s, .char (← lookAhead content s n))
  | .nextChar => do
    let (s, ch) ← nextChar content s
    return (s, .char ch)
  | .getFPos => some (s, .position s.strp)
  | .seekInFile x => some (seekInFile s x, .done)
  | .dupString start n => do
    let (buf, len) ← dupString content start n
    return (s, .string buf len)

def machine (content : List UInt8) : Machine StringPointer Op Answer := ⟨step content⟩

end StringPointer

/-! ## The window -/

/-- The buffer shows the content from `fpos` on, and the file is read behind it. -/
structure FilePointer.Shows (content : List UInt8) (s : FilePointer) : Prop where
  shown : s.buf <+: content.drop s.fpos
  behind : s.fp = s.fpos + s.len
  fits : s.len ≤ POINTER_BUF_SIZE
  inside : s.p ≤ s.len

variable {i n pos : Nat} {op : Op}

namespace FilePointer

variable {content : List UInt8} {s : FilePointer}

theorem initPointer_shows (content : List UInt8) : initPointer.Shows content := by
  exact ⟨List.nil_prefix, rfl, Nat.zero_le _, le_rfl⟩

theorem Shows.getElem (h : s.Shows content) (hi : i < s.len) : s.buf[i]? = content[s.fpos + i]? := by
  rw [List.prefix_iff_eq_take.mp h.shown, List.getElem?_take_of_lt (show i < s.buf.length from hi), List.getElem?_drop]

/-- What a refill makes of the window: it is full or reaches the end of the file, the next character
stays the next one and stands in the first half. -/
structure Refilled (content : List UInt8) (s s' : FilePointer) : Prop where
  shows : s'.Shows content
  full : s'.buf = (content.drop s'.fpos).take POINTER_BUF_SIZE
  same : s'.fpos + s'.p = s.fpos + s.p
  first : s'.p ≤ POINTER_BUF_SIZE / 2

theorem readToBuffer_refilled (h : s.Shows content) : Refilled content s (readToBuffer content s) := by
  have hfits := h.fits
  have hinside := h.inside
  obtain ⟨move, hmove, hp, hhalf⟩ : ∃ move, (if s.p < (s.len + 1) / 2 then s.p else (s.len + 1) / 2) = move ∧
      move ≤ s.p ∧ s.p - move ≤ POINTER_BUF_SIZE / 2 := by
    refine ⟨_, rfl, ?_⟩
    split <;> omega
  obtain ⟨chars, hchars⟩ : ∃ chars, (content.drop s.fp).take (POINTER_BUF_SIZE - (s.len - move)) = chars := ⟨_, rfl⟩
  have hread : readToBuffer content s = ⟨s.buf.drop move ++ chars, s.p - move, s.fpos + move, s.fp + chars.length⟩ := by
    rw [← hchars, ← hmove]
    rfl
  have hkeptLen : (s.buf.drop move).length = s.len - move := List.length_drop
  have hkept : s.buf.drop move = (content.drop (s.fpos + move)).take (s.len - move) := by
    nth_rewrite 1 [List.prefix_iff_eq_take.mp h.shown]
    rw [List.drop_take, List.drop_drop]
    rfl
  have hfull : s.buf.drop move ++ chars = (content.drop (s.fpos + move)).take POINTER_BUF_SIZE := by
    have hsize : POINTER_BUF_SIZE = s.len - move + (POINTER_BUF_SIZE - (s.len - move)) := by omega
    have hfp : s.fp = s.fpos + move + (s.len - move) := by
      rw [h.behind]
      omega
    rw [hkept, ← hchars, hfp]
    conv_rhs => rw [hsize, List.take_add, List.drop_drop]
  rw [hread]
  refine ⟨⟨hfull ▸ List.take_prefix _ _, ?_, ?_, ?_⟩, hfull, ?_, hhalf⟩
  · change s.fp + chars.length = s.fpos + move + (s.buf.drop move ++ chars).length
    rw [List.length_append, hkeptLen, h.behind]
    omega
  · rw [hfull]
    exact List.length_take_le _ _
  · change s.p - move ≤ (s.buf.drop move ++ chars).length
    rw [List.length_append, hkeptLen]
    omega
  · change s.fpos + move + (s.p - move) = s.fpos + s.p
    omega

/-- After a refill everything less than half a buffer ahead is in the window. -/
theorem Refilled.getElem {s' : FilePointer} (h : Refilled content s s') (hn : n < POINTER_BUF_SIZE / 2) :
    s'.buf[s'.p + n]? = content[getFPos s + n]? := by
  have hfirst := h.first
  have hsame := h.same
  rw [h.full, List.getElem?_take_of_lt (by omega), List.getElem?_drop, getFPos, ← hsame, Nat.add_assoc]

/-- The window has moved on but the position has not. -/
structure At (content : List UInt8) (pos : Nat) (s : FilePointer) : Prop where
  shows : s.Shows content
  pos : getFPos s = pos

theorem lookAhead_at (h : At content pos s) (hn : n < POINTER_BUF_SIZE / 2) :
    (lookAhead content s n).2 = Cursor.look content (pos + n) ∧ At content pos (lookAhead content s n).1 ∧
      (pos + n ≤ content.length → (lookAhead content s n).1.p + n ≤ (lookAhead content s n).1.len) := by
  have hpos := h.pos
  cases hbuf : s.buf[s.p + n]? with
  | some c =>
    have hlt : s.p + n < s.len := (List.getElem?_eq_some_iff.mp hbuf).1
    have hlook : content[pos + n]? = some c := by
      rw [← hbuf, h.shows.getElem hlt, ← hpos, getFPos, Nat.add_assoc]
    simp only [lookAhead, hbuf, Cursor.look, hlook]
    exact ⟨trivial, h, fun _ => hlt.le⟩
  | none =>
    have hrefill := readToBuffer_refilled h.shows
    have hat : At content pos (readToBuffer content s) := ⟨hrefill.shows, hrefill.same.trans hpos⟩
    have hlook := hrefill.getElem hn
    rw [hpos] at hlook
    have hroom (hle : pos + n ≤ content.length) :
        (readToBuffer content s).p + n ≤ (readToBuffer content s).len := by
      have hfirst := hrefill.first
      have hsame : (readToBuffer content s).fpos + (readToBuffer content s).p = pos := hat.pos
      rw [len, hrefill.full, List.length_take, List.length_drop]
      omega
    simp only [lookAhead, hbuf, hlook, Cursor.look]
    cases content[pos + n]? with
    | some c => exact ⟨rfl, hat, hroom⟩
    | none => exact ⟨rfl, hat, hroom⟩

theorem nextChar_at (h : At content pos s) (hpos : pos < content.length) :
    (nextChar content s).2 = Cursor.look content (pos + 1) ∧ At content (pos + 1) (nextChar content s).1 := by
  obtain ⟨hch, hat, hroom⟩ := lookAhead_at h (show 1 < POINTER_BUF_SIZE / 2 by decide)
  refine ⟨hch, ⟨hat.shows.shown, hat.shows.behind, hat.shows.fits, hroom hpos⟩, ?_⟩
  rw [← hat.pos]
  exact (Nat.add_assoc _ _ _).symm

/-- Every position is sought in the file. -/
theorem seekInFile_at (content : List UInt8) (s : FilePointer) (x : Nat) : At content x (seekInFile content s x) := by
  have hcleared : FilePointer.Shows content { clearBuffer { s with fp := x } with fpos := x } :=
    ⟨List.nil_prefix, rfl, Nat.zero_le _, le_rfl⟩
  have hrefill := readToBuffer_refilled hcleared
  rw [seekInFile, if_pos (by omega)]
  exact ⟨hrefill.shows, hrefill.same⟩

theorem charInt_ne (c : UInt8) (h : c ≠ 0xFF) : charInt c ≠ -1 := by
  have hne : c.toNat ≠ 255 := fun heq => h (UInt8.toNat_inj.mp heq)
  unfold charInt
  split <;> omega

theorem ofNat_charInt (c : UInt8) : UInt8.ofNat (charInt c % 256).toNat = c := by
  have hlt := c.toNat_lt
  have hmod : (charInt c % 256).toNat = c.toNat := by
    unfold charInt
    split <;> omega
  rw [hmod, UInt8.ofNat_toNat]

theorem copyChars_at (hplain : Plain content) : ∀ {n pos : Nat} {s : FilePointer}, At content pos s →
    (copyChars content n s).2 = (content.drop pos).take n := by
  intro n
  induction n with
  | zero => exact fun _ => rfl
  | succ n ih =>
    intro pos s h
    obtain ⟨hch, hat, -⟩ := lookAhead_at h (show 0 < POINTER_BUF_SIZE / 2 by decide)
    rw [Nat.add_zero] at hch
    cases hget : content[pos]? with
    | none =>
      have hlen := List.getElem?_eq_none_iff.mp hget
      simp only [Cursor.look, hget] at hch
      simp only [copyChars, hch, if_true]
      rw [List.drop_of_length_le hlen]
      rfl
    | some c =>
      obtain ⟨hlt, hc⟩ := List.getElem?_eq_some_iff.mp hget
      simp only [Cursor.look, hget] at hch
      have hnext := (nextChar_at hat hlt).2
      have hne := charInt_ne c (hplain c (hc ▸ List.getElem_mem hlt)).2
      simp only [copyChars, hch, if_neg hne]
      rw [ih hnext, ofNat_charInt, List.drop_eq_getElem_cons hlt, List.take_succ_cons, hc]

theorem dupString_at (hplain : Plain content) (h : At content pos s) (start n : Nat) :
    (dupString content s start n).2 = (content.drop start).take n ∧ At content pos (dupString content s start n).1 := by
  refine ⟨copyChars_at hplain (seekInFile_at content s start), ?_⟩
  rw [← h.pos]
  exact seekInFile_at content _ _

/-- A file pointer takes the steps of the cursor. -/
theorem step_at (hplain : Plain content) (h : At content pos s) (hop : Cursor.Allowed content pos op) :
    (step content s op).2 = (Cursor.step content pos op).2 ∧
      At content (Cursor.step content pos op).1 (step content s op).1 := by
  cases op with
  | lookAhead n =>
    obtain ⟨hch, hat, -⟩ := lookAhead_at h hop
    exact ⟨congrArg Answer.char hch, hat⟩
  | nextChar =>
    obtain ⟨hch, hat⟩ := nextChar_at h hop
    exact ⟨congrArg Answer.char hch, hat⟩
  | getFPos => exact ⟨congrArg Answer.position h.pos, h⟩
  | seekInFile x => exact ⟨rfl, seekInFile_at content s x⟩
  | dupString start n =>
    obtain ⟨hbuf, hat⟩ := dupString_at hplain h start n
    exact ⟨by simp only [step, Cursor.step, hbuf], hat⟩

end FilePointer

/-! ## The string -/

namespace StringPointer

variable {content : List UInt8} {s : StringPointer}

/-- The position is in the string and the length is right. -/
structure At (content : List UInt8) (pos : Nat) (s : StringPointer) : Prop where
  strp : s.strp = pos
  strlen : s.strlen = content.length
  inside : pos ≤ content.length

theorem uint32_eq {x : Nat} (h : x < 2 * intBound) : uint32 x = x := Nat.mod_eq_of_lt h

theorem half_le : POINTER_BUF_SIZE / 2 ≤ intBound := by decide

theorem strlenFrom_plain (hplain : Plain content) (hi : i ≤ content.length) :
    strlenFrom content i = some (content.length - i) := by
  rw [strlenFrom, if_pos hi, List.takeWhile_eq_self_iff.mpr, List.length_drop]
  exact fun c hc => decide_eq_true (hplain c (List.mem_of_mem_drop hc)).1

theorem strbuf_lt (hi : i < content.length) : strbuf content i = content[i]? :=
  List.getElem?_append_left hi

theorem strbuf_length (content : List UInt8) : strbuf content content.length = some 0 := List.getElem?_concat_length

theorem initPointer2_at (hplain : Plain content) (hlen : content.length < intBound) :
    ∃ s, initPointer2 content = some s ∧ At content 0 s := by
  refine ⟨⟨0, content.length⟩, ?_, rfl, rfl, Nat.zero_le _⟩
  simp only [initPointer2, strlenFrom_plain hplain (Nat.zero_le _), Nat.sub_zero, bind_eq_bind, bind_some,
    uint32_eq (show content.length < 2 * intBound by omega)]
  rfl

theorem lookAhead_at (hlen : content.length < intBound) (h : At content pos s) (hn : n < POINTER_BUF_SIZE / 2) :
    lookAhead content s n = some (Cursor.look content (pos + n)) := by
  have hinside := h.inside
  have hhalf := half_le
  have hsmall : pos + n < 2 * intBound := by omega
  rw [lookAhead, h.strlen, h.strp, Nat.add_comm n, uint32_eq hsmall]
  split
  · rename_i hle
    rw [Cursor.look, List.getElem?_eq_none hle]
  · rw [strbuf_lt (by omega), Cursor.look, List.getElem?_eq_getElem (by omega)]
    rfl

theorem nextChar_at (hplain : Plain content) (hlen : content.length < intBound) (h : At content pos s)
    (hpos : pos < content.length) :
    ∃ s', nextChar content s = some (s', Cursor.look content (pos + 1)) ∧
      At content (pos + 1) s' := by
  have hc := hplain _ (List.getElem_mem hpos)
  refine ⟨{ s with strp := pos + 1 }, ?_, rfl, h.strlen, hpos⟩
  simp only [nextChar, h.strp, strbuf_lt hpos, List.getElem?_eq_getElem hpos, bind_eq_bind, bind_some,
    if_neg hc.1, uint32_eq (show pos + 1 < 2 * intBound by omega), Option.pure_def]
  by_cases hnext : pos + 1 < content.length
  · have hd := hplain _ (List.getElem_mem hnext)
    simp only [strbuf_lt hnext, List.getElem?_eq_getElem hnext, bind_some, if_neg hd.1, Cursor.look]
  · have hend : pos + 1 = content.length := by omega
    simp only [hend, strbuf_length, bind_some, if_true, Cursor.look, List.getElem?_length]

theorem dupString_at (hplain : Plain content) (hlen : content.length < intBound) {start : Nat}
    (hstart : start ≤ content.length) (n : Nat) : dupString content start n =
      some ((content.drop start).take n, (((content.drop start).take n).length : Int)) := by
  obtain ⟨rest, hrest⟩ : ∃ rest, content.length - start = rest := ⟨_, rfl⟩
  have hint : int32 (rest : Int) = rest := int32_eq_self (by omega) (by omega)
  have htake : ((content.drop start).take n).length = min n rest := by rw [List.length_take, List.length_drop, hrest]
  have hmin : min (n : Int) (rest : Int) = (min n rest : Nat) := by omega
  have htext : (content.drop start).take (min n rest) = (content.drop start).take n := by
    rw [← hrest, ← List.length_drop, ← List.length_take]
    exact (List.prefix_iff_eq_take.mp ⟨_, List.take_append_drop n _⟩).symm
  rw [dupString, strlenFrom_plain hplain hstart, hrest, bind_some, hint, hmin, copied,
    if_neg (Int.not_lt.mpr (Int.natCast_nonneg _)), Int.toNat_natCast, htake, htext]

/-- A string pointer takes the steps of the cursor. -/
theorem step_at (hplain : Plain content) (hlen : content.length < intBound) (h : At content pos s)
    (hop : Cursor.Allowed content pos op) : ∃ s', step content s op = some (s', (Cursor.step content pos op).2) ∧
      At content (Cursor.step content pos op).1 s' := by
  cases op with
  | lookAhead n =>
    refine ⟨s, ?_, h⟩
    simp only [step, lookAhead_at hlen h hop, Cursor.step]
    rfl
  | nextChar =>
    obtain ⟨s', hnext, hat⟩ := nextChar_at hplain hlen h hop
    refine ⟨s', ?_, hat⟩
    simp only [step, hnext, Cursor.step]
    rfl
  | getFPos => exact ⟨s, by rw [step, h.strp]; rfl, h⟩
  | seekInFile x =>
    have hx : x ≤ content.length := hop
    exact ⟨seekInFile s x, rfl, uint32_eq (by omega), h.strlen, hx⟩
  | dupString start n =>
    refine ⟨s, ?_, h⟩
    simp only [step, dupString_at hplain hlen hop.1 n, Cursor.step]
    rfl

end StringPointer

/-! ## Both sources -/

variable {content : List UInt8} {ops : List Op}

/-- The operations stay in the content, from its start on. -/
def Within (content : List UInt8) (ops : List Op) : Prop :=
  (Cursor.machine content).Guarded (Cursor.Allowed content) 0 ops

instance (content : List UInt8) (ops : List Op) : Decidable (Within content ops) :=
  inferInstanceAs (Decidable ((Cursor.machine content).Guarded (Cursor.Allowed content) 0 ops))

/-- A file pointer and a string pointer over the content answer like the cursor. -/
def Agree (content : List UInt8) (ops : List Op) : Prop :=
  ∃ pos answers, (Cursor.machine content).run 0 ops = some (pos, answers) ∧
    (∃ s, (FilePointer.machine content).run FilePointer.initPointer ops = some (s, answers)) ∧
    ∃ s s', StringPointer.initPointer2 content = some s ∧ (StringPointer.machine content).run s ops = some (s', answers)

theorem cursor_total (content : List UInt8) (pos : Nat) (ops : List Op) :
    (Cursor.machine content).run pos ops ≠ none := by
  induction ops generalizing pos with
  | nil => exact Option.some_ne_none _
  | cons op ops ih =>
    intro h
    rw [Machine.run] at h
    split at h
    · rename_i hstep
      cases hstep
    · split at h
      · rename_i hrun
        exact ih _ hrun
      · cases h

/-- A machine that takes the steps of the cursor answers like it. -/
theorem run_at {σ : Type} {m : Machine σ Op Answer} {At : Nat → σ → Prop} {s : σ}
    (hstep : ∀ pos s op, At pos s → Cursor.Allowed content pos op →
      ∃ s', m.step s op = some (s', (Cursor.step content pos op).2) ∧ At (Cursor.step content pos op).1 s')
    (hat : At 0 s) (h : Within content ops) : ∃ pos s' answers,
      (Cursor.machine content).run 0 ops = some (pos, answers) ∧ m.run s ops = some (s', answers) := by
  have hagree (pos : Nat) (s : σ) (op : Op) (hat : At pos s) (hop : Cursor.Allowed content pos op) :
      ((Cursor.machine content).step pos op = none ∧ m.step s op = none) ∨
        ∃ pos' s' answer, (Cursor.machine content).step pos op = some (pos', answer) ∧
          m.step s op = some (s', answer) ∧ At pos' s' := by
    obtain ⟨s', hanswer, hat'⟩ := hstep pos s op hat hop
    exact .inr ⟨_, _, _, rfl, hanswer, hat'⟩
  rcases Machine.run_agree hagree hat h with ⟨hstuck, -⟩ | ⟨pos, s', answers, hcursor, hrun, -⟩
  · exact absurd hstuck (cursor_total content 0 ops)
  · exact ⟨pos, s', answers, hcursor, hrun⟩

theorem file_agrees (hplain : Plain content) (h : Within content ops) : ∃ pos s answers,
    (Cursor.machine content).run 0 ops = some (pos, answers) ∧
      (FilePointer.machine content).run FilePointer.initPointer ops = some (s, answers) := by
  have hinit : FilePointer.At content 0 FilePointer.initPointer := ⟨FilePointer.initPointer_shows content, rfl⟩
  refine run_at (m := FilePointer.machine content) (fun pos s op hat hop => ?_) hinit h
  obtain ⟨hanswer, hat'⟩ := FilePointer.step_at hplain hat hop
  exact ⟨_, congrArg some (Prod.ext rfl hanswer), hat'⟩

theorem string_agrees (hplain : Plain content) (hlen : content.length < intBound) (h : Within content ops) :
    ∃ pos s s' answers, (Cursor.machine content).run 0 ops = some (pos, answers) ∧
      StringPointer.initPointer2 content = some s ∧
      (StringPointer.machine content).run s ops = some (s', answers) := by
  obtain ⟨s, hinit, hat⟩ := StringPointer.initPointer2_at hplain hlen
  obtain ⟨pos, s', answers, hcursor, hstring⟩ :=
    run_at (m := StringPointer.machine content) (fun _ _ _ => StringPointer.step_at hplain hlen) hat h
  exact ⟨pos, s, s', answers, hcursor, hinit, hstring⟩

/-- A file and a string with the same content are the same source, up to the length an `int` holds. -/
theorem pointers_agree (hplain : Plain content) (hlen : content.length < 2 ^ 31) (h : Within content ops) :
    Agree content ops := by
  obtain ⟨pos, s, answers, hcursor, hfile⟩ := file_agrees hplain h
  obtain ⟨pos', s₀, s', answers', hcursor', hinit, hstring⟩ := string_agrees hplain hlen h
  obtain ⟨rfl, rfl⟩ := Prod.mk.inj (Option.some.inj (hcursor.symm.trans hcursor'))
  exact ⟨pos, answers, hcursor, ⟨s, hfile⟩, s₀, s', hinit, hstring⟩

/-- A text that the window does not hold. -/
def twoWindows : List UInt8 := 114 :: (List.replicate POINTER_BUF_SIZE 97 ++ [125])

/-- A look ahead over the end of the window, one behind the end of the text, a seek back and a copy. -/
def someOps : List Op :=
  [.nextChar, .seekInFile 16380, .lookAhead 3, .lookAhead 5, .nextChar, .lookAhead 100, .getFPos, .seekInFile 0,
    .dupString 1 8, .lookAhead 0]

theorem twoWindows_plain : Plain twoWindows := by
  intro c hc
  rw [twoWindows, List.mem_cons, List.mem_append, List.mem_replicate, List.mem_singleton] at hc
  rcases hc with rfl | ⟨-, rfl⟩ | rfl <;> decide

theorem pointers_agree_rule : Agree twoWindows someOps :=
  pointers_agree twoWindows_plain (by decide +kernel) (by decide +kernel)

def longText : List UInt8 := List.replicate intBound 97

/-- The rest of a text of 2^31 characters has a negative length as an `int`. -/
theorem long_text_not_copied :
    Plain longText ∧ Within longText [.dupString 0 1] ∧ ¬ Agree longText [.dupString 0 1] := by
  have hplain : Plain longText := by
    intro c hc
    rw [List.eq_of_mem_replicate hc]
    decide
  refine ⟨hplain, ⟨⟨Nat.zero_le _, by decide⟩, fun _ _ _ => trivial⟩, ?_⟩
  rintro ⟨pos, answers, -, -, s, s', -, hrun⟩
  have hlen : StringPointer.strlenFrom longText 0 = some intBound := by
    rw [StringPointer.strlenFrom_plain hplain (Nat.zero_le _), Nat.sub_zero, longText, List.length_replicate]
  have hdup : StringPointer.dupString longText 0 1 = none := by
    rw [StringPointer.dupString, hlen, bind_some]
    exact if_pos (by decide)
  obtain ⟨t, o, -, hstep, -, -⟩ := Machine.run_cons_eq_some.mp hrun
  simp only [StringPointer.machine, StringPointer.step, hdup, bind_eq_bind, Option.bind_none] at hstep
  cases hstep

end Pointer
