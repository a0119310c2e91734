-- SUMMARY: Property strings: keyValFromString reads back what keyValToString writes.
import Irods.Base.CBuffer
import Irods.Base.CInt
import Irods.Core.PairList
import Mathlib.Data.List.TakeWhile

/-!
# Property strings

`keyValToString` counts the bytes in an `int` before it writes. `keyValFromString` goes through the text by
indices; it puts an end behind the tag and the value while it adds the pair, and takes both back.
-/

namespace KeyValPair

open CBuffer
open List (append_assoc append_nil drop_left flatMap_cons length_append length_cons length_nil length_singleton
  mem_cons_of_mem mem_cons_self prefix_rfl replicate take_left)
open Option (bind_eq_bind bind_eq_some_iff bind_some)

def UNMATCHED_KEY_OR_INDEX : Int := -313000

/-! ## keyValToString -/

/-- The pair of an index, unless the key is NULL or empty or the value NULL. -/
def entry (list : KeyValPair) (i : Nat) : Option (Option (Text × Text)) := do
  match ← list.key[i]? with
  | none | some [] => return none
  | some k =>
    match ← list.value[i]? with
    | none => return none
    | some v => return some (k, v)

/-- The bytes of the pairs from `i` on, `n` of them, are added. -/
def countBytes (list : KeyValPair) (nBytes : Int) (i : Nat) : Nat → Option Int
  | 0 => some nBytes
  | n + 1 => do
    match ← entry list i with
    | none => countBytes list nBytes (i + 1) n
    | some (k, v) =>
      let nk := int32 k.length
      let nv := int32 v.length
      countBytes list (int32 (nBytes + (1 + nk + 1 + nv + 2 + nk + 1 + 1))) (i + 1) n

/-- `strcat` to a string at the beginning of a block. -/
def strcat (mem : Text) (src : Text) : Option Text := do
  store mem (← textAt mem 0).length (src ++ [nul])

def writePairs (list : KeyValPair) (mem : Text) (i : Nat) : Nat → Option Text
  | 0 => some mem
  | n + 1 => do
    match ← entry list i with
    | none => writePairs list mem (i + 1) n
    | some (k, v) =>
      let mem ← ["<".toList, k, ">".toList, v, "</".toList, k, ">\n".toList].foldlM strcat mem
      writePairs list mem (i + 1) n

/-- `malloc` and `memset`: as a `size_t`, a negative size is more than there is. -/
def allocate (nBytes : Int) : Option Text := if nBytes < 0 then none else some (cleared nBytes.toNat)

/-- The status with the block. -/
def keyValToString (list : KeyValPair) : Option (Int × Text) := do
  let nBytes ← countBytes list 0 0 list.len
  let string ← allocate (int32 (nBytes + 1))
  return (0, ← writePairs list string 0 list.len)

/-! ## keyValFromString -/

/-- `while (index < len && string[index] != c) ++index;` -/
def skipTo (c : Char) (string : Text) (len index : Nat) : Nat :=
  index + (((string.drop index).take (len - index)).takeWhile (· ≠ c)).length

/-- The loop, `fuel` times at most: the status, the list and the text. -/
def readPairs (string : Text) (len index : Nat) (list : KeyValPair) : Nat → Option (Int × KeyValPair × Text)
  | 0 => none
  | fuel + 1 => do
    let index := skipTo '<' string len index
    if index = len then return (0, list, string)
    let startTag := index + 1
    let endTag := skipTo '>' string len startTag
    if endTag = len then return (0, list, string)
    let startValue := endTag + 1
    let endValue := skipTo '<' string len startValue
    if endValue = len then return (0, list, string)
    let startCloseTag := endValue + 2
    let endCloseTag := skipTo '>' string len startCloseTag
    if endCloseTag = len then return (0, list, string)
    if endTag - startTag ≠ endCloseTag - startCloseTag then return (UNMATCHED_KEY_OR_INDEX, list, string)
    if (string.drop startTag).take (endTag - startTag) ≠ (string.drop startCloseTag).take (endTag - startTag) then
      return (UNMATCHED_KEY_OR_INDEX, list, string)
    let string := (string.set endTag nul).set endValue nul
    let list ← addKeyVal list (← textAt string startTag) (← textAt string startValue)
    let string := (string.set endTag '>').set endValue '<'
    readPairs string len endCloseTag list fuel

/-- Each round goes on by a character at least. -/
def keyValFromString (string : Text) : Option (Int × KeyValPair × Text) := do
  readPairs string (← textAt string 0).length 0 .empty (string.length + 1)

/-! ## Writing -/

/-- The pairs are in the first cells. -/
structure Lists (l : KeyValPair) (ps : List (Text × Text)) : Prop where
  len : l.len = ps.length
  key : Cells.Holds l.key (ps.map Prod.fst)
  value : Cells.Holds l.value (ps.map Prod.snd)

/-- `<key>value</key>` and a new line. -/
def pairText (p : Text × Text) : Text :=
  '<' :: (p.1 ++ '>' :: (p.2 ++ '<' :: '/' :: (p.1 ++ ['>', '\n'])))

def propertyText (ps : List (Text × Text)) : Text := ps.flatMap pairText

variable {back ps : List (Text × Text)} {i n : Nat} {k v : Text} {l : KeyValPair}

section Writing

variable {front : List (Text × Text)} {mem mem' s src : Text}

theorem entry_eq (h : Lists l (front ++ (k, v) :: back)) (hk : k ≠ []) : entry l front.length = some (some (k, v)) := by
  obtain ⟨c, k, rfl⟩ := List.exists_cons_of_ne_nil hk
  have hkeys : Cells.Holds l.key (front.map Prod.fst ++ (c :: k) :: back.map Prod.fst) := by simpa using h.key
  have hvalues : Cells.Holds l.value (front.map Prod.snd ++ v :: back.map Prod.snd) := by simpa using h.value
  have hkey := hkeys.getElem?_length
  have hvalue := hvalues.getElem?_length
  rw [List.length_map] at hkey hvalue
  simp only [entry, hkey, hvalue, bind_eq_bind, bind_some]
  rfl

/-- The count is the length of the text, as an `int` shows it. -/
theorem countBytes_eq (front : List (Text × Text)) (h : Lists l (front ++ back))
    (hne : ∀ k ∈ keys back, k ≠ []) (x : Int) :
    countBytes l (int32 x) front.length back.length = some (int32 (x + (propertyText back).length)) := by
  induction back generalizing front x with
  | nil => rw [propertyText, List.flatMap_nil, length_nil, length_nil, Int.natCast_zero, Int.add_zero]; rfl
  | cons p back ih =>
    obtain ⟨k, v⟩ := p
    have hrest := fun x => ih (front ++ [(k, v)]) (by simpa using h)
      (fun k hk => hne k (mem_cons_of_mem _ hk)) x
    rw [length_append, length_singleton] at hrest
    rw [length_cons, countBytes, entry_eq h (hne k mem_cons_self)]
    simp only [bind_eq_bind, bind_some]
    rw [hrest]
    obtain ⟨q, hq⟩ := exists_int32_eq x
    obtain ⟨qk, hqk⟩ := exists_int32_eq k.length
    obtain ⟨qv, hqv⟩ := exists_int32_eq v.length
    have hlen : (propertyText ((k, v) :: back)).length = 2 * k.length + v.length + 6 + (propertyText back).length := by
      simp only [propertyText, flatMap_cons, pairText, length_append, length_cons, length_nil]
      omega
    exact congrArg some (int32_congr (q + 2 * qk + qv) (by omega))

theorem strcat_spec (h : HasText mem 0 s) (hsrc : nul ∉ src) (hroom : s.length + src.length < mem.length) :
    ∃ mem', strcat mem src = some mem' ∧ HasText mem' 0 (s ++ src) ∧ mem'.length = mem.length := by
  obtain ⟨rest, hrest⟩ := h.chars
  have hmem : mem = s ++ nul :: rest := by simpa using hrest.symm
  have hinside : s.length + (src ++ [nul]).length ≤ mem.length := by
    rw [length_append, length_singleton]
    omega
  obtain ⟨mem', hstore⟩ : ∃ mem', store mem s.length (src ++ [nul]) = some mem' := ⟨_, store_eq hinside⟩
  refine ⟨mem', by rw [strcat, h.textAt]; exact hstore, ⟨?_, ?_⟩, length_store hstore⟩
  · exact fun hmem => (List.mem_append.mp hmem).elim h.ends hsrc
  · rw [store_eq hinside] at hstore
    obtain rfl := Option.some.inj hstore
    rw [List.drop_zero, hmem, take_left]
    exact ⟨_, by rw [append_assoc s, append_assoc]⟩

variable {pieces : List Text}

/-- Pieces are put behind a string as long as there is room. -/
theorem strcats_spec (h : HasText mem 0 s) (hpieces : ∀ p ∈ pieces, nul ∉ p)
    (hroom : s.length + pieces.flatten.length < mem.length) :
    ∃ mem', pieces.foldlM strcat mem = some mem' ∧ HasText mem' 0 (s ++ pieces.flatten) ∧ mem'.length = mem.length := by
  induction pieces generalizing mem s with
  | nil => exact ⟨mem, rfl, by rwa [List.flatten_nil, append_nil], rfl⟩
  | cons p pieces ih =>
    rw [List.flatten_cons, length_append] at hroom
    obtain ⟨mem₁, hcat, htext, hlen⟩ := strcat_spec h (hpieces p mem_cons_self) (by omega)
    obtain ⟨mem', hcats, htext', hlen'⟩ := ih htext (fun q hq => hpieces q (mem_cons_of_mem _ hq))
      (by rw [length_append]; omega)
    refine ⟨mem', ?_, by rwa [List.flatten_cons, ← append_assoc], hlen'.trans hlen⟩
    rw [List.foldlM_cons, hcat]
    exact hcats

/-- The texts are C strings. -/
def Ended (ps : List (Text × Text)) : Prop := ∀ p ∈ ps, nul ∉ p.1 ∧ nul ∉ p.2

theorem writePairs_spec (front : List (Text × Text)) (h : Lists l (front ++ back))
    (hne : ∀ k ∈ keys back, k ≠ []) (hended : Ended back)
    (htext : HasText mem 0 s) (hroom : s.length + (propertyText back).length < mem.length) :
    ∃ mem', writePairs l mem front.length back.length = some mem' ∧ HasText mem' 0 (s ++ propertyText back) ∧
      mem'.length = mem.length := by
  induction back generalizing front mem s with
  | nil => exact ⟨mem, rfl, by rwa [propertyText, List.flatMap_nil, append_nil], rfl⟩
  | cons p back ih =>
    obtain ⟨k, v⟩ := p
    obtain ⟨hk, hv⟩ := hended (k, v) mem_cons_self
    have hflat : ["<".toList, k, ">".toList, v, "</".toList, k, ">\n".toList].flatten = pairText (k, v) := by
      simp [pairText]
    have hpieces : ∀ p ∈ ["<".toList, k, ">".toList, v, "</".toList, k, ">\n".toList], nul ∉ p := by
      simpa [nul] using ⟨hk, hv, hk⟩
    rw [propertyText, flatMap_cons, length_append] at hroom
    obtain ⟨mem₁, hcats, htext₁, hlen₁⟩ := strcats_spec htext hpieces (by rw [hflat]; omega)
    rw [hflat] at htext₁
    obtain ⟨mem', hwrite, htext', hlen'⟩ := ih (front ++ [(k, v)]) (by simpa using h)
      (fun k hk => hne k (mem_cons_of_mem _ hk)) (fun p hp => hended p (mem_cons_of_mem _ hp)) htext₁
      (by rw [hlen₁, length_append, propertyText]; omega)
    refine ⟨mem', ?_, by simpa [propertyText] using htext', hlen'.trans hlen₁⟩
    rw [length_append, length_singleton] at hwrite
    rw [length_cons, writePairs, entry_eq h (hne k mem_cons_self)]
    simp only [bind_eq_bind, bind_some]
    rw [hcats]
    exact hwrite

theorem length_strcats (h : pieces.foldlM strcat mem = some mem') : mem'.length = mem.length := by
  induction pieces generalizing mem with
  | nil =>
    cases h
    rfl
  | cons p pieces ih =>
    obtain ⟨mem₁, hcat, hrest⟩ := bind_eq_some_iff.mp h
    obtain ⟨s, -, hstore⟩ := bind_eq_some_iff.mp hcat
    exact (ih hrest).trans (length_store hstore)

theorem length_writePairs (h : writePairs l mem i n = some mem') : mem'.length = mem.length := by
  induction n generalizing mem i with
  | zero =>
    cases h
    rfl
  | succ n ih =>
    obtain ⟨e, -, h⟩ := bind_eq_some_iff.mp h
    cases e with
    | none => exact ih h
    | some p =>
      obtain ⟨mem₁, hcats, hrest⟩ := bind_eq_some_iff.mp h
      exact (ih hrest).trans (length_strcats hcats)

theorem countBytes_all (h : Lists l ps) (hne : ∀ k ∈ keys ps, k ≠ []) :
    countBytes l 0 0 l.len = some (int32 (propertyText ps).length) := by
  have := countBytes_eq [] h hne 0
  rwa [length_nil, ← h.len, Int.zero_add] at this

theorem keyValToString_eq (l : KeyValPair) : keyValToString l =
    (countBytes l 0 0 l.len).bind fun nBytes => (allocate (int32 (nBytes + 1))).bind fun string =>
      (writePairs l string 0 l.len).bind fun string => some (0, string) := rfl

/-- The text and its end fill the block. -/
theorem keyValToString_spec (h : Lists l ps) (hne : ∀ k ∈ keys ps, k ≠ []) (hended : Ended ps)
    (hfits : (propertyText ps).length + 1 < intBound) :
    keyValToString l = some (0, propertyText ps ++ [nul]) := by
  have hbytes : int32 (int32 (propertyText ps).length + 1) = ((propertyText ps).length + 1 : Nat) := by
    rw [int32_add, ← int32_natCast hfits, Int.natCast_add, Int.natCast_one]
  obtain ⟨mem, hwrite, htext, hlen⟩ := writePairs_spec [] h hne hended
    (hasText_cleared (Nat.succ_pos (propertyText ps).length)) (by simp [cleared])
  rw [cleared, List.length_replicate] at hlen
  have hmem : propertyText ps ++ [nul] = mem := htext.chars.eq_of_length (by rw [List.drop_zero, hlen]; simp)
  rw [length_nil, ← h.len] at hwrite
  rw [keyValToString_eq, countBytes_all h hne, bind_some, hbytes, allocate, if_neg (by omega), Int.toNat_natCast,
    bind_some, hwrite, hmem, bind_some]

/-- The block for a longer text is smaller than the text. -/
theorem keyValToString_short (h : Lists l ps) (hne : ∀ k ∈ keys ps, k ≠ []) {status : Int}
    (hrun : keyValToString l = some (status, mem)) (htext : textAt mem 0 = some (propertyText ps)) :
    (propertyText ps).length + 1 < intBound := by
  rw [keyValToString_eq, countBytes_all h hne, bind_some] at hrun
  obtain ⟨string, halloc, hrun⟩ := bind_eq_some_iff.mp hrun
  obtain ⟨mem', hwrite, heq⟩ := bind_eq_some_iff.mp hrun
  cases heq
  rw [allocate] at halloc
  split at halloc
  · cases halloc
  · obtain rfl := Option.some.inj halloc
    have hlen := length_writePairs hwrite
    have hlt := (hasText_of_textAt htext).length_lt
    have hrange := (int32_range (int32 (propertyText ps).length + 1)).2
    rw [cleared, List.length_replicate] at hlen
    omega

end Writing

/-! ## Reading -/

section Reading

variable {c : Char} {string X Y Z : Text} {len : Nat}

theorem skipTo_found (hstring : string = X ++ (Y ++ c :: Z)) (hi : i = X.length) (hY : c ∉ Y)
    (hin : i + Y.length < len) :
    skipTo c string len i = i + Y.length := by
  subst hi hstring
  obtain ⟨m, hm⟩ : ∃ m, len - X.length = Y.length + (m + 1) := ⟨len - X.length - Y.length - 1, by omega⟩
  have hnot : ∀ d ∈ Y, decide (d ≠ c) = true := fun d hd => decide_eq_true fun heq => hY (heq ▸ hd)
  rw [skipTo, drop_left, hm, List.take_length_add_append, List.take_succ_cons, List.takeWhile_append_of_pos hnot,
    List.takeWhile_cons_of_neg (by simp), append_nil]

theorem skipTo_end (hstring : string = X ++ (Y ++ Z)) (hi : i = X.length) (hY : c ∉ Y) (hlen : len = i + Y.length) :
    skipTo c string len i = len := by
  subst hi hstring hlen
  have hnot : ∀ d ∈ Y, decide (d ≠ c) = true := fun d hd => decide_eq_true fun heq => hY (heq ▸ hd)
  rw [skipTo, drop_left, Nat.add_sub_cancel_left, take_left, List.takeWhile_eq_self_iff.mpr hnot]

/-- Two characters are put in place of others. -/
theorem set_two (B k v Z : Text) (c d c' d' : Char) :
    ((B ++ (k ++ c :: (v ++ d :: Z))).set (B.length + k.length) c').set (B.length + k.length + 1 + v.length) d' =
      B ++ (k ++ c' :: (v ++ d' :: Z)) := by
  have hset (X Y : Text) (c d : Char) : (X ++ c :: Y).set X.length d = X ++ d :: Y := by
    rw [List.set_append_right _ _ le_rfl, Nat.sub_self]
    rfl
  have hsecond := hset (B ++ (k ++ c' :: v)) Z d d'
  rw [length_append, length_append, length_cons, ← Nat.add_assoc, Nat.add_comm v.length,
    ← Nat.add_assoc] at hsecond
  simpa using hsecond

variable {A J R W : Text} {list : KeyValPair}

/-- The three scans of a round up to the end of the value, and what is left of the round. -/
theorem readPairs_tags (hJ : '<' ∉ J) (hk : '>' ∉ k) (hv : '<' ∉ v) (hknul : nul ∉ k) (hvnul : nul ∉ v)
    (hstring : string = A ++ (J ++ '<' :: (k ++ '>' :: (v ++ '<' :: W)))) {endValue : Nat}
    (hend : endValue = A.length + J.length + k.length + v.length + 2) (hlen : endValue < len) :
    readPairs string len A.length list (n + 1) =
      if skipTo '>' string len (endValue + 2) = len then some (0, list, string)
      else if k.length ≠ skipTo '>' string len (endValue + 2) - (endValue + 2) then
        some (UNMATCHED_KEY_OR_INDEX, list, string)
      else if k ≠ (string.drop (endValue + 2)).take k.length then some (UNMATCHED_KEY_OR_INDEX, list, string)
      else (addKeyVal list k v).bind fun list =>
        readPairs string len (skipTo '>' string len (endValue + 2)) list n := by
  have hstart : skipTo '<' string len A.length = A.length + J.length := skipTo_found hstring rfl hJ (by omega)
  obtain ⟨B, hB, hb⟩ : ∃ B, B = A ++ J ++ ['<'] ∧ B.length = A.length + J.length + 1 :=
    ⟨_, rfl, by simp [Nat.add_assoc]⟩
  have hstring : string = B ++ (k ++ '>' :: (v ++ '<' :: W)) := by simp [hstring, hB]
  have hendValue : B.length + k.length + 1 + v.length = endValue := by omega
  have htag : skipTo '>' string len B.length = B.length + k.length := skipTo_found hstring rfl hk (by omega)
  have hvalue : skipTo '<' string len (B.length + k.length + 1) = B.length + k.length + 1 + v.length :=
    skipTo_found (X := B ++ (k ++ ['>'])) (Z := W) (by simp [hstring]) (by simp [Nat.add_assoc]) hv (by omega)
  have hfirst : (string.drop B.length).take k.length = k := by rw [hstring, drop_left, take_left]
  -- the ends are put behind the tag and the value, and taken back
  have hset : (string.set (B.length + k.length) nul).set endValue nul = B ++ (k ++ nul :: (v ++ nul :: W)) := by
    rw [hstring, ← hendValue]
    exact set_two ..
  have hback : ((B ++ (k ++ nul :: (v ++ nul :: W))).set (B.length + k.length) '>').set endValue '<' = string := by
    rw [hstring, ← hendValue]
    exact set_two ..
  have hkey : textAt (B ++ (k ++ nul :: (v ++ nul :: W))) B.length = some k := textAt_cut hknul B _
  have hval : textAt (B ++ (k ++ nul :: (v ++ nul :: W))) (B.length + k.length + 1) = some v := by
    have := textAt_cut hvnul (B ++ (k ++ [nul])) W
    simpa [Nat.add_assoc] using this
  rw [readPairs]
  dsimp only
  rw [hstart, ← hb, htag, hvalue, hendValue, if_neg (by omega), if_neg (by omega), if_neg (by omega),
    Nat.add_sub_cancel_left, hfirst, hset, hkey, hval]
  simp only [bind_eq_bind, bind_some, hback]
  rfl

/-- A round comes to the end of the closing tag, and the text is as it was. -/
theorem readPairs_round {d : Char} (hJ : '<' ∉ J) (hk : '>' ∉ k) (hv : '<' ∉ v) (hknul : nul ∉ k) (hvnul : nul ∉ v)
    (hstring : string = A ++ (J ++ '<' :: (k ++ '>' :: (v ++ '<' :: d :: (k ++ '>' :: R)))))
    (hlen : A.length + J.length + 2 * k.length + v.length + 4 < len) :
    readPairs string len A.length list (n + 1) = (addKeyVal list k v).bind fun list =>
      readPairs string len (A.length + J.length + 2 * k.length + v.length + 4) list n := by
  obtain ⟨C, hC, hc⟩ : ∃ C, C = A ++ (J ++ '<' :: (k ++ '>' :: (v ++ ['<', d]))) ∧
      C.length = A.length + J.length + k.length + v.length + 2 + 2 := ⟨_, rfl, by simp; omega⟩
  have hclosed : string = C ++ (k ++ '>' :: R) := by simp [hstring, hC]
  have hclose : skipTo '>' string len C.length = C.length + k.length := skipTo_found hclosed rfl hk (by omega)
  have hsecond : (string.drop C.length).take k.length = k := by rw [hclosed, drop_left, take_left]
  rw [readPairs_tags hJ hk hv hknul hvnul hstring rfl (by omega), ← hc, hclose, if_neg (by omega),
    Nat.add_sub_cancel_left, if_neg (fun hne => hne rfl), hsecond, if_neg (fun hne => hne rfl),
    show C.length + k.length = A.length + J.length + 2 * k.length + v.length + 4 by omega]

/-- The pairs are added one by one up to the end of the text. -/
theorem readPairs_spec {front : List (Text × Text)} (hlist : Represents list front)
    (hnodup : (keys (front ++ back)).Nodup) (hne : ∀ k ∈ keys back, k ≠ []) (hended : Ended back)
    (hkeys : ∀ p ∈ back, '>' ∉ p.1) (hvalues : ∀ p ∈ back, '<' ∉ p.2) (hJ : '<' ∉ J)
    (hstring : string = A ++ (J ++ (propertyText back ++ [nul]))) (hlen : string.length = len + 1)
    (hn : back.length < n) :
    ∃ list', readPairs string len A.length list n = some (0, list', string) ∧ Represents list' (front ++ back) := by
  induction back generalizing front A J list n with
  | nil =>
    obtain ⟨n, rfl⟩ : ∃ m, n = m + 1 := ⟨n - 1, by simp at hn; omega⟩
    have hstop : skipTo '<' string len A.length = len := by
      refine skipTo_end hstring rfl hJ ?_
      rw [hstring] at hlen
      simp [propertyText] at hlen
      omega
    refine ⟨list, ?_, by rwa [append_nil]⟩
    rw [readPairs, hstop]
    exact if_pos rfl
  | cons p back ih =>
    obtain ⟨k, v⟩ := p
    obtain ⟨n, rfl⟩ : ∃ m, n = m + 1 := ⟨n - 1, by simp at hn; omega⟩
    obtain ⟨hknul, hvnul⟩ := hended (k, v) mem_cons_self
    have hshape : string = A ++ (J ++ '<' :: (k ++ '>' :: (v ++ '<' :: '/' :: (k ++ '>' ::
        ('\n' :: (propertyText back ++ [nul])))))) := by
      simp [hstring, propertyText, pairText]
    have hinside : A.length + J.length + 2 * k.length + v.length + 4 < len := by
      have := congrArg List.length hshape
      simp at this
      omega
    have hfresh : k ∉ keys front := by
      rw [keys, List.map_append] at hnodup
      exact fun hmem => (List.nodup_append.mp hnodup).2.2 k hmem k mem_cons_self rfl
    obtain ⟨list₁, hadd, hlist₁⟩ := addKeyVal_spec hlist (hne k mem_cons_self) v
    rw [insertPair_absent hfresh] at hlist₁
    have hnext : string = (A ++ (J ++ '<' :: (k ++ '>' :: (v ++ '<' :: '/' :: k)))) ++
        (['>', '\n'] ++ (propertyText back ++ [nul])) := by simp [hshape]
    have hpos : A.length + J.length + 2 * k.length + v.length + 4 =
        (A ++ (J ++ '<' :: (k ++ '>' :: (v ++ '<' :: '/' :: k)))).length := by
      simp
      omega
    obtain ⟨list', hrun, hlist'⟩ := ih hlist₁ (by simpa using hnodup) (fun k hk => hne k (mem_cons_of_mem _ hk))
      (fun p hp => hended p (mem_cons_of_mem _ hp)) (fun p hp => hkeys p (mem_cons_of_mem _ hp))
      (fun p hp => hvalues p (mem_cons_of_mem _ hp)) (by decide) hnext (Nat.lt_of_succ_lt_succ hn)
    refine ⟨list', ?_, by simpa using hlist'⟩
    rw [readPairs_round hJ (hkeys (k, v) mem_cons_self) (hvalues (k, v) mem_cons_self) hknul hvnul hshape
      hinside, hadd, bind_some, hpos]
    exact hrun

end Reading

/-! ## The round trip -/

section RoundTrip

/-- C strings, of which the keys are distinct, not empty and without `>`, and the values without `<`. -/
structure WellFormed (ps : List (Text × Text)) : Prop where
  nodup : (keys ps).Nodup
  nonempty : ∀ k ∈ keys ps, k ≠ []
  ended : Ended ps
  keys : ∀ p ∈ ps, '>' ∉ p.1
  values : ∀ p ∈ ps, '<' ∉ p.2

/-- The text is in the block that was allocated for it, and is read back as it is. -/
def RoundTrips (l : KeyValPair) (ps : List (Text × Text)) : Prop :=
  ∃ string, keyValToString l = some (0, string) ∧ textAt string 0 = some (propertyText ps) ∧
    ∃ l', keyValFromString string = some (0, l', string) ∧ Lists l' ps

def pairSize (p : Text × Text) : Nat := 2 * p.1.length + p.2.length + 6

theorem length_propertyText (ps : List (Text × Text)) : (propertyText ps).length = (ps.map pairSize).sum := by
  rw [propertyText, List.length_flatMap]
  congr 1
  refine List.map_congr_left fun p _ => ?_
  simp only [pairText, pairSize, length_append, length_cons, length_nil]
  omega

theorem length_le_propertyText (ps : List (Text × Text)) : ps.length ≤ (propertyText ps).length := by
  induction ps with
  | nil => exact le_rfl
  | cons p ps ih =>
    simp only [propertyText, flatMap_cons, length_append, pairText, length_cons] at ih ⊢
    omega

theorem textAt_propertyText (hps : WellFormed ps) : textAt (propertyText ps ++ [nul]) 0 = some (propertyText ps) := by
  have hnul : nul ∉ propertyText ps := by
    intro hmem
    obtain ⟨p, hp, hmem⟩ := List.mem_flatMap.mp hmem
    obtain ⟨hk, hv⟩ := hps.ended p hp
    simp [pairText, nul] at hmem hk hv
    rcases hmem with hmem | hmem | hmem <;> contradiction
  exact textAt_cut hnul [] []

theorem keyValFromString_spec (hps : WellFormed ps) :
    ∃ l', keyValFromString (propertyText ps ++ [nul]) = some (0, l', propertyText ps ++ [nul]) ∧ Represents l' ps := by
  have hlen : (propertyText ps ++ [nul]).length = (propertyText ps).length + 1 := by simp
  obtain ⟨l', hread, hl'⟩ := readPairs_spec (A := []) (J := []) (n := (propertyText ps ++ [nul]).length + 1)
    represents_empty hps.nodup hps.nonempty hps.ended hps.keys hps.values nofun rfl hlen
    (by have := length_le_propertyText ps; omega)
  refine ⟨l', ?_, hl'⟩
  rw [keyValFromString, textAt_propertyText hps]
  exact hread

/-- A property string comes back exactly when its size, with the end, is an `int`. -/
theorem roundTrips_iff (h : Lists l ps) (hps : WellFormed ps) :
    RoundTrips l ps ↔ (ps.map pairSize).sum + 1 < intBound := by
  rw [← length_propertyText]
  constructor
  · rintro ⟨string, hwrite, htext, -⟩
    exact keyValToString_short h hps.nonempty hwrite htext
  · intro hfits
    obtain ⟨l', hread, hl'⟩ := keyValFromString_spec hps
    exact ⟨_, keyValToString_spec h hps.nonempty hps.ended hfits, textAt_propertyText hps, l', hread,
      hl'.shows.len, hl'.shows.key.holds, hl'.shows.value.holds⟩

/-- A key with `<`, one that looks like an end tag, and a value with `>`. -/
def oddPairs : List (Text × Text) := [("a<b".toList, "v>1".toList), ("/x".toList, [])]

def oddList : KeyValPair := ⟨2, [some "a<b".toList, some "/x".toList], [some "v>1".toList, some []]⟩

theorem oddList_roundTrips : Lists oddList oddPairs ∧ WellFormed oddPairs ∧ RoundTrips oddList oddPairs := by
  have hlists : Lists oddList oddPairs := ⟨rfl, prefix_rfl, prefix_rfl⟩
  have hps : WellFormed oddPairs := by constructor <;> simp [oddPairs, keys, Ended, nul]
  exact ⟨hlists, hps, (roundTrips_iff hlists hps).mpr (by decide)⟩

/-- A list of one pair. -/
def oneValue (v : Text) : KeyValPair := ⟨1, [some ['a']], [some v]⟩

theorem oneValue_fails (hnul : nul ∉ v) (hv : '<' ∉ v) (hlen : intBound ≤ v.length) :
    Lists (oneValue v) [(['a'], v)] ∧ WellFormed [(['a'], v)] ∧ ¬ RoundTrips (oneValue v) [(['a'], v)] := by
  have hlists : Lists (oneValue v) [(['a'], v)] := ⟨rfl, prefix_rfl, prefix_rfl⟩
  have hps : WellFormed [(['a'], v)] := by
    constructor <;> simp [keys, Ended, nul] <;> assumption
  refine ⟨hlists, hps, ?_⟩
  rintro ⟨string, hwrite, htext, -⟩
  have hshort := keyValToString_short hlists hps.nonempty hwrite htext
  have hsize : (propertyText [(['a'], v)]).length = v.length + 8 := by
    rw [length_propertyText, List.map_singleton, List.sum_singleton]
    simp only [pairSize, length_singleton]
    omega
  omega

/-- The size of the text for a value of 2^31 bytes is negative as an `int`. -/
theorem hugeValue_fails :
    Lists (oneValue (replicate 2147483648 'x')) [(['a'], replicate 2147483648 'x')] ∧
      WellFormed [(['a'], replicate 2147483648 'x')] ∧
      ¬ RoundTrips (oneValue (replicate 2147483648 'x')) [(['a'], replicate 2147483648 'x')] := by
  refine oneValue_fails (fun hmem => ?_) (fun hmem => ?_) (by rw [List.length_replicate, intBound])
  · exact absurd (List.eq_of_mem_replicate hmem) (by decide)
  · exact absurd (List.eq_of_mem_replicate hmem) (by decide)

end RoundTrip

end KeyValPair
