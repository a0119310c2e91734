-- SUMMARY: Escaping as the routines do it, and which strings survive it.
import Irods.Pack.StringLimits

/-!
# Escaping, in a buffer and in place

The escaped copy goes into a buffer that is allocated at the first predeclared character.
Decoding works in the memory of the text itself, between a terminator that is put behind the
text for the time and the entities that it closes up. Both routines compute what packing and
unpacking take them for, as far as the buffer reaches.
-/

namespace Pack

open CString
open List (append_assoc append_nil countP_cons drop_left flatMap_cons length_append length_cons mem_cons_of_mem
  mem_cons_self nil_append not_mem_nil set_append_right)

/-! ## Into a buffer -/

/-- The entity for a predeclared character. -/
def predeclared (c : Char) : Option Text :=
  if c = '&' then some "&amp;".toList
  else if c = '<' then some "&lt;".toList
  else if c = '>' then some "&gt;".toList
  else if c = '"' then some "&quot;".toList
  else if c = '\x60' then some "&apos;".toList
  else none

/-- An allocated buffer of `room` bytes, and the string in it. -/
structure XmlBuf where
  room : Nat
  text : Text

/-- Some more of the string, and its terminator. -/
def XmlBuf.add (buf : XmlBuf) (s : Text) : Except Stop XmlBuf :=
  if buf.text.length + s.length + 1 ≤ buf.room then .ok { buf with text := buf.text ++ s }
  else .error .undefined

/-- What lies between `inPtr` and `tmpPtr` is pending: it is copied with the next entity. -/
def strToXmlStrFrom (pending : Text) (outXmlStr : Option XmlBuf) : (rest : Text) → Except Stop (Option XmlBuf)
  | [] =>
    match outXmlStr with
    | none => .ok none
    | some buf => do return some (← buf.add pending)
  | c :: rest =>
    match predeclared c with
    | none => strToXmlStrFrom (pending ++ [c]) outXmlStr rest
    | some entity => do
      let buf := outXmlStr.getD ⟨5 * (pending ++ c :: rest).length + 6, []⟩
      strToXmlStrFrom [] (some (← buf.add (pending ++ entity))) rest

/-- No buffer means that the string itself is used. -/
def strToXmlStrCopy (inStr : Text) : Except Stop (Option XmlBuf) := strToXmlStrFrom [] none inStr

def xmlStrOf (inStr : Text) (outXmlStr : Option XmlBuf) : Text := (outXmlStr.map (·.text)).getD inStr

theorem xmlChar_predeclared (c : Char) : xmlChar c = (predeclared c).getD [c] := by
  unfold xmlChar predeclared
  split_ifs <;> rfl

variable {c : Char}

theorem xmlChar_of_none (h : predeclared c = none) : xmlChar c = [c] := by
  rw [xmlChar_predeclared, h]
  rfl

theorem xmlChar_of_some {entity : Text} (h : predeclared c = some entity) : xmlChar c = entity := by
  rw [xmlChar_predeclared, h]
  rfl

variable {s : Text}

variable {buf : XmlBuf}

theorem XmlBuf.add_ok (h : buf.text.length + s.length + 1 ≤ buf.room) :
    buf.add s = .ok { buf with text := buf.text ++ s } := if_pos h

theorem XmlBuf.add_error (h : ¬ buf.text.length + s.length + 1 ≤ buf.room) :
    buf.add s = .error .undefined := if_neg h

/-- Once there is a buffer, all that is still to come goes into it. -/
theorem strToXmlStrFrom_some (pending : Text) (buf : XmlBuf) (rest : Text) :
    strToXmlStrFrom pending (some buf) rest = (buf.add (pending ++ rest.flatMap xmlChar)).map some := by
  induction rest generalizing pending buf with
  | nil =>
    rw [List.flatMap_nil, append_nil, strToXmlStrFrom]
    cases buf.add pending with
    | ok buf => rfl
    | error stop => rfl
  | cons c rest ih =>
    rw [strToXmlStrFrom, flatMap_cons]
    cases hc : predeclared c with
    | none =>
      rw [ih, xmlChar_of_none hc, append_assoc]
    | some entity =>
      dsimp only
      rw [xmlChar_of_some hc, Option.getD_some]
      by_cases hfits : buf.text.length + (pending ++ entity).length + 1 ≤ buf.room
      · rw [XmlBuf.add_ok hfits]
        show strToXmlStrFrom [] (some { buf with text := buf.text ++ (pending ++ entity) }) rest = _
        rw [ih]
        unfold XmlBuf.add
        simp only [append_assoc, length_append, nil_append, Nat.add_assoc]
      · have htotal : ¬ buf.text.length + (pending ++ (entity ++ rest.flatMap xmlChar)).length + 1 ≤ buf.room := by
          simp only [length_append] at hfits ⊢
          omega
        rw [XmlBuf.add_error hfits, XmlBuf.add_error htotal]
        rfl

/-- Without one, it is allocated for the whole string. -/
theorem strToXmlStrFrom_none (pending rest : Text) :
    strToXmlStrFrom pending none rest =
      if ∀ c ∈ rest, predeclared c = none then .ok none
      else (XmlBuf.add ⟨5 * (pending ++ rest).length + 6, []⟩ (pending ++ rest.flatMap xmlChar)).map some := by
  induction rest generalizing pending with
  | nil => rfl
  | cons c rest ih =>
    rw [strToXmlStrFrom, flatMap_cons]
    cases hc : predeclared c with
    | none =>
      have hall : (∀ d ∈ c :: rest, predeclared d = none) ↔ ∀ d ∈ rest, predeclared d = none := by
        simp [hc]
      rw [ih, if_congr hall rfl rfl, xmlChar_of_none hc]
      simp only [append_assoc, List.singleton_append]
    | some entity =>
      have hnot : ¬ ∀ d ∈ c :: rest, predeclared d = none := by
        intro hall
        rw [hall c mem_cons_self] at hc
        cases hc
      rw [if_neg hnot, xmlChar_of_some hc, Option.getD_none]
      have hsome := strToXmlStrFrom_some pending ⟨5 * (pending ++ c :: rest).length + 6, []⟩ (c :: rest)
      rw [strToXmlStrFrom, hc, flatMap_cons, xmlChar_of_some hc] at hsome
      exact hsome

theorem flatMap_xmlChar_of_none (h : ∀ c ∈ s, predeclared c = none) : s.flatMap xmlChar = s := by
  induction s with
  | nil => rfl
  | cons c s ih =>
    rw [flatMap_cons, xmlChar_of_none (h c mem_cons_self), ih fun d hd => h d (mem_cons_of_mem c hd)]
    rfl

/-- The copy is the escaped string, whenever it fits. -/
theorem strToXmlStrCopy_eq (s : Text) : strToXmlStrCopy s =
    if EscapeFits s then
      .ok (if ∀ c ∈ s, predeclared c = none then none else some ⟨5 * s.length + 6, s.flatMap xmlChar⟩)
    else .error .undefined := by
  unfold strToXmlStrCopy
  rw [strToXmlStrFrom_none, nil_append, nil_append]
  by_cases hplain : ∀ c ∈ s, predeclared c = none
  · have hfits : EscapeFits s := by
      unfold EscapeFits
      rw [flatMap_xmlChar_of_none hplain]
      omega
    rw [if_pos hplain, if_pos hfits, if_pos hplain]
  · rw [if_neg hplain]
    by_cases hfits : EscapeFits s
    · rw [if_pos hfits, if_neg hplain, XmlBuf.add_ok (by unfold EscapeFits at hfits; simpa using hfits)]
      rfl
    · rw [if_neg hfits, XmlBuf.add_error (by unfold EscapeFits at hfits; simpa using hfits)]
      rfl

/-! ## The room for the copy -/

/-- Characters whose entities have six characters. -/
def quotes (s : Text) : Nat := s.countP fun c => c = '"' ∨ c = '\x60'

/-- Characters whose entities have four characters. -/
def brackets (s : Text) : Nat := s.countP fun c => c = '<' ∨ c = '>'

/-- Characters that are copied. -/
def plain (s : Text) : Nat := s.countP fun c => predeclared c = none

/-- Five for each character, but one more for a quote, one less for a bracket and four less
for what is copied. -/
theorem length_escaped (s : Text) :
    (s.flatMap xmlChar).length + brackets s + 4 * plain s = 5 * s.length + quotes s := by
  unfold brackets plain quotes
  induction s with
  | nil => rfl
  | cons c s ih =>
    rw [flatMap_cons, length_append, countP_cons, countP_cons, countP_cons,
      length_cons]
    have hchar : (xmlChar c).length + (if c = '<' ∨ c = '>' then 1 else 0) +
      4 * (if predeclared c = none then 1 else 0) =
        5 + if c = '"' ∨ c = '\x60' then 1 else 0 := by
      unfold xmlChar predeclared
      split_ifs <;> simp_all
    simp only [decide_eq_true_eq]
    omega

theorem escapeFits_iff (s : Text) : EscapeFits s ↔ quotes s ≤ brackets s + 4 * plain s + 5 := by
  have hlen := length_escaped s
  unfold EscapeFits
  omega

/-! ## In place -/

/-- The string at `inStr`, with its terminator, is moved to the front. -/
def ovStrcpy (mem : Text) (outStr inStr : Nat) : Except Stop Text := do
  let (s, _) ← cString (mem.drop inStr)
  return mem.take outStr ++ (s ++ ['\x00']) ++ mem.drop (outStr + (s.length + 1))

/-- The memory after the entities from `inPtr` on have been replaced, up to an unknown one. -/
def replaceEntities : (fuel : Nat) → (mem : Text) → (inPtr : Nat) → Except Stop Text
  | 0, _, _ => .error .depth
  | fuel + 1, mem, inPtr => do
    let (str, _) ← cString (mem.drop inPtr)
    match strstr ['&'] str with
    | none => return mem
    | some skip =>
      let tmpPtr := inPtr + skip
      match xmlEntities.find? fun entity => entity.1.isPrefixOf (str.drop (skip + 1)) with
      | none => return mem
      | some (entity, c) => do
        let mem ← ovStrcpy (mem.set tmpPtr c) (tmpPtr + 1) (tmpPtr + (entity.length + 1))
        replaceEntities fuel mem (tmpPtr + 1)

/-- The length of the string that `myLen` characters are decoded to, and the memory, in which the
character behind them is back in its place. -/
def xmlStrToStrInPlace (mem : Text) (myLen : Nat) : Except Stop (Nat × Text) :=
  if myLen = 0 then .ok (0, mem)
  else
    match mem[myLen]? with
    | none => .error .undefined
    | some savedChar => do
      let inStr := mem.set myLen '\x00'
      let (str, _) ← cString inStr
      match strstr ['&'] str with
      | none => return (myLen, inStr.set myLen savedChar)
      | some _ =>
        let inStr ← replaceEntities mem.length inStr 0
        let (str, _) ← cString inStr
        return (str.length, inStr.set myLen savedChar)

theorem cString_nul (hs : '\x00' ∉ s) (R : Text) : cString (s ++ '\x00' :: R) = .ok (s, R) := by
  have h := cString_natString hs R
  rwa [natString, append_assoc, List.singleton_append] at h

theorem cString_drop (front : Text) (hs : '\x00' ∉ s) (R : Text) {n : Nat} (hn : n = front.length) :
    cString ((front ++ (s ++ '\x00' :: R)).drop n) = .ok (s, R) := by
  rw [hn, drop_left, cString_nul hs]

/-- What is in front of the string that is moved, and what it is moved over. -/
theorem ovStrcpy_over (front covered : Text) (hs : '\x00' ∉ s) (R : Text) {outStr inStr : Nat}
    (hout : outStr = front.length) (hin : inStr = front.length + covered.length) :
    ∃ junk, ovStrcpy (front ++ (covered ++ (s ++ '\x00' :: R))) outStr inStr =
      .ok (front ++ (s ++ '\x00' :: (junk ++ R))) ∧ junk.length = covered.length := by
  have hstr : cString ((front ++ (covered ++ (s ++ '\x00' :: R))).drop inStr) = .ok (s, R) := by
    rw [← append_assoc front covered, cString_drop _ hs R (by rw [hin, length_append])]
  refine ⟨(covered ++ (s ++ ['\x00'])).drop (s.length + 1), ?_, ?_⟩
  · have hdrop : (front ++ (covered ++ (s ++ '\x00' :: R))).drop (outStr + (s.length + 1)) =
        (covered ++ (s ++ ['\x00'])).drop (s.length + 1) ++ R := by
      have hsplit : covered ++ (s ++ '\x00' :: R) = covered ++ (s ++ ['\x00']) ++ R := by simp
      rw [hout, ← List.drop_drop, drop_left, hsplit, List.drop_append_of_le_length (by simp)]
    unfold ovStrcpy
    rw [hstr]
    show Except.ok _ = Except.ok _
    rw [hdrop, hout, List.take_left]
    simp
  · simp

variable {entity R mem str : Text} {c : Char} {fuel inPtr : Nat}

/-- A known entity is longer than the character it stands for. -/
theorem entity_of_find {rest : Text}
    (h : xmlEntities.find? (fun entity => entity.1.isPrefixOf rest) = some (entity, c)) :
    ∃ behind, rest = entity ++ behind ∧ c ≠ '\x00' := by
  have hpre : entity.isPrefixOf rest = true := by simpa using List.find?_some h
  obtain ⟨behind, hbehind⟩ := List.isPrefixOf_iff_prefix.mp hpre
  have hnul : ∀ entry ∈ xmlEntities, entry.2 ≠ '\x00' := by decide
  exact ⟨behind, hbehind.symm, hnul _ (List.mem_of_find?_eq_some h)⟩

theorem xmlStrToStr_skip {front : Text} (h : '&' ∉ front) (R : Text) :
    xmlStrToStr (front ++ R) = front ++ xmlStrToStr R := by
  unfold xmlStrToStr
  induction front with
  | nil => rfl
  | cons c cs ih =>
    have hc : c ≠ '&' := fun hc => h (hc ▸ mem_cons_self)
    rw [List.cons_append, xmlStrToStrFrom, if_neg hc, ih fun hmem => h (mem_cons_of_mem c hmem)]
    rfl

theorem xmlStrToStr_unknown (h : xmlEntities.find? (fun entity => entity.1.isPrefixOf R) = none) :
    xmlStrToStr ('&' :: R) = '&' :: R := by
  unfold xmlStrToStr
  rw [xmlStrToStrFrom, if_pos rfl, h]

theorem xmlStrToStr_entity {behind : Text}
    (h : xmlEntities.find? (fun entry => entry.1.isPrefixOf (entity ++ behind)) = some (entity, c)) :
    xmlStrToStr ('&' :: (entity ++ behind)) = c :: xmlStrToStr behind :=
  xmlStrToStrFrom_entity entity behind h

theorem replaceEntities_none (hstr : cString (mem.drop inPtr) = .ok (str, R)) (hnone : strstr ['&'] str = none) :
    replaceEntities (fuel + 1) mem inPtr = .ok mem := by
  rw [replaceEntities, hstr]
  show (match strstr ['&'] str with | none => _ | some _ => _) = _
  rw [hnone]
  rfl

variable {skip : Nat}

theorem replaceEntities_unknown (hstr : cString (mem.drop inPtr) = .ok (str, R))
    (hskip : strstr ['&'] str = some skip)
    (hnone : xmlEntities.find? (fun entity => entity.1.isPrefixOf (str.drop (skip + 1))) = none) :
    replaceEntities (fuel + 1) mem inPtr = .ok mem := by
  rw [replaceEntities, hstr]
  show (match strstr ['&'] str with | none => _ | some _ => _) = _
  rw [hskip]
  dsimp only
  rw [hnone]
  rfl

theorem replaceEntities_entity {mem' : Text} (hstr : cString (mem.drop inPtr) = .ok (str, R))
    (hskip : strstr ['&'] str = some skip)
    (hfind : xmlEntities.find? (fun entry => entry.1.isPrefixOf (str.drop (skip + 1))) = some (entity, c))
    (hmove : ovStrcpy (mem.set (inPtr + skip) c) (inPtr + skip + 1) (inPtr + skip + (entity.length + 1)) = .ok mem') :
    replaceEntities (fuel + 1) mem inPtr = replaceEntities fuel mem' (inPtr + skip + 1) := by
  rw [replaceEntities, hstr]
  show (match strstr ['&'] str with | none => _ | some _ => _) = _
  rw [hskip]
  dsimp only
  rw [hfind]
  dsimp only
  rw [hmove]
  rfl

/-- The string from `inPtr` on is decoded; it gets shorter, and what was behind it is where it
was. The induction is on the fuel, which is more than there are characters to go. -/
theorem replaceEntities_spec (fuel : Nat) : ∀ (front str R : Text), '\x00' ∉ str → str.length < fuel →
    ∃ junk, replaceEntities fuel (front ++ (str ++ '\x00' :: R)) front.length =
      .ok (front ++ (xmlStrToStr str ++ '\x00' :: (junk ++ R))) ∧
      (xmlStrToStr str).length + junk.length = str.length := by
  induction fuel with
  | zero => exact nofun
  | succ fuel ih =>
    intro front str R hnul hfuel
    have hstr := cString_drop front hnul R rfl
    by_cases hamp : '&' ∈ str
    case neg =>
      refine ⟨[], ?_, ?_⟩
      · rw [replaceEntities_none hstr (strstr_char_none hamp)]
        have h := xmlStrToStr_skip hamp []
        rw [append_nil] at h
        rw [h]
        simp [xmlStrToStr, xmlStrToStrFrom]
      · have h := xmlStrToStr_skip hamp []
        rw [append_nil] at h
        rw [h]
        simp [xmlStrToStr, xmlStrToStrFrom]
    case pos =>
      obtain ⟨before, rest, rfl, hbefore⟩ := List.eq_append_cons_of_mem hamp
      have hskip : strstr ['&'] (before ++ '&' :: rest) = some before.length := strstr_first hbefore [] rest
      have hdrop : (before ++ '&' :: rest).drop (before.length + 1) = rest := by
        rw [← List.drop_drop, drop_left, List.drop_one, List.tail_cons]
      cases hfind : xmlEntities.find? fun entity => entity.1.isPrefixOf rest with
      | none =>
        refine ⟨[], ?_, ?_⟩
        · rw [replaceEntities_unknown hstr hskip (by rw [hdrop, hfind]), xmlStrToStr_skip hbefore,
            xmlStrToStr_unknown hfind]
          rfl
        · rw [xmlStrToStr_skip hbefore, xmlStrToStr_unknown hfind]
          rfl
      | some entry =>
        obtain ⟨entity, c⟩ := entry
        obtain ⟨behind, rfl, hc⟩ := entity_of_find hfind
        have hbehind : '\x00' ∉ behind := fun hmem => hnul (by simp [hmem])
        have hset : (front ++ ((before ++ '&' :: (entity ++ behind)) ++ '\x00' :: R)).set
          (front.length + before.length) c =
            (front ++ before ++ [c]) ++ (entity ++ (behind ++ '\x00' :: R)) := by
          simp
        obtain ⟨junk, hmove, hjunk⟩ := ovStrcpy_over (front ++ before ++ [c]) entity hbehind R
          (show front.length + before.length + 1 = _ by simp [Nat.add_assoc])
          (show front.length + before.length + (entity.length + 1) = _ by simp; omega)
        rw [← hset] at hmove
        obtain ⟨junk', hloop, hjunk'⟩ := ih (front ++ before ++ [c]) behind (junk ++ R) hbehind (by
          simp only [length_append, length_cons] at hfuel
          omega)
        have hdecode : xmlStrToStr (before ++ '&' :: (entity ++ behind)) = before ++ c :: xmlStrToStr behind := by
          rw [xmlStrToStr_skip hbefore, xmlStrToStr_entity hfind]
        refine ⟨junk' ++ junk, ?_, ?_⟩
        · rw [replaceEntities_entity hstr hskip (by rw [hdrop, hfind]) hmove]
          have hpos : front.length + before.length + 1 = (front ++ before ++ [c]).length := by simp [Nat.add_assoc]
          rw [hpos, hloop, hdecode]
          simp
        · rw [hdecode]
          simp only [length_append, length_cons]
          omega

theorem nul_not_mem_xmlStrToStr (hs : '\x00' ∉ s) : '\x00' ∉ xmlStrToStr s :=
  nul_not_mem_xmlStrToStrFrom hs 0

/-- The character that was saved goes behind as many characters as the string had. -/
theorem set_behind (front junk R : Text) (d c : Char) :
    ∃ left, (front ++ d :: (junk ++ R)).set (front.length + junk.length) c = front ++ (left ++ c :: R) ∧
      left.length = junk.length := by
  refine ⟨(d :: junk).take junk.length, ?_, ?_⟩
  · have hlen : junk.length < (d :: junk ++ R).length := by
      rw [length_append, length_cons]
      omega
    rw [set_append_right _ _ (Nat.le_add_right _ _), Nat.add_sub_cancel_left, ← List.cons_append,
      List.set_eq_take_append_cons_drop, if_pos hlen, List.take_append_of_le_length (by simp),
      ← length_cons (a := d), drop_left]
  · simp

/-- In place, a string is decoded to what unpacking takes it for. The text behind it is not touched. -/
theorem xmlStrToStrInPlace_spec (hnul : '\x00' ∉ str) (c : Char) (R : Text) : ∃ left,
    xmlStrToStrInPlace (str ++ c :: R) str.length =
      .ok ((xmlStrToStr str).length, xmlStrToStr str ++ (left ++ c :: R)) ∧
    (xmlStrToStr str).length + left.length = str.length := by
  by_cases hnil : str = []
  · subst hnil
    exact ⟨[], rfl, rfl⟩
  have hpos : ¬ str.length = 0 := fun h => hnil (List.length_eq_zero_iff.mp h)
  have hsaved : (str ++ c :: R)[str.length]? = some c := by
    rw [List.getElem?_append_right (le_refl _), Nat.sub_self, List.getElem?_cons_zero]
  have hended : (str ++ c :: R).set str.length '\x00' = str ++ '\x00' :: R := by
    rw [set_append_right _ _ (le_refl _), Nat.sub_self, List.set_cons_zero]
  have hback : (str ++ '\x00' :: R).set str.length c = str ++ c :: R := by
    rw [set_append_right _ _ (le_refl _), Nat.sub_self, List.set_cons_zero]
  unfold xmlStrToStrInPlace
  rw [if_neg hpos, hsaved]
  dsimp only
  rw [hended, cString_nul hnul]
  by_cases hamp : '&' ∈ str
  case neg =>
    have hplain := xmlStrToStr_skip hamp []
    rw [append_nil, show xmlStrToStr [] = [] from rfl, append_nil] at hplain
    refine ⟨[], ?_, by rw [hplain]; rfl⟩
    show (match strstr ['&'] str with | none => _ | some _ => _) = _
    rw [strstr_char_none hamp, hback, hplain]
    rfl
  case pos =>
    obtain ⟨before, rest, hsplit, hbefore⟩ := List.eq_append_cons_of_mem hamp
    have hfound : strstr ['&'] str = some before.length := by
      rw [hsplit]
      exact strstr_first hbefore [] rest
    obtain ⟨junk, hloop, hlen⟩ := replaceEntities_spec (str ++ c :: R).length [] str R hnul (by simp)
    obtain ⟨left, hset, hleft⟩ := set_behind (xmlStrToStr str) junk R '\x00' c
    rw [hlen] at hset
    refine ⟨left, ?_, by rw [hleft, hlen]⟩
    show (match strstr ['&'] str with | none => _ | some _ => _) = _
    rw [hfound]
    show (replaceEntities (str ++ c :: R).length ([] ++ (str ++ '\x00' :: R)) ([] : Text).length >>= _) = _
    rw [hloop]
    show (cString (xmlStrToStr str ++ '\x00' :: (junk ++ R)) >>= _) = _
    rw [cString_nul (nul_not_mem_xmlStrToStr hnul)]
    show Except.ok _ = _
    rw [nil_append, hset]

/-! ## There and back -/

/-- What may stand in a value: no predeclared character but the first of an entity. -/
structure Escaped (text : Text) : Prop where
  noBare : ∀ c ∈ ['<', '>', '"', '\x60'], c ∉ text
  entities : ∀ before rest, text = before ++ '&' :: rest → ∃ entity ∈ xmlEntities, entity.1 <+: rest

theorem xmlChar_cases (c : Char) :
    (xmlChar c = [c] ∧ ∀ d ∈ ['&', '<', '>', '"', '\x60'], c ≠ d) ∨
      ∃ entity ∈ xmlEntities, xmlChar c = '&' :: entity.1 := by
  unfold xmlChar
  split_ifs with h₁ h₂ h₃ h₄ h₅
  · exact .inr ⟨("amp;".toList, '&'), by decide, rfl⟩
  · exact .inr ⟨("lt;".toList, '<'), by decide, rfl⟩
  · exact .inr ⟨("gt;".toList, '>'), by decide, rfl⟩
  · exact .inr ⟨("quot;".toList, '"'), by decide, rfl⟩
  · exact .inr ⟨("apos;".toList, '\x60'), by decide, rfl⟩
  · exact .inl ⟨rfl, by simp [h₁, h₂, h₃, h₄, h₅]⟩

theorem entity_chars : ∀ entity ∈ xmlEntities, ∀ d ∈ ['&', '<', '>', '"', '\x60', '\x00'], d ∉ entity.1 := by
  decide

theorem Escaped.xmlChar_append (c : Char) {text : Text} (h : Escaped text) : Escaped (xmlChar c ++ text) := by
  rcases xmlChar_cases c with ⟨hchar, hc⟩ | ⟨entity, hentity, hchar⟩
  · rw [hchar]
    refine ⟨fun d hd => ?_, fun before rest hsplit => ?_⟩
    · exact List.not_mem_cons_of_ne_of_not_mem (hc d (mem_cons_of_mem _ hd)).symm (h.noBare d hd)
    · rcases List.cons_eq_append_iff.mp hsplit with ⟨-, hhead⟩ | ⟨before', -, htail⟩
      · exact absurd (List.cons.inj hhead).1.symm (hc '&' mem_cons_self)
      · exact h.entities before' rest htail
  · have hchars := entity_chars entity hentity
    rw [hchar]
    refine ⟨fun d hd => ?_, fun before rest hsplit => ?_⟩
    · have hne : d ≠ '&' := by
        rintro rfl
        exact absurd hd (by decide)
      have hd' : d ∈ ['&', '<', '>', '"', '\x60', '\x00'] := by
        simp only [List.mem_cons, not_mem_nil, or_false] at hd ⊢
        tauto
      exact List.not_mem_cons_of_ne_of_not_mem hne (List.not_mem_append (hchars d hd') (h.noBare d hd))
    · rcases List.cons_eq_append_iff.mp hsplit with ⟨-, hhead⟩ | ⟨before', -, htail⟩
      · obtain rfl := (List.cons.inj hhead).2
        exact ⟨entity, hentity, List.prefix_append _ _⟩
      · rcases List.append_eq_append_iff.mp htail with ⟨before'', -, hrest⟩ | ⟨mid, hmid, hrest⟩
        · exact h.entities before'' rest hrest
        · cases mid with
          | nil =>
            exact h.entities [] rest hrest.symm
          | cons d mid =>
            obtain rfl := (List.cons.inj hrest).1
            exact absurd (hmid ▸ by simp) (hchars '&' mem_cons_self)

theorem escaped_flatMap (s : Text) : Escaped (s.flatMap xmlChar) := by
  induction s with
  | nil => exact ⟨fun _ _ => not_mem_nil, fun before rest hsplit => by simp at hsplit⟩
  | cons c s ih => exact ih.xmlChar_append c

theorem nul_not_mem_escaped (hs : '\x00' ∉ s) : '\x00' ∉ s.flatMap xmlChar := by
  intro hmem
  obtain ⟨c, hc, hnul⟩ := List.mem_flatMap.mp hmem
  rcases xmlChar_cases c with ⟨hchar, -⟩ | ⟨entity, hentity, hchar⟩
  · rw [hchar, List.mem_singleton] at hnul
    exact hs (hnul ▸ hc)
  · rw [hchar] at hnul
    rcases List.mem_cons.mp hnul with hamp | hmem
    · exact absurd hamp (by decide)
    · exact entity_chars entity hentity '\x00' (by decide) hmem

/-- The escaped copy stays in its buffer and has no predeclared character left, and decoding it in
front of any text gives the string with its length, and the text is as it was. -/
def EscapesExactly (s : Text) : Prop :=
  ∃ outXmlStr, strToXmlStrCopy s = .ok outXmlStr ∧
    Escaped (xmlStrOf s outXmlStr) ∧
    (∀ buf ∈ outXmlStr, buf.room = 5 * s.length + 6 ∧ buf.text.length + 1 ≤ buf.room) ∧
    ∀ (c : Char) (R : Text), ∃ left,
      xmlStrToStrInPlace (xmlStrOf s outXmlStr ++ c :: R) (xmlStrOf s outXmlStr).length =
        .ok (s.length, s ++ (left ++ c :: R)) ∧
      s.length + left.length = (xmlStrOf s outXmlStr).length

theorem EscapesExactly.fits (h : EscapesExactly s) : EscapeFits s := by
  obtain ⟨outXmlStr, hcopy, -⟩ := h
  by_contra hfits
  rw [strToXmlStrCopy_eq, if_neg hfits] at hcopy
  cases hcopy

theorem EscapeFits.escapesExactly (hs : '\x00' ∉ s) (h : EscapeFits s) : EscapesExactly s := by
  have hcopy := strToXmlStrCopy_eq s
  rw [if_pos h] at hcopy
  refine ⟨_, hcopy, ?_⟩
  have hout : xmlStrOf s (if ∀ c ∈ s, predeclared c = none then none else some ⟨5 * s.length + 6, s.flatMap xmlChar⟩) =
      s.flatMap xmlChar := by
    split
    case isTrue hplain => exact (flatMap_xmlChar_of_none hplain).symm
    case isFalse hplain => rfl
  rw [hout]
  refine ⟨escaped_flatMap s, fun buf hbuf => ?_, fun c R => ?_⟩
  · split at hbuf
    case isTrue hplain => exact absurd hbuf (Option.not_mem_none buf)
    case isFalse hplain =>
      obtain rfl := Option.mem_some.mp hbuf
      exact ⟨rfl, h⟩
  · have hspec := xmlStrToStrInPlace_spec (nul_not_mem_escaped hs) c R
    rwa [xmlStrToStr_escaped] at hspec

/-- Quotes take six characters, and the buffer has five for each. -/
theorem escapesExactly_iff {s : Text} (hs : '\x00' ∉ s) :
    EscapesExactly s ↔ quotes s ≤ brackets s + 4 * plain s + 5 := by
  rw [← escapeFits_iff]
  exact ⟨fun h => h.fits, fun h => h.escapesExactly hs⟩

theorem escapesExactly_iff_entity : EscapesExactly "a\"b&lt;".toList :=
  (escapesExactly_iff (by decide)).mpr (by decide)

theorem six_quotes_overflow : ¬ EscapesExactly (List.replicate 6 '"') := fun h => absurd h.fits (by decide)

end Pack
