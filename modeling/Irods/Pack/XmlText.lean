-- SUMMARY: Tags and values in XML text.
import Irods.Pack.Unpacking

/-!
# XML text

Tags are found by their first bracket. An escaped value has no bracket, and neither has what is
left of an end tag, so that the text in front of a tag is skipped whatever it is.
-/

namespace Pack

open CString

/-! ## Tags -/

/-- The text has no bracket that opens a tag. -/
def NoTag (s : Text) : Prop := '<' ∉ s

theorem NoTag.nil : NoTag [] := List.not_mem_nil

variable {junk : Text}

/-- A pattern that begins with a bracket is found at the first one. -/
theorem strstr_bracket (h : NoTag junk) (pat R : Text) :
    strstr ('<' :: pat) (junk ++ '<' :: (pat ++ R)) = some junk.length := strstr_first h pat R

/-- The start tag is the next tag of the text. -/
theorem parseStartTag_startTag (name R : Text) (lf : Bool) (h : NoTag junk) :
    parseStartTag name lf (junk ++ (startTag name lf ++ R)) = some ((startTag name lf).length, junk.length) := by
  have hdrop : (junk ++ (startTag name lf ++ R)).drop (junk.length + 1) =
      name ++ ((if lf then ['>', '\n'] else ['>']) ++ R) := by
    rw [← List.drop_drop, List.drop_left, startTag, List.cons_append, List.drop_one, List.tail_cons,
      List.append_assoc]
  have hpre : name.isPrefixOf (name ++ ((if lf then ['>', '\n'] else ['>']) ++ R)) = true :=
    List.isPrefixOf_iff_prefix.mpr (List.prefix_append _ _)
  have hfind : strstr ['<'] (junk ++ (startTag name lf ++ R)) = some junk.length := strstr_bracket h [] _
  unfold parseStartTag
  simp only [hfind, hdrop, hpre]
  cases lf with
  | false => simp [startTag]
  | true => simp [startTag]

theorem drop_tag (junk tag R : Text) : (junk ++ (tag ++ R)).drop (tag.length + junk.length) = R := by
  rw [Nat.add_comm, ← List.drop_drop, List.drop_left, List.drop_left]

/-- The end tag can be looked for: it fits in the buffer it is printed to. -/
def TagFits (name : Text) : Prop := name.length + 3 < MAX_NAME_LEN

variable {name : Text}

theorem parseEndTag_endTag (hname : TagFits name) (h : NoTag junk) (R : Text) :
    parseEndTag name (junk ++ (endTag name ++ R)) = some ((endTag name).length, junk.length) := by
  have htake : ('<' :: '/' :: (name ++ ['>'])).take (MAX_NAME_LEN - 1) = '<' :: ('/' :: (name ++ ['>'])) := by
    refine List.take_of_length_le ?_
    simp only [List.length_cons, List.length_append, List.length_nil]
    exact Nat.le_sub_one_of_lt hname
  have hsplit : junk ++ (endTag name ++ R) = junk ++ '<' :: (('/' :: (name ++ ['>'])) ++ '\n' :: R) := by
    simp [endTag]
  have hlf : (junk ++ (endTag name ++ R))[junk.length + (name.length + 3)]? = some '\n' := by
    rw [List.getElem?_append_right (Nat.le_add_right _ _), Nat.add_sub_cancel_left]
    simp [endTag]
  unfold parseEndTag
  rw [htake, hsplit, strstr_bracket h, ← hsplit, Option.map_some]
  dsimp only
  rw [if_pos hlf]
  simp [endTag]

/-- The value between the tags, with what is behind them. -/
theorem parseXmlValue_value {value : Text} (hname : TagFits name) (h : NoTag junk) (hvalue : NoTag value) (R : Text) :
    parseXmlValue name (junk ++ (startTag name false ++ (value ++ (endTag name ++ R)))) =
      (some (value.length, (endTag name).length), value ++ (endTag name ++ R)) := by
  unfold parseXmlValue
  rw [parseStartTag_startTag name _ false h]
  dsimp only
  rw [drop_tag, parseEndTag_endTag hname hvalue]

/-! ## Tags that are missing -/

/-- The next tag of the text is not a start tag of this name. -/
def NextIsNot (name R : Text) : Prop :=
  ∀ (junk : Text) (lf : Bool), NoTag junk → parseStartTag name lf (junk ++ R) = none

/-- A name of an item, as it can stand in a tag. -/
structure ItemName (name : Text) : Prop where
  fits : name.length < maxPiLen
  noOpen : '<' ∉ name
  noClose : '>' ∉ name
  noSlash : '/' ∉ name
  noNul : '\x00' ∉ name

variable {name : Text}

theorem ItemName.tagFits (h : ItemName name) : TagFits name := by
  have hfits := h.fits
  unfold maxPiLen at hfits
  unfold TagFits MAX_NAME_LEN MAX_PATH_ALLOWED
  omega

variable {name' R : Text}

/-- A name in front of a closing bracket is all of what is there. -/
theorem eq_of_prefix_close {c : Char} (hname : c ∉ name) (hname' : c ∉ name') (hpre : name <+: name' ++ c :: R)
    (hclose : (name' ++ c :: R)[name.length]? = some c) : name = name' := by
  obtain ⟨S, hS⟩ := hpre
  rw [← hS, List.getElem?_append_right (le_refl _), Nat.sub_self] at hclose
  cases S with
  | nil => cases hclose
  | cons d S =>
    obtain rfl : d = c := by simpa using hclose
    exact (first_sep_inj hname hname' hS).1

theorem parseStartTag_bracket {lf : Bool} (h : NoTag junk) (hnot : ¬ (name <+: R ∧ R[name.length]? = some '>')) :
    parseStartTag name lf (junk ++ '<' :: R) = none := by
  have hdrop : (junk ++ '<' :: R).drop (junk.length + 1) = R := by
    rw [← List.drop_drop, List.drop_left, List.drop_one, List.tail_cons]
  have hfind : strstr ['<'] (junk ++ '<' :: R) = some junk.length := strstr_bracket h [] R
  unfold parseStartTag
  simp only [hfind, hdrop, List.isPrefixOf_iff_prefix]
  rw [if_neg hnot]

theorem NextIsNot.startTag (hname : ItemName name) (hname' : ItemName name') (hne : name ≠ name') (lf : Bool)
    (R : Text) : NextIsNot name (startTag name' lf ++ R) := by
  intro junk lf' h
  have hsplit : Pack.startTag name' lf ++ R = '<' :: (name' ++ '>' :: ((if lf then ['\n'] else []) ++ R)) := by
    cases lf <;> simp [Pack.startTag]
  rw [hsplit]
  refine parseStartTag_bracket h fun ⟨hpre, hclose⟩ => hne ?_
  exact eq_of_prefix_close hname.noClose hname'.noClose hpre hclose

theorem NextIsNot.endTag (hname : ItemName name) (name' R : Text) : NextIsNot name (endTag name' ++ R) := by
  intro junk lf h
  refine parseStartTag_bracket (R := '/' :: (name' ++ ['>', '\n'] ++ R)) h fun ⟨hpre, hclose⟩ => ?_
  cases name with
  | nil => exact absurd hclose (by simp)
  | cons c name =>
    obtain ⟨rfl, -⟩ := List.cons_prefix_cons.mp hpre
    exact hname.noSlash List.mem_cons_self

/-! ## Escaping -/

theorem noTag_xmlChar (c : Char) : NoTag (xmlChar c) := by
  unfold xmlChar
  unfold NoTag
  split_ifs with h₁ h₂
  case neg => exact fun hmem => h₂ (List.mem_singleton.mp hmem).symm
  all_goals decide

theorem noTag_escaped (s : Text) : NoTag (s.flatMap xmlChar) := by
  intro hmem
  obtain ⟨c, -, hc⟩ := List.mem_flatMap.mp hmem
  exact noTag_xmlChar c hc

theorem xmlStrToStrFrom_skip (skipped R : Text) :
    xmlStrToStrFrom skipped.length (skipped ++ R) = xmlStrToStrFrom 0 R := by
  induction skipped with
  | nil => rfl
  | cons c cs ih => exact ih

theorem xmlStrToStrFrom_entity (entity : Text) {c : Char} (R : Text)
    (h : xmlEntities.find? (fun entry => entry.1.isPrefixOf (entity ++ R)) = some (entity, c)) :
    xmlStrToStrFrom 0 ('&' :: (entity ++ R)) = c :: xmlStrToStrFrom 0 R := by
  rw [xmlStrToStrFrom, if_pos rfl, h]
  dsimp only
  rw [xmlStrToStrFrom_skip]

theorem xmlStrToStrFrom_xmlChar (c : Char) (R : Text) :
    xmlStrToStrFrom 0 (xmlChar c ++ R) = c :: xmlStrToStrFrom 0 R := by
  unfold xmlChar
  split_ifs with h₁ h₂ h₃ h₄ h₅
  · exact h₁ ▸ xmlStrToStrFrom_entity "amp;".toList R rfl
  · exact h₂ ▸ xmlStrToStrFrom_entity "lt;".toList R rfl
  · exact h₃ ▸ xmlStrToStrFrom_entity "gt;".toList R rfl
  · exact h₄ ▸ xmlStrToStrFrom_entity "quot;".toList R rfl
  · exact h₅ ▸ xmlStrToStrFrom_entity "apos;".toList R rfl
  · rw [List.singleton_append, xmlStrToStrFrom, if_neg h₁]

theorem xmlStrToStr_escaped (s : Text) : xmlStrToStr (s.flatMap xmlChar) = s := by
  unfold xmlStrToStr
  induction s with
  | nil => rfl
  | cons c cs ih => rw [List.flatMap_cons, xmlStrToStrFrom_xmlChar, ih]

end Pack
