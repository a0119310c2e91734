-- SUMMARY: Which strings the two sides of a string field accept.
import Irods.Pack.XmlText

/-!
# The length of a string field

A field of size `max` holds a string and its terminator. The four routines compare the length
with the size on their own, and the native receiver counts the terminator.
-/

namespace Pack

open CString EStateM

/-! ## Sending -/

/-- What is sent for a string, in the native protocol and in XML. -/
def natString (s : Text) : Text := s ++ ['\x00']

def xmlString (item : PackItem) (s : Text) : Text :=
  startTag item.name false ++ (s.flatMap xmlChar ++ endTag item.name)

variable {out out' : PackedOutput Char} {u : Unit} {s : Text}

theorem append_ok {extLen count : Nat} {text : Text} (h : append extLen count text out = .ok u out') :
    out'.buf = out.buf ++ text := by
  obtain ⟨_, out₁, hstore, hbuf⟩ := bind_ok.mp h
  obtain rfl := modify_ok.mp hstore
  obtain rfl := modify_ok.mp hbuf
  unfold extendPackedOutput
  dsimp only
  split
  · rfl
  · split
    · rfl
    · rfl

theorem packNatString_isOk (maxStrLen : Option Nat) (s : Text) (out : PackedOutput Char) :
    isOk (packNatString maxStrLen s out) = ! tooLong s.length maxStrLen := by
  unfold packNatString
  cases tooLong s.length maxStrLen with
  | false => rfl
  | true => rfl

variable {maxStrLen : Option Nat}

theorem packNatString_sends (h : packNatString maxStrLen s out = .ok u out') : out'.buf = out.buf ++ natString s := by
  obtain ⟨_, out₁, hrefuse, hbuf⟩ := bind_ok.mp h
  cases hlong : tooLong s.length maxStrLen with
  | false =>
    rw [hlong] at hrefuse
    obtain ⟨-, rfl⟩ := pure_ok.mp hrefuse
    exact append_ok hbuf
  | true =>
    rw [hlong] at hrefuse
    exact absurd hrefuse not_throw_ok

/-- The copy of the string has room for it. -/
def EscapeFits (s : Text) : Prop := (s.flatMap xmlChar).length + 1 ≤ 5 * s.length + 6

instance (s : Text) : Decidable (EscapeFits s) := inferInstanceAs (Decidable (_ ≤ _))

theorem strToXmlStr_fits (h : EscapeFits s) : strToXmlStr s = .ok (s.flatMap xmlChar) := if_pos h

theorem strToXmlStr_overflows (h : ¬ EscapeFits s) : strToXmlStr s = .error .undefined := if_neg h

theorem packXmlString_isOk (item : PackItem) (maxStrLen : Option Nat) (s : Text) (out : PackedOutput Char) :
    isOk (packXmlString item maxStrLen s out) = (decide (EscapeFits s) && ! tooLong s.length maxStrLen) := by
  unfold packXmlString
  by_cases hfits : EscapeFits s
  · rw [strToXmlStr_fits hfits, decide_eq_true hfits]
    cases tooLong s.length maxStrLen with
    | false => rfl
    | true => rfl
  · rw [strToXmlStr_overflows hfits, decide_eq_false hfits]
    rfl

variable {item : PackItem}

theorem packXmlString_sends (h : packXmlString item maxStrLen s out = .ok u out') :
    out'.buf = out.buf ++ xmlString item s := by
  have hok : isOk (packXmlString item maxStrLen s out) = true := isOk_iff.mpr ⟨u, out', h⟩
  rw [packXmlString_isOk, Bool.and_eq_true_iff, decide_eq_true_eq, Bool.not_eq_true'] at hok
  unfold packXmlString at h
  rw [strToXmlStr_fits hok.1, hok.2] at h
  obtain ⟨_, out₁, hescape, h⟩ := bind_ok.mp h
  obtain ⟨rfl, rfl⟩ := pure_ok.mp hescape
  obtain ⟨_, out₂, hrefuse, h⟩ := bind_ok.mp h
  obtain ⟨-, rfl⟩ := pure_ok.mp hrefuse
  obtain ⟨_, out₃, hstart, h⟩ := bind_ok.mp h
  obtain ⟨_, out₄, hvalue, hend⟩ := bind_ok.mp h
  rw [append_ok hend, append_ok hvalue, append_ok hstart, xmlString, List.append_assoc, List.append_assoc]

/-! ## Receiving -/

theorem cString_natString (hs : '\x00' ∉ s) (rest : Text) : cString (natString s ++ rest) = .ok (s, rest) := by
  have htake : (natString s ++ rest).takeWhile (· ≠ '\x00') = s := by
    rw [natString, List.append_assoc, List.singleton_append, takeWhile_stop (by decide), List.takeWhile_eq_self_iff]
    exact fun c hc => decide_eq_true (ne_of_mem_of_not_mem hc hs)
  have hlen : s.length ≠ (natString s ++ rest).length := by
    simp [natString]
  unfold cString
  rw [htake]
  rw [if_neg hlen, natString, List.append_assoc, ← List.drop_drop, List.drop_left]
  rfl

theorem unpackNatString_isOk (hs : '\x00' ∉ s) (maxStrLen : Option Nat) (rest : Text) (out : PackedOutput Cell) :
    isOk (unpackNatString maxStrLen (natString s ++ rest) out) = ! tooLong (s.length + 1) maxStrLen := by
  unfold unpackNatString
  rw [cString_natString hs]
  show isOk ((refuse (tooLong (s.length + 1) maxStrLen) _ >>= _) out) = _
  cases tooLong (s.length + 1) maxStrLen with
  | false => rfl
  | true => rfl

theorem unpackXmlString_isOk (hname : TagFits item.name) (s : Text) (maxStrLen : Option Nat)
    (rest : Text) (out : PackedOutput Cell) :
    isOk (unpackXmlString item maxStrLen (xmlString item s ++ rest) out) = ! tooLong s.length maxStrLen := by
  have hparse := parseXmlValue_value hname NoTag.nil (noTag_escaped s) rest
  rw [List.nil_append] at hparse
  unfold unpackXmlString xmlString
  rw [List.append_assoc, List.append_assoc, hparse]
  dsimp only
  rw [List.take_left, xmlStrToStr_escaped]
  cases tooLong s.length maxStrLen with
  | false => cases maxStrLen <;> rfl
  | true => rfl

/-! ## Both sides -/

theorem not_tooLong_iff {strLen maxStrLen : Nat} : (! tooLong strLen (some maxStrLen)) = true ↔ strLen < maxStrLen := by
  rw [tooLong, Bool.not_eq_true', decide_eq_false_iff_not, Nat.not_le]

/-- The native receiver refuses the longest string that fits; in XML both sides agree on what
can be escaped. -/
theorem string_accepted_iff (hname : TagFits item.name) (maxStrLen : Nat) {s : Text}
    (hs : '\x00' ∉ s) (rest : Text) (out : PackedOutput Char) (out' : PackedOutput Cell) :
    (∀ u sent, packNatString (some maxStrLen) s out = .ok u sent → sent.buf = out.buf ++ natString s) ∧
    (∀ u sent, packXmlString item (some maxStrLen) s out = .ok u sent → sent.buf = out.buf ++ xmlString item s) ∧
    ((isOk (packNatString (some maxStrLen) s out) ↔
      isOk (unpackNatString (some maxStrLen) (natString s ++ rest) out')) ↔ s.length + 1 ≠ maxStrLen) ∧
    ((isOk (packXmlString item (some maxStrLen) s out) ↔
      isOk (unpackXmlString item (some maxStrLen) (xmlString item s ++ rest) out')) ↔
      (s.length < maxStrLen → EscapeFits s)) := by
  refine ⟨fun u sent => packNatString_sends, fun u sent => packXmlString_sends, ?_, ?_⟩
  · rw [packNatString_isOk, unpackNatString_isOk hs, not_tooLong_iff, not_tooLong_iff]
    omega
  · rw [packXmlString_isOk, unpackXmlString_isOk hname, Bool.and_eq_true_iff, not_tooLong_iff, decide_eq_true_eq]
    tauto

theorem string_accepted_iff_abc :
    isOk (packNatString (some 5) "abc".toList (initPackedOutput packedOutAllocSz)) ↔
      isOk (unpackNatString (some 5) (natString "abc".toList ++ []) (initPackedOutput packedOutAllocSz)) :=
  (@string_accepted_iff { name := "a".toList } (show 1 + 3 < 1088 by decide) 5 _ (by decide) []
    (initPackedOutput packedOutAllocSz) (initPackedOutput packedOutAllocSz)).2.2.1.mpr (by decide)

/-- The longest string for a field of four characters. -/
theorem longest_string_refused :
    isOk (packNatString (some 4) "abc".toList (initPackedOutput packedOutAllocSz)) = true ∧
    isOk (unpackNatString (some 4) (natString "abc".toList) (initPackedOutput packedOutAllocSz)) = false ∧
    isOk (unpackXmlString { name := "a".toList } (some 4) (xmlString { name := "a".toList } "abc".toList)
      (initPackedOutput packedOutAllocSz)) = true := by
  decide +kernel

end Pack
