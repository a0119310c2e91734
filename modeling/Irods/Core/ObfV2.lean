-- SUMMARY: Version-2 password scrambling with its static buffer.
import Irods.Core.Obf
import Mathlib.Data.List.TakeWhile

/-!
# Version 2

`obfEncodeByKeyV2` puts a prefix in front of the text and scrambles it, with chaining, under a
hash of two keys. `obfDecodeByKeyV2` decodes the same way into a static buffer and looks for
the prefix there; without it the text is taken for version 1 and decoded under the key itself.
The buffer keeps what earlier calls have left behind the terminator.
-/

namespace Obf

open CString StreamCipher
open Option (bind_eq_bind bind_some pure_def)

/-! ## Keys -/

def V2_Prefix : Text := "A.ObfV2".toList

def hexDigit (n : Nat) : Char := if n < 10 then Char.ofNat ('0'.toNat + n) else Char.ofNat ('a'.toNat + (n - 10))

/-- The digest of a string in hexadecimal. -/
def obfGetMD5Hash (md5 : Md5) (s : Text) : Text :=
  (md5 (keyBuf s)).toList.flatMap fun b => [hexDigit (b.toNat / 16), hexDigit (b.toNat % 16)]

/-- `myKey`; a first key of 90 characters is not terminated. -/
def joinKeys (key key2 : Text) : Option Text := if key.length < 90 then some (key ++ key2.take 100) else none

/-- `rval` is added to the leading character. -/
def prefixed (rval : Nat) (s : Text) : Text :=
  Char.ofNat ('A'.toNat + (rval &&& 0x1f)) :: V2_Prefix.drop 1 ++ s.take 150

def obfEncodeByKeyV2 (md5 : Md5) (rval : Nat) (s key key2 : Text) : Option Text := do
  let myKey ← joinKeys key key2
  return obfEncodeByKey md5 true (prefixed rval s) (obfGetMD5Hash md5 myKey)

/-! ## Decoding -/

/-- The static data: the chaining flag and `myOut`. -/
structure Decoder where
  cipherBlockChaining : Bool
  myOut : List Char
  size : myOut.length = 200

/-- As the process starts. -/
def Decoder.init : Decoder := ⟨false, List.replicate 200 '\x00', List.length_replicate⟩

/-- A string with its terminator at the beginning of the buffer, if it fits. -/
def Decoder.write (d : Decoder) (text : Text) : Option Decoder :=
  if h : text.length + 1 ≤ 200 then
    some ⟨d.cipherBlockChaining, text ++ '\x00' :: d.myOut.drop (text.length + 1), by
      have := d.size
      simp only [List.length_append, List.length_cons, List.length_drop]
      omega⟩
  else none

/-- The positions of the prefix but the first are those of the prefix. -/
def showsPrefix (myOut : List Char) : Bool := decide ((myOut.take 7).drop 1 = V2_Prefix.drop 1)

/-- The arguments of a call. -/
structure Call where
  text : Text
  key : Text
  key2 : Text
  noNul : '\x00' ∉ text

/-- The output and the static data afterwards. -/
def obfDecodeByKeyV2 (md5 : Md5) (d : Decoder) (c : Call) : Option (Text × Decoder) := do
  let myKey ← joinKeys c.key c.key2
  let d := { d with cipherBlockChaining := true }
  let d ← d.write (obfDecodeByKey md5 d.cipherBlockChaining c.text (obfGetMD5Hash md5 myKey))
  let d := { d with cipherBlockChaining := false }
  if showsPrefix d.myOut then return (((d.myOut.drop 7).takeWhile (· ≠ '\x00')).take MAX_PASSWORD_LEN, d)
  else return (obfDecodeByKey md5 d.cipherBlockChaining c.text c.key, d)

/-- The chained decoding of the text. -/
def Call.chained (md5 : Md5) (c : Call) : Text :=
  obfDecodeByKey md5 true c.text (obfGetMD5Hash md5 (c.key ++ c.key2.take 100))

/-- What the arguments say the output is. -/
def plain (md5 : Md5) (c : Call) : Text :=
  if showsPrefix (c.chained md5) then ((c.chained md5).drop 7).take MAX_PASSWORD_LEN
  else obfDecodeByKey md5 false c.text c.key

/-- The outputs of a sequence of calls. -/
def outputs (md5 : Md5) : Decoder → List Call → Option (List Text)
  | _, [] => some []
  | d, c :: cs => do
    let (out, d) ← obfDecodeByKeyV2 md5 d c
    return out :: (← outputs md5 d cs)

/-! ## When nothing comes from the buffer -/

/-- The key and the text fit, and an empty text does not meet a password in the buffer. -/
def Unstale (d : Decoder) (c : Call) : Prop :=
  c.key.length < 90 ∧ c.text.length < 200 ∧
    (c.text = [] → showsPrefix d.myOut = true → d.myOut.getD 7 '\x00' = '\x00')

/-- Each call of a sequence, in the state the calls before it leave. -/
def AllUnstale (md5 : Md5) : Decoder → List Call → Prop
  | _, [] => True
  | d, c :: cs => Unstale d c ∧ ∀ out d', obfDecodeByKeyV2 md5 d c = some (out, d') → AllUnstale md5 d' cs

/-- The output of the call is the one that its arguments say. -/
def Exact (md5 : Md5) (d : Decoder) (c : Call) : Prop := ∃ d', obfDecodeByKeyV2 md5 d c = some (plain md5 c, d')

variable {md5 : Md5} {d : Decoder} {c : Call}

theorem scan_noNul {step : KeyState → Char → Char × KeyState} {s : KeyState} {cs : Text}
    (hstep : ∀ s c, (step s c).1 = '\x00' → c = '\x00') (hcs : '\x00' ∉ cs) : '\x00' ∉ (scan step s cs).1 := by
  have hall := run_forall (p := (· ≠ '\x00')) (fun s c d s' h hc hd => by
      obtain ⟨rfl, -⟩ := Prod.mk.inj (Option.some.inj h)
      exact hc (hstep s c hd)) (run_some step s cs) fun c hc => ne_of_mem_of_not_mem hc hcs
  exact fun hmem => hall _ hmem rfl

variable {k : Nat} {x : Char} {chaining : Bool} {key : Text}

theorem turn_noNul (h : Wheel.turn wheel k x = '\x00') : x = '\x00' := by
  have hback := congrArg (Wheel.turnBack wheel k) h
  rw [Wheel.turnBack_turn wheel_nodup, Wheel.turnBack, if_neg wheel_noNul] at hback
  exact hback

theorem turnBack_noNul (h : Wheel.turnBack wheel k x = '\x00') : x = '\x00' := by
  unfold Wheel.turnBack at h
  split at h
  · have hpos : (0 : Int) < wheel.length := by rw [wheel_length]; decide
    have hlt := Int.emod_lt_of_pos ((wheel.idxOf x : Int) - k) hpos
    rw [List.getD_eq_getElem _ _ (by omega)] at h
    exact absurd (h ▸ List.getElem_mem _) wheel_noNul
  · exact h

theorem obfDecodeByKey_noNul {s : Text} (hs : '\x00' ∉ s) :
    '\x00' ∉ obfDecodeByKey md5 chaining s key := scan_noNul (fun _ _ => turnBack_noNul) hs

theorem obfEncodeByKey_noNul {s : Text} (hs : '\x00' ∉ s) :
    '\x00' ∉ obfEncodeByKey md5 chaining s key := scan_noNul (fun _ _ => turn_noNul) hs

theorem chained_length (md5 : Md5) (c : Call) : (c.chained md5).length = c.text.length :=
  obfDecodeByKey_length _ _ _ _

theorem prefix_length : (V2_Prefix.drop 1).length = 6 := rfl

variable {text : Text}

/-- The prefix is seen in the buffer where it is seen in a text that is not empty. -/
theorem showsPrefix_written {stale : Text} (hne : text ≠ []) :
    showsPrefix (text ++ '\x00' :: stale) = showsPrefix text := by
  by_cases hlen : 7 ≤ text.length
  · rw [showsPrefix, showsPrefix, List.take_append_of_le_length hlen]
  · have hpos := List.length_pos_iff.mpr hne
    have hshort : showsPrefix text = false := by
      refine decide_eq_false fun h => ?_
      have hlen := congrArg List.length h
      rw [prefix_length, List.length_drop, List.length_take] at hlen
      omega
    -- the terminator stands where the prefix has a character
    rw [hshort, showsPrefix, decide_eq_false_iff_not]
    intro h
    have hmem : '\x00' ∈ ((text ++ '\x00' :: stale).take 7).drop 1 := by
      refine List.mem_iff_getElem.mpr ⟨text.length - 1, ?_, ?_⟩
      · simp only [List.length_drop, List.length_take, List.length_append, List.length_cons]
        omega
      · rw [List.getElem_drop, List.getElem_take, List.getElem_append_right (by omega)]
        simp [show 1 + (text.length - 1) - text.length = 0 by omega]
    rw [h] at hmem
    exact absurd hmem (by decide)

/-- The buffer after a text that fits. -/
def writtenBuf (d : Decoder) (text : Text) : List Char := text ++ '\x00' :: d.myOut.drop (text.length + 1)

theorem write_fits (h : text.length < 200) :
    ∃ d', d.write text = some d' ∧ d'.myOut = writtenBuf d text ∧ d'.cipherBlockChaining = d.cipherBlockChaining := by
  rw [Decoder.write, dif_pos (Nat.succ_le_of_lt h)]
  exact ⟨_, rfl, rfl, rfl⟩

theorem write_overruns (h : ¬ text.length < 200) : d.write text = none := by
  rw [Decoder.write, dif_neg (by omega)]

/-- The output, from the text that stands in front of the terminator and what is behind it. -/
def decoded (md5 : Md5) (d : Decoder) (c : Call) : Text :=
  if showsPrefix (writtenBuf d (c.chained md5)) then
    (((writtenBuf d (c.chained md5)).drop 7).takeWhile (· ≠ '\x00')).take MAX_PASSWORD_LEN
  else obfDecodeByKey md5 false c.text c.key

theorem obfDecodeByKeyV2_fits (md5 : Md5) (d : Decoder) (hkey : c.key.length < 90) (htext : c.text.length < 200) :
    ∃ d', obfDecodeByKeyV2 md5 d c = some (decoded md5 d c, d') := by
  have hlen : (c.chained md5).length < 200 := by rwa [chained_length]
  obtain ⟨d', hwrite, hout, -⟩ := write_fits (d := { d with cipherBlockChaining := true }) hlen
  refine ⟨{ d' with cipherBlockChaining := false }, ?_⟩
  have hsame : d'.myOut = writtenBuf d (c.chained md5) := hout
  unfold Call.chained at hwrite
  simp only [obfDecodeByKeyV2, joinKeys, if_pos hkey, hwrite, hsame, bind_eq_bind, bind_some,
    pure_def, decoded]
  split <;> rfl

theorem obfDecodeByKeyV2_overruns (h : ¬ (c.key.length < 90 ∧ c.text.length < 200)) :
    obfDecodeByKeyV2 md5 d c = none := by
  unfold obfDecodeByKeyV2 joinKeys
  by_cases hkey : c.key.length < 90
  · have hlen : ¬ (c.chained md5).length < 200 := by
      rw [chained_length]
      exact fun htext => h ⟨hkey, htext⟩
    have hover := write_overruns (d := { d with cipherBlockChaining := true }) hlen
    unfold Call.chained at hover
    simp only [if_pos hkey, bind_eq_bind, bind_some, hover, Option.bind_none]
  · simp only [if_neg hkey, bind_eq_bind, Option.bind_none]

/-- A text that is not empty leaves nothing of the buffer to be seen. -/
theorem decoded_of_ne_nil (hne : c.text ≠ []) : decoded md5 d c = plain md5 c := by
  have hchained : c.chained md5 ≠ [] := by
    rw [← List.length_pos_iff, chained_length]
    exact List.length_pos_iff.mpr hne
  unfold decoded plain
  rw [writtenBuf, showsPrefix_written hchained]
  by_cases hshows : showsPrefix (c.chained md5) = true
  · have hlen : 7 ≤ (c.chained md5).length := by
      have hlen := congrArg List.length (of_decide_eq_true hshows)
      rw [prefix_length, List.length_drop, List.length_take] at hlen
      omega
    have hnoNul : '\x00' ∉ (c.chained md5).drop 7 := fun hmem =>
      obfDecodeByKey_noNul c.noNul (List.mem_of_mem_drop hmem)
    rw [if_pos hshows, if_pos hshows, List.drop_append_of_le_length hlen, takeWhile_stop (by decide),
      List.takeWhile_eq_self_iff.mpr fun x hx => decide_eq_true (ne_of_mem_of_not_mem hx hnoNul)]
  · rw [if_neg hshows, if_neg hshows]

/-- An empty text is answered with the password in the buffer, if there is one. -/
theorem decoded_nil_iff (hnil : c.text = []) :
    decoded md5 d c = plain md5 c ↔ (showsPrefix d.myOut = true → d.myOut.getD 7 '\x00' = '\x00') := by
  have hchained : c.chained md5 = [] := by rw [Call.chained, hnil]; rfl
  have hplain : plain md5 c = [] := by
    rw [plain, hchained, hnil, if_neg (by decide)]
    rfl
  have hsize := d.size
  have hbuf : writtenBuf d [] = '\x00' :: d.myOut.drop 1 := rfl
  have hshows : showsPrefix (writtenBuf d []) = showsPrefix d.myOut := by
    rw [hbuf, showsPrefix, showsPrefix, List.take_succ_cons, List.drop_succ_cons, List.drop_zero, List.drop_take]
  have hrest : (writtenBuf d []).drop 7 = d.myOut.drop 7 := by
    rw [hbuf, List.drop_succ_cons, List.drop_drop]
  obtain ⟨rest, hdrop⟩ : ∃ rest, d.myOut.drop 7 = d.myOut.getD 7 '\x00' :: rest := by
    refine ⟨d.myOut.drop 8, ?_⟩
    rw [List.drop_eq_getElem_cons (by omega), List.getD_eq_getElem _ _ (by omega)]
  rw [hplain, decoded, hchained, hshows, hrest, hdrop]
  generalize d.myOut.getD 7 '\x00' = seventh
  by_cases hstale : showsPrefix d.myOut = true
  · rw [if_pos hstale]
    by_cases hend : seventh = '\x00'
    · simp [hend]
    · simp [hend, hstale, MAX_PASSWORD_LEN]
  · rw [if_neg hstale, hnil]
    exact ⟨fun _ hshown => absurd hshown hstale, fun _ => rfl⟩

theorem exact_iff_unstale (md5 : Md5) : Exact md5 d c ↔ Unstale d c := by
  by_cases hfits : c.key.length < 90 ∧ c.text.length < 200
  · obtain ⟨d', hcall⟩ := obfDecodeByKeyV2_fits md5 d hfits.1 hfits.2
    have hexact : Exact md5 d c ↔ decoded md5 d c = plain md5 c := by
      constructor
      · rintro ⟨d₂, hcall₂⟩
        exact (Prod.mk.inj (Option.some.inj (hcall.symm.trans hcall₂))).1
      · intro heq
        exact ⟨d', heq ▸ hcall⟩
    rw [hexact]
    by_cases hnil : c.text = []
    · rw [decoded_nil_iff hnil]
      exact ⟨fun h => ⟨hfits.1, hfits.2, fun _ => h⟩, fun h => h.2.2 hnil⟩
    · exact ⟨fun _ => ⟨hfits.1, hfits.2, fun h => absurd h hnil⟩, fun _ => decoded_of_ne_nil hnil⟩
  · constructor
    · rintro ⟨d', hcall⟩
      rw [obfDecodeByKeyV2_overruns hfits] at hcall
      cases hcall
    · exact fun h => absurd ⟨h.1, h.2.1⟩ hfits

theorem outputs_iff (d : Decoder) (calls : List Call) :
    outputs md5 d calls = some (calls.map (plain md5)) ↔ AllUnstale md5 d calls := by
  induction calls generalizing d with
  | nil => simp [outputs, AllUnstale]
  | cons c calls ih =>
    unfold AllUnstale
    rw [← exact_iff_unstale md5]
    simp only [outputs, bind_eq_bind, Option.bind_eq_some_iff, pure_def, Option.some.injEq,
      Prod.exists, List.map_cons, List.cons.injEq]
    constructor
    · rintro ⟨out, d', hcall, outs, houts, rfl, rfl⟩
      refine ⟨⟨d', hcall⟩, fun out₂ d₂ hcall₂ => ?_⟩
      obtain ⟨-, rfl⟩ := Prod.mk.inj (Option.some.inj (hcall.symm.trans hcall₂))
      exact (ih d').mp houts
    · rintro ⟨⟨d', hcall⟩, hrest⟩
      exact ⟨_, d', hcall, _, (ih d').mpr (hrest _ d' hcall), rfl, rfl⟩

/-! ## Round trips -/

variable {s key key2 encoded : Text} {rval : Nat}

theorem prefixed_noNul (hs : '\x00' ∉ s) : '\x00' ∉ prefixed rval s := by
  have hfirst : ∀ x ≤ 0x1f, Char.ofNat ('A'.toNat + x) ≠ '\x00' := by decide
  simp only [prefixed, List.cons_append, List.mem_cons, List.mem_append, not_or]
  exact ⟨(hfirst _ Nat.and_le_right).symm, by decide, fun hmem => hs (List.mem_of_mem_take hmem)⟩

/-- A text that version 2 scrambled is decoded in every state. -/
theorem obfDecodeByKeyV2_obfEncodeByKeyV2 (hs : s.length < MAX_PASSWORD_LEN) (hkey : key.length < 90)
    (hencoded : obfEncodeByKeyV2 md5 rval s key key2 = some encoded) (hnul : '\x00' ∉ encoded) (d : Decoder) :
    ∃ d', obfDecodeByKeyV2 md5 d ⟨encoded, key, key2, hnul⟩ = some (s, d') := by
  have henc : obfEncodeByKey md5 true (prefixed rval s) (obfGetMD5Hash md5 (key ++ key2.take 100)) = encoded := by
    simpa [obfEncodeByKeyV2, joinKeys, hkey] using hencoded
  have hchained : Call.chained md5 ⟨encoded, key, key2, hnul⟩ = prefixed rval s := by
    have hback := obfDecodeByKey_obfEncodeByKey md5 true (prefixed rval s) (obfGetMD5Hash md5 (key ++ key2.take 100))
    rw [henc] at hback
    exact hback
  have hplain : plain md5 ⟨encoded, key, key2, hnul⟩ = s := by
    have hshows : showsPrefix (prefixed rval s) = true := rfl
    rw [plain, hchained, if_pos hshows]
    change (s.take 150).take MAX_PASSWORD_LEN = s
    rw [List.take_take, List.take_of_length_le (by unfold MAX_PASSWORD_LEN at hs ⊢; omega)]
  have hlen : encoded.length = s.length + 7 := by
    unfold MAX_PASSWORD_LEN at hs
    rw [← henc, obfEncodeByKey_length, prefixed, List.cons_append, List.length_cons, List.length_append,
      prefix_length, List.length_take]
    omega
  have hunstale : Unstale d ⟨encoded, key, key2, hnul⟩ := by
    refine ⟨hkey, ?_, fun hnil => ?_⟩
    · change encoded.length < 200
      unfold MAX_PASSWORD_LEN at hs
      omega
    · obtain rfl : encoded = [] := hnil
      cases hlen
  obtain ⟨d', hcall⟩ := (exact_iff_unstale md5).mpr hunstale
  exact ⟨d', hplain ▸ hcall⟩

/-- A text that version 1 scrambled and that does not show the prefix is decoded when nothing comes from the buffer. -/
theorem obfDecodeByKeyV2_obfEncodeByKey (hnul : '\x00' ∉ obfEncodeByKey md5 false s key)
    (hshows : showsPrefix (Call.chained md5 ⟨obfEncodeByKey md5 false s key, key, key2, hnul⟩) = false)
    (d : Decoder) :
    (∃ d', obfDecodeByKeyV2 md5 d ⟨obfEncodeByKey md5 false s key, key, key2, hnul⟩ = some (s, d')) ↔
      Unstale d ⟨obfEncodeByKey md5 false s key, key, key2, hnul⟩ := by
  have hplain : plain md5 ⟨obfEncodeByKey md5 false s key, key, key2, hnul⟩ = s := by
    rw [plain, if_neg (by rw [hshows]; decide)]
    exact obfDecodeByKey_obfEncodeByKey md5 false s key
  rw [← exact_iff_unstale md5, Exact, hplain]

theorem obfEncodeByKeyV2_fits (md5 : Md5) (rval : Nat) (key2 : Text) (hs : '\x00' ∉ s) (hkey : key.length < 90) :
    ∃ encoded, obfEncodeByKeyV2 md5 rval s key key2 = some encoded ∧ '\x00' ∉ encoded := by
  simp only [obfEncodeByKeyV2, joinKeys, if_pos hkey, bind_eq_bind, bind_some, pure_def]
  exact ⟨_, rfl, obfEncodeByKey_noNul (prefixed_noNul hs)⟩

/-- The outputs of a sequence of calls are those their arguments say exactly when no call meets a password in the
buffer; what version 2 scrambled is always decoded, and what version 1 scrambled under the same condition. -/
theorem obfDecodeByKeyV2_exact (md5 : Md5) :
    (∀ d calls, outputs md5 d calls = some (calls.map (plain md5)) ↔ AllUnstale md5 d calls) ∧
    (∀ d rval s key key2, '\x00' ∉ s → s.length < MAX_PASSWORD_LEN → key.length < 90 →
      ∃ encoded, ∃ hnul : '\x00' ∉ encoded, obfEncodeByKeyV2 md5 rval s key key2 = some encoded ∧
        ∃ d', obfDecodeByKeyV2 md5 d ⟨encoded, key, key2, hnul⟩ = some (s, d')) ∧
    (∀ d s key key2, ∀ hnul : '\x00' ∉ obfEncodeByKey md5 false s key,
      showsPrefix (Call.chained md5 ⟨obfEncodeByKey md5 false s key, key, key2, hnul⟩) = false →
        ((∃ d', obfDecodeByKeyV2 md5 d ⟨obfEncodeByKey md5 false s key, key, key2, hnul⟩ = some (s, d')) ↔
          Unstale d ⟨obfEncodeByKey md5 false s key, key, key2, hnul⟩)) := by
  refine ⟨outputs_iff, fun d rval s key key2 hs hlen hkey => ?_, fun d s key key2 hnul hshows => ?_⟩
  · obtain ⟨encoded, hencoded, hnul⟩ := obfEncodeByKeyV2_fits md5 rval key2 hs hkey
    exact ⟨encoded, hnul, hencoded, obfDecodeByKeyV2_obfEncodeByKeyV2 hlen hkey hencoded hnul d⟩
  · exact obfDecodeByKeyV2_obfEncodeByKey hnul hshows d

/-- A digest that does not look at its input. -/
def zeroDigest : Md5 := fun _ => Vector.replicate 16 0

theorem obfDecodeByKeyV2_exact_rods :
    ∃ encoded, ∃ hnul : '\x00' ∉ encoded, obfEncodeByKeyV2 zeroDigest 7 "rods!".toList "key".toList "sig".toList =
        some encoded ∧
      ∃ d', obfDecodeByKeyV2 zeroDigest Decoder.init ⟨encoded, "key".toList, "sig".toList, hnul⟩ =
        some ("rods!".toList, d') :=
  (obfDecodeByKeyV2_exact zeroDigest).2.1 Decoder.init 7 "rods!".toList "key".toList "sig".toList (by decide)
    (by decide) (by decide)

/-- What version 2 makes of the text `rods!`. -/
def rodsCall : Call :=
  ⟨(obfEncodeByKeyV2 zeroDigest 7 "rods!".toList "key".toList "sig".toList).getD [], "key".toList, "sig".toList,
    by decide +kernel⟩

def emptyCall : Call := ⟨[], "other".toList, "sig2".toList, nofun⟩

/-- An empty text after it is answered with that text, and before it with none. -/
theorem output_not_of_arguments :
    ¬ ∃ f : Call → Text, ∀ calls outs, outputs zeroDigest Decoder.init calls = some outs → outs = calls.map f := by
  rintro ⟨f, hf⟩
  have hafter := hf [rodsCall, emptyCall] ["rods!".toList, "rods!".toList] (by decide +kernel)
  have hbefore := hf [emptyCall, rodsCall] [[], "rods!".toList] (by decide +kernel)
  simp only [List.map_cons, List.map_nil, List.cons.injEq, and_true] at hafter hbefore
  exact absurd (hafter.2.trans hbefore.1.symm) (by decide)

end Obf
