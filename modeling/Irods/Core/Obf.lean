-- SUMMARY: Password scrambling: each decoder reads what its encoder wrote.
import Irods.Base.CInt
import Irods.Base.CString
import Irods.Base.StreamCipher

/-!
# Scrambled passwords

Both pairs of routines turn the characters of a wheel of 77. `obfiEncode` turns by a window
of five bits of a pattern that a random nibble picks, plus an extra number and the masked
user id; in front of the text stands a head with the time. `obfEncodeByKey` turns by the
bytes of a chain of MD5 digests of the key and, when chaining, by the character written
last. MD5 is a parameter.

The sums of `obfiEncode` are `int` sums: `none` stands for one that overflows.
-/

namespace Obf

open StreamCipher
open Option (bind_eq_bind bind_eq_some_iff bind_some pure_def)

def MAX_PASSWORD_LEN : Nat := 50

def AUTH_FILE_NOT_ENCRYPTED : Int := -906000

/-! ## The wheel -/

/-- `n` characters from `c` on. -/
def charsFrom (c : Char) (n : Nat) : Text := (List.range n).map fun i => Char.ofNat (c.toNat + i)

def wheel : List Char := charsFrom '0' 10 ++ charsFrom 'A' 26 ++ charsFrom 'a' 26 ++ charsFrom '!' 15

theorem wheel_nodup : wheel.Nodup := by decide +kernel

theorem wheel_length : wheel.length = 77 := by decide +kernel

theorem wheel_noNul : '\x00' ∉ wheel := by decide +kernel

/-! ## With a pattern -/

/-- The pattern for each pseudo random number. -/
def seqs : List Nat :=
  [0xd768b678, 0xedfdaf56, 0x2420231b, 0x987098d8, 0xc1bdfeee, 0xf572341f, 0x478def3a, 0xa830d343,
    0x774dfa2a, 0x6720731e, 0x346fa320, 0x6ffdf43a, 0x7723a320, 0xdf67d02e, 0x86ad240a, 0xe76d342e]

/-- The sum of two `int`s that are not negative. -/
def addInt (x y : Nat) : Option Nat := if x + y < intBound then some (x + y) else none

/-- What both sides of the scrambling know: the user id and the argument `extra`. -/
structure Session where
  uid : Nat
  extra : Nat

def uidMask : Nat := 0xf5f

/-- How far the wheel is turned with the window at `addin_i`. -/
def addin (p : Session) (rval addin_i : Nat) : Option Nat := do
  addInt (← addInt ((seqs.getD rval 0 >>> addin_i) &&& 0x1f) p.extra) (p.uid &&& uidMask)

/-- The window moves by three bits and starts again. -/
def nextAddin (addin_i : Nat) : Nat := if addin_i + 3 > 28 then 0 else addin_i + 3

def encodeStep (p : Session) (rval addin_i : Nat) (c : Char) : Option (Char × Nat) := do
  let addin ← addin p rval addin_i
  if c ∈ wheel then
    let _ ← addInt (wheel.idxOf c) addin
  return (Wheel.turn wheel addin c, nextAddin addin_i)

def decodeStep (p : Session) (rval addin_i : Nat) (c : Char) : Option (Char × Nat) := do
  let addin ← addin p rval addin_i
  return (Wheel.turnBack wheel addin c, nextAddin addin_i)

def lowerFrom (n : Nat) : Char := Char.ofNat (n + 'a'.toNat)

/-- The check value and the time in four nibbles. -/
def headstring (rval now : Nat) : Text :=
  [Char.ofNat ('S'.toNat - (rval &&& 0x7) * 2), lowerFrom ((now >>> 4) &&& 0xf), lowerFrom (now &&& 0xf),
    lowerFrom ((now >>> 12) &&& 0xf), lowerFrom ((now >>> 8) &&& 0xf)]

/-- The key character. -/
def keyChar (rval : Nat) : Char := Char.ofNat (rval + 'e'.toNat)

/-- `timeVal`, or the clock when it is 0. -/
def timeOr (timeVal clock : Nat) : Nat := if timeVal ≠ 0 then timeVal else clock

/-- The sum is also made for the terminator. -/
def obfiEncode (p : Session) (rval timeVal clock : Nat) (s : Text) : Option Text := do
  let (head, addin_i) ← run (encodeStep p rval) 0 (headstring rval (timeOr timeVal clock))
  let (body, addin_i) ← run (encodeStep p rval) addin_i s
  let _ ← addin p rval addin_i
  return '.' :: head ++ keyChar rval :: body

/-- 0 for two times that are near each other. -/
def obfiTimeCheck (time1 time2 : Int) : Int :=
  if |time1 - time2| < 20 then 0
  else
    let time1 := if time1 < 65000 then time1 + 65535 else time1
    let time2 := if time2 < 65000 then time2 + 65535 else time2
    if |time1 - time2| < 20 then 0 else 1

/-- The distance of a character from `a`. -/
def fromA (c : Char) : Int := (c.toNat : Int) - 'a'.toNat

def encodedTime : Text → Int
  | [_, h1, h2, h3, h4] => fromA h1 * 16 + fromA h2 + fromA h3 * 4096 + fromA h4 * 256
  | _ => 0

/-- The checks of the head. -/
def isEncrypted (rval timeVal : Nat) (dot : Char) (head : Text) : Bool :=
  dot = '.' ∧ head.head? = some (Char.ofNat ('S'.toNat - (rval &&& 0x7) * 2)) ∧
    obfiTimeCheck (encodedTime head) timeVal = 0

/-- The status and the output. A text that is too short or has no valid key is returned. -/
def obfiDecode (p : Session) (timeVal clock : Nat) (s : Text) : Option (Int × Text) :=
  match s with
  | dot :: h0 :: h1 :: h2 :: h3 :: h4 :: key :: rest =>
    if key.toNat < 'e'.toNat ∨ 15 < key.toNat - 'e'.toNat then some (AUTH_FILE_NOT_ENCRYPTED, s)
    else do
      let rval := key.toNat - 'e'.toNat
      let (head, addin_i) ← run (decodeStep p rval) 0 [h0, h1, h2, h3, h4]
      if isEncrypted rval (timeOr timeVal clock) dot head then
        let (body, addin_i) ← run (decodeStep p rval) addin_i rest
        let _ ← addin p rval addin_i
        return (0, body)
      else return (AUTH_FILE_NOT_ENCRYPTED, s)
  | _ => some (AUTH_FILE_NOT_ENCRYPTED, s)

/-! ## With a key -/

/-- MD5, as the function of its input that it is. -/
abbrev Md5 : Type := List UInt8 → Vector UInt8 16

/-- `strncpy` into a buffer of 100 zero bytes. -/
def keyBuf (key : Text) : List UInt8 :=
  let bytes := (key.take 100).map fun c => c.toNat.toUInt8
  bytes ++ List.replicate (100 - bytes.length) 0

/-- Four digests of 16 bytes. -/
def keyBuffer (md5 : Md5) (key : Text) : List UInt8 :=
  let first := (md5 (keyBuf key)).toList
  let second := first ++ (md5 first).toList
  second ++ (md5 second).toList ++ (md5 second).toList

/-- `cpKey` as a position, and the previous character. -/
structure KeyState where
  cpKey : Nat
  pc : Nat

def nextCpKey (cpKey : Nat) : Nat := if cpKey + 1 > 60 then 0 else cpKey + 1

def encodeByKeyStep (buffer : List UInt8) (chaining : Bool) (s : KeyState) (c : Char) : Char × KeyState :=
  let k := (buffer.getD s.cpKey 0).toNat
  let d := Wheel.turn wheel (k + s.pc) c
  (d, { cpKey := nextCpKey s.cpKey, pc := if c ∈ wheel ∧ chaining then d.toNat % 256 else s.pc })

def decodeByKeyStep (buffer : List UInt8) (chaining : Bool) (s : KeyState) (c : Char) : Char × KeyState :=
  let k := (buffer.getD s.cpKey 0).toNat
  (Wheel.turnBack wheel (k + s.pc) c,
    { cpKey := nextCpKey s.cpKey, pc := if c ∈ wheel ∧ chaining then c.toNat % 256 else s.pc })

def obfEncodeByKey (md5 : Md5) (cipherBlockChaining : Bool) (s key : Text) : Text :=
  (scan (encodeByKeyStep (keyBuffer md5 key) cipherBlockChaining) ⟨0, 0⟩ s).1

def obfDecodeByKey (md5 : Md5) (cipherBlockChaining : Bool) (s key : Text) : Text :=
  (scan (decodeByKeyStep (keyBuffer md5 key) cipherBlockChaining) ⟨0, 0⟩ s).1

theorem decodeByKeyStep_encodeByKeyStep (buffer : List UInt8) (chaining : Bool) (s : KeyState) (c : Char) :
    decodeByKeyStep buffer chaining s (encodeByKeyStep buffer chaining s c).1 =
      (c, (encodeByKeyStep buffer chaining s c).2) := by
  simp only [decodeByKeyStep, encodeByKeyStep, Wheel.turnBack_turn wheel_nodup, Wheel.turn_mem_iff]

variable (md5 : Md5) (chaining : Bool) (s key : Text)

theorem obfDecodeByKey_obfEncodeByKey : obfDecodeByKey md5 chaining (obfEncodeByKey md5 chaining s key) key = s :=
  scan_dec_enc (decodeByKeyStep_encodeByKeyStep _ _) _ _

theorem obfDecodeByKey_length : (obfDecodeByKey md5 chaining s key).length = s.length := scan_length _ _ _

theorem obfEncodeByKey_length : (obfEncodeByKey md5 chaining s key).length = s.length := scan_length _ _ _

/-! ## The head and the text -/

variable {p : Session} {rval timeVal clock timeVal' clock' : Nat} {s out : Text}

theorem fromA_lowerFrom : ∀ n < 16, fromA (lowerFrom n) = n := by decide

theorem keyChar_toNat : ∀ n < 16, (keyChar n).toNat = n + 'e'.toNat := by decide

theorem nibble_lt (x : Nat) : x &&& 0xf < 16 := Nat.lt_succ_of_le Nat.and_le_right

/-- The nibbles of the head are the time. -/
theorem encodedTime_headstring {now : Nat} (h : now < 2 ^ 16) : encodedTime (headstring rval now) = now := by
  have hnibble : ∀ x : Nat, x &&& 0xf = x % 16 := fun x => Nat.and_two_pow_sub_one_eq_mod x 4
  simp only [headstring, encodedTime, fromA_lowerFrom _ (nibble_lt _)]
  simp only [hnibble, Nat.shiftRight_eq_div_pow]
  omega

theorem decodeStep_encodeStep {addin_i addin_i' : Nat} {c d : Char}
    (h : encodeStep p rval addin_i c = some (d, addin_i')) : decodeStep p rval addin_i d = some (c, addin_i') := by
  simp only [encodeStep, bind_eq_bind, bind_eq_some_iff] at h
  obtain ⟨addin, haddin, h⟩ := h
  have hd : Wheel.turn wheel addin c = d ∧ nextAddin addin_i = addin_i' := by
    split at h
    · obtain ⟨_, -, h⟩ := bind_eq_some_iff.mp h
      exact Prod.mk.inj (Option.some.inj h)
    · exact Prod.mk.inj (Option.some.inj h)
  obtain ⟨rfl, rfl⟩ := hd
  simp only [decodeStep, haddin, bind_eq_bind, bind_some, Wheel.turnBack_turn wheel_nodup,
    pure_def]

/-- What is decoded depends on the times only. -/
theorem obfiDecode_obfiEncode_eq (hr : rval < 16) (hnow : timeOr timeVal clock < 2 ^ 16)
    (h : obfiEncode p rval timeVal clock s = some out) :
    obfiDecode p timeVal' clock' out = some (if obfiTimeCheck (timeOr timeVal clock) (timeOr timeVal' clock') = 0
      then (0, s) else (AUTH_FILE_NOT_ENCRYPTED, out)) := by
  simp only [obfiEncode, bind_eq_bind, bind_eq_some_iff, pure_def, Option.some.injEq,
    Prod.exists] at h
  obtain ⟨head, addin₁, hhead, body, addin₂, hbody, last, hlast, rfl⟩ := h
  have hdecHead : run (decodeStep p rval) _ _ = _ := run_dec_enc (fun _ _ _ _ => decodeStep_encodeStep) hhead
  have hdecBody : run (decodeStep p rval) _ _ = _ := run_dec_enc (fun _ _ _ _ => decodeStep_encodeStep) hbody
  obtain ⟨h0, h1, h2, h3, h4, rfl⟩ : ∃ h0 h1 h2 h3 h4, head = [h0, h1, h2, h3, h4] := by
    have hlen : head.length = 5 := run_length hhead
    match head, hlen with
    | [h0, h1, h2, h3, h4], _ => exact ⟨h0, h1, h2, h3, h4, rfl⟩
  have hkey := keyChar_toNat rval hr
  have hrval : (keyChar rval).toNat - 'e'.toNat = rval := by omega
  have hvalid : ¬ ((keyChar rval).toNat < 'e'.toNat ∨ 15 < rval) := by omega
  have hcheck : isEncrypted rval (timeOr timeVal' clock') '.' (headstring rval (timeOr timeVal clock)) =
      decide (obfiTimeCheck (timeOr timeVal clock) (timeOr timeVal' clock') = 0) := by
    simp only [isEncrypted, encodedTime_headstring hnow]
    simp [headstring]
  simp only [obfiDecode, List.cons_append, List.nil_append, hrval, if_neg hvalid, hdecHead, hdecBody, hcheck, hlast,
    bind_eq_bind, bind_some, pure_def, decide_eq_true_eq]
  exact (apply_ite some _ _ _).symm

/-! ## Sums that fit -/

/-- The largest window, the extra number, the masked user id and the last place of the wheel fit in an `int`. -/
def InRange (p : Session) : Prop := 31 + p.extra + (p.uid &&& uidMask) + 76 < intBound

instance (p : Session) : Decidable (InRange p) := inferInstanceAs (Decidable (_ < _))

theorem addin_fits (h : InRange p) (rval addin_i : Nat) :
    ∃ a, addin p rval addin_i = some a ∧ a + 76 < intBound := by
  have hwindow : (seqs.getD rval 0 >>> addin_i) &&& 0x1f ≤ 31 := Nat.and_le_right
  unfold InRange at h
  refine ⟨(seqs.getD rval 0 >>> addin_i &&& 0x1f) + p.extra + (p.uid &&& uidMask), ?_, by omega⟩
  rw [addin, addInt, if_pos (by omega)]
  exact if_pos (by omega)

theorem encodeStep_fits (h : InRange p) (rval addin_i : Nat) (c : Char) :
    ∃ d addin_i', encodeStep p rval addin_i c = some (d, addin_i') := by
  obtain ⟨a, haddin, hfits⟩ := addin_fits h rval addin_i
  refine ⟨Wheel.turn wheel a c, nextAddin addin_i, ?_⟩
  simp only [encodeStep, haddin, bind_eq_bind, bind_some]
  split
  · rename_i hc
    have hplace := List.idxOf_lt_length_iff.mpr hc
    rw [wheel_length] at hplace
    rw [addInt, if_pos (by omega)]
    rfl
  · rfl

theorem obfiEncode_fits (h : InRange p) (rval timeVal clock : Nat) (s : Text) :
    ∃ out, obfiEncode p rval timeVal clock s = some out := by
  obtain ⟨head, addin₁, hhead⟩ := run_total (encodeStep_fits h rval) 0 (headstring rval (timeOr timeVal clock))
  obtain ⟨body, addin₂, hbody⟩ := run_total (encodeStep_fits h rval) addin₁ s
  obtain ⟨a, haddin, -⟩ := addin_fits h rval addin₂
  refine ⟨'.' :: head ++ keyChar rval :: body, ?_⟩
  simp only [obfiEncode, hhead, hbody, haddin, bind_eq_bind, bind_some, pure_def]

theorem obfiTimeCheck_self (t : Int) : obfiTimeCheck t t = 0 := by
  simp [obfiTimeCheck]

/-- Scrambled text is read back, by the same user at the time it was scrambled, and with the same key. -/
theorem scrambled_read_back (p : Session) (h : InRange p) (rval timeVal : Nat) (hr : rval < 16) (hpos : 0 < timeVal)
    (ht : timeVal < 2 ^ 16) (clock clock' : Nat) (s : Text) :
    (∃ out, obfiEncode p rval timeVal clock s = some out ∧ obfiDecode p timeVal clock' out = some (0, s)) ∧
      ∀ md5 chaining key, obfDecodeByKey md5 chaining (obfEncodeByKey md5 chaining s key) key = s := by
  have htime (c : Nat) : timeOr timeVal c = timeVal := if_pos (by omega)
  obtain ⟨out, hout⟩ := obfiEncode_fits h rval timeVal clock s
  refine ⟨⟨out, hout, ?_⟩, fun md5 chaining key => obfDecodeByKey_obfEncodeByKey md5 chaining s key⟩
  rw [obfiDecode_obfiEncode_eq hr (by rwa [htime]) hout, htime, htime, if_pos (obfiTimeCheck_self _)]

theorem scrambled_read_back_rods :
    (∃ out, obfiEncode ⟨1000, 0⟩ 3 12345 0 "rods!".toList = some out ∧
        obfiDecode ⟨1000, 0⟩ 12345 0 out = some (0, "rods!".toList)) ∧
      ∀ md5 chaining key, obfDecodeByKey md5 chaining (obfEncodeByKey md5 chaining "rods!".toList key) key =
        "rods!".toList :=
  scrambled_read_back ⟨1000, 0⟩ (by decide) 3 12345 (by decide) (by decide) (by decide) 0 0 "rods!".toList

/-- The largest `int` as the extra number leaves no room for the sum. -/
theorem extra_overflows :
    ¬ ∃ out, obfiEncode ⟨1000, 2147483647⟩ 3 12345 0 "rods!".toList = some out ∧
      obfiDecode ⟨1000, 2147483647⟩ 12345 0 out = some (0, "rods!".toList) := by
  rintro ⟨out, hout, -⟩
  have hnone : obfiEncode ⟨1000, 2147483647⟩ 3 12345 0 "rods!".toList = none := by decide +kernel
  cases hnone.symm.trans hout

end Obf
