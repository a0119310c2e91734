-- SUMMARY: The file of the stored password.
import Irods.Core.Obf
import Mathlib.Data.List.TakeWhile

/-!
# The stored password

`obfSavePw` checks the password, scrambles it with the modification time of the file and
writes it with its terminator; `obfGetPw` reads the file back, which may have become a few
seconds older. A password that is stored as temporary carries a flag behind it. The reader
takes fewer characters than the writer writes, and a time of 0 stands for the clock.

Writing to an open file is taken to succeed.
-/

namespace Obf

open CString StreamCipher
open Option (bind_eq_bind bind_eq_some_iff bind_some pure_def)

def FILE_OPEN_ERR : Int := -900000
def PASSWORD_EXCEEDS_MAX_SIZE : Int := -903000
def UNABLE_TO_STAT_FILE : Int := -905000
def NO_PASSWORD_ENTERED : Int := -909000

def TMP_FLAG : Text := "%TEMPORARY_PW%".toList

/-! ## Saving -/

/-- What the system answers to a call: the user id, the descriptor and the modification time of
the file, the clock and the pseudo random number. -/
structure SaveEnv where
  uid : Nat
  fd : Int
  mtime : Option Nat
  clock : Nat
  usec : Nat

structure GetEnv where
  uid : Nat
  mtime : Option Nat
  clock : Nat

/-- A time is kept bounded. -/
def boundedTime (sec : Nat) : Nat := sec &&& 0xffff

/-- No environment key. -/
def session (uid : Nat) : Session := ⟨uid, 0⟩

/-- The password that is checked: the argument, or the line that `fgets` reads. An argument that
fills the buffer has no terminator and is too long in any case. -/
def inbuf (pwArg line : Text) : Text :=
  if pwArg = [] then line.take (MAX_PASSWORD_LEN + 49) else pwArg.take MAX_PASSWORD_LEN

/-- The checks, and the removal of a trailing newline. -/
def accepted (pwArg line : Text) : Except Int Text :=
  let s := inbuf pwArg line
  if s.length < 1 then .error NO_PASSWORD_ENTERED
  else if s.length > MAX_PASSWORD_LEN - 2 then .error PASSWORD_EXCEEDS_MAX_SIZE
  else .ok (if s.getLast? = some '\n' then s.dropLast else s)

/-- The status and what the file holds afterwards; `none` when `myPw` is overrun. -/
def obfSavePw (env : SaveEnv) (doTemp : Bool) (pwArg line : Text) : Option (Int × Option Text) :=
  match accepted pwArg line with
  | .error status => some (status, none)
  | .ok pw =>
    let pw := if doTemp then pw ++ TMP_FLAG else pw
    if env.fd < 0 then some (FILE_OPEN_ERR, none)
    else if env.fd = 0 then some (0, none)
    else match env.mtime with
      | none => some (UNABLE_TO_STAT_FILE, some [' '])
      | some mtime => do
        let myPw ← obfiEncode (session env.uid) (env.usec &&& 0xf) (boundedTime mtime) (boundedTime env.clock) pw
        if myPw.length + 1 > MAX_PASSWORD_LEN + 10 then none
        return (0, some (myPw ++ ['\x00']))

/-! ## Reading -/

/-- The text of the file, which is read into 500 bytes. -/
def obfiGetPw (file : Text) : Option (Except Int Text) :=
  let buf1 := file.take 500
  if '\x00' ∉ buf1 then none
  else
    let s := buf1.takeWhile (· ≠ '\x00')
    some (if s.length < MAX_PASSWORD_LEN then .ok s else .error PASSWORD_EXCEEDS_MAX_SIZE)

structure GotPw where
  status : Int
  pw : Text
  isTemp : Bool
  deriving DecidableEq

/-- The password is cut at the flag. -/
def cutFlag (pw : Text) : GotPw :=
  match strstr TMP_FLAG pw with
  | none => ⟨0, pw, false⟩
  | some n => ⟨0, pw.take n, true⟩

def obfGetPw (env : GetEnv) (file : Option Text) : Option GotPw :=
  match env.mtime, file with
  | none, _ => some ⟨UNABLE_TO_STAT_FILE, [], false⟩
  | some _, none => some ⟨FILE_OPEN_ERR, [], false⟩
  | some mtime, some file => do
    match ← obfiGetPw file with
    | .error status => return ⟨status, [], false⟩
    | .ok myPw =>
      let (status, pw) ← obfiDecode (session env.uid) (boundedTime mtime) (boundedTime env.clock) myPw
      return if status < 0 then ⟨status, [], false⟩ else cutFlag pw

/-! ## Times -/

/-- Two file times are less than 20 seconds apart, modulo 2^16. -/
def Near (time time' : Nat) : Prop :=
  ((time : Int) - time') % 65536 < 20 ∨ ((time' : Int) - time) % 65536 < 20

/-- Neither time is a multiple of 2^16, or the clock that is read instead is near. -/
def InTime (mtime clock mtime' clock' : Nat) : Prop :=
  (boundedTime mtime ≠ 0 ∧ boundedTime mtime' ≠ 0) ∨
    obfiTimeCheck (timeOr (boundedTime mtime) (boundedTime clock))
      (timeOr (boundedTime mtime') (boundedTime clock')) = 0

instance (time time' : Nat) : Decidable (Near time time') := inferInstanceAs (Decidable (_ ∨ _))

instance (mtime clock mtime' clock' : Nat) : Decidable (InTime mtime clock mtime' clock') :=
  inferInstanceAs (Decidable (_ ∨ _))

theorem boundedTime_eq (sec : Nat) : boundedTime sec = sec % 65536 := Nat.and_two_pow_sub_one_eq_mod sec 16

theorem boundedTime_lt (sec : Nat) : boundedTime sec < 2 ^ 16 := by
  rw [boundedTime_eq]
  exact Nat.mod_lt _ (by decide)

theorem timeOr_lt (sec clock : Nat) : timeOr (boundedTime sec) (boundedTime clock) < 2 ^ 16 := by
  unfold timeOr
  split <;> exact boundedTime_lt _

/-- The check goes around the end of the range one second early. -/
theorem obfiTimeCheck_near {time time' : Nat} (h : Near time time') :
    obfiTimeCheck (boundedTime time) (boundedTime time') = 0 := by
  simp only [boundedTime_eq, obfiTimeCheck]
  unfold Near at h
  split
  · rfl
  · rename_i hfar
    rw [if_pos]
    rw [abs_lt] at hfar ⊢
    split <;> split <;> omega

variable {mtime mtime' : Nat}

theorem obfiTimeCheck_iff {clock clock' : Nat} (hnear : Near mtime mtime') :
    obfiTimeCheck (timeOr (boundedTime mtime) (boundedTime clock))
      (timeOr (boundedTime mtime') (boundedTime clock')) = 0 ↔ InTime mtime clock mtime' clock' := by
  constructor
  · exact .inr
  · rintro (⟨hne, hne'⟩ | hcheck)
    · rw [timeOr, timeOr, if_pos hne, if_pos hne']
      exact obfiTimeCheck_near hnear
    · exact hcheck

/-! ## The flag -/

/-- The flag without its last character, which is also its first. -/
def flagFront : Text := "%TEMPORARY_PW".toList

/-- The flag overlaps itself in one character only. -/
theorem flag_overlap : ∀ r < 14, 0 < r → TMP_FLAG.drop r = TMP_FLAG.take (14 - r) → r = 13 := by decide +kernel

variable {pw : Text}

theorem strstr_flag (hflag : ¬ TMP_FLAG <:+: pw) (hfront : ¬ flagFront <:+ pw) :
    strstr TMP_FLAG (pw ++ TMP_FLAG) = some pw.length := by
  cases hfind : strstr TMP_FLAG (pw ++ TMP_FLAG) with
  | none => exact absurd (List.suffix_append pw TMP_FLAG).isInfix (strstr_eq_none.mp hfind)
  | some n =>
    obtain ⟨hle, hpre, hfirst⟩ := strstr_eq_some hfind
    have hlast : TMP_FLAG <+: (pw ++ TMP_FLAG).drop pw.length := by rw [List.drop_left]
    rcases Nat.lt_trichotomy n pw.length with hlt | rfl | hgt
    · -- an occurrence in front reaches into the flag behind
      rw [List.drop_append_of_le_length hlt.le] at hpre
      have hlen : (pw.drop n).length = pw.length - n := List.length_drop
      have hflagLen : TMP_FLAG.length = 14 := rfl
      by_cases hin : 14 ≤ pw.length - n
      · refine absurd ((List.prefix_of_prefix_length_le hpre (List.prefix_append _ _) ?_).isInfix.trans
          (List.drop_suffix n pw).isInfix) hflag
        omega
      · have hpart : pw.drop n <+: TMP_FLAG :=
          List.prefix_of_prefix_length_le (List.prefix_append _ _) hpre (by omega)
        obtain ⟨rest, hrest⟩ := hpart
        rw [← hrest, List.prefix_append_right_inj, hrest] at hpre
        have hdrop : rest = TMP_FLAG.drop (pw.length - n) := by
          rw [← hrest, ← hlen, List.drop_left]
        have htake : rest = TMP_FLAG.take (14 - (pw.length - n)) := by
          rw [List.prefix_iff_eq_take.mp hpre, hdrop, List.length_drop, hflagLen]
        have hr := flag_overlap _ (by omega) (by omega) (hdrop.symm.trans htake)
        have hfrontEq : pw.drop n = flagFront := by
          have : pw.drop n = TMP_FLAG.take (pw.length - n) := by
            rw [← hrest, ← hlen, List.take_left]
          rw [this, hr]
          rfl
        exact absurd (hfrontEq ▸ List.drop_suffix n pw) hfront
    · rfl
    · exact absurd hlast (hfirst _ hgt)

/-- The flag is found again where it was put, unless the password ends in its front. -/
theorem cutFlag_flagged (hflag : ¬ TMP_FLAG <:+: pw) : (cutFlag (pw ++ TMP_FLAG)).pw = pw ↔ ¬ flagFront <:+ pw := by
  constructor
  · rintro hcut ⟨front, rfl⟩
    have hearly : TMP_FLAG <+: (front ++ flagFront ++ TMP_FLAG).drop front.length := by
      rw [List.append_assoc, List.drop_left]
      exact ⟨TMP_FLAG.drop 1, rfl⟩
    cases hfind : strstr TMP_FLAG (front ++ flagFront ++ TMP_FLAG) with
    | none => exact strstr_eq_none.mp hfind (hearly.isInfix.trans (List.drop_suffix _ _).isInfix)
    | some n =>
      obtain ⟨hle, hpre, hfirst⟩ := strstr_eq_some hfind
      have hn : n ≤ front.length := Nat.le_of_not_lt fun hlt => hfirst _ hlt hearly
      have hlen := congrArg List.length hcut
      simp only [cutFlag, hfind, List.length_take, List.length_append] at hlen
      have hfrontLen : flagFront.length = 13 := rfl
      omega
  · intro hfront
    rw [cutFlag, strstr_flag hflag hfront]
    exact List.take_left

theorem cutFlag_plain (hflag : ¬ TMP_FLAG <:+: pw) : cutFlag pw = ⟨0, pw, false⟩ := by
  rw [cutFlag, strstr_eq_none.mpr hflag]

/-! ## What is written -/

theorem session_inRange (uid : Nat) : InRange (session uid) := by
  have hmask : uid &&& uidMask ≤ uidMask := Nat.and_le_right
  unfold uidMask at hmask
  simp only [InRange, session, uidMask, intBound]
  omega

variable {p : Session} {rval : Nat} {out : Text}

variable {timeVal clock : Nat} {s : Text}

theorem obfiEncode_length (h : obfiEncode p rval timeVal clock s = some out) : out.length = s.length + 7 := by
  simp only [obfiEncode, bind_eq_bind, bind_eq_some_iff, pure_def, Option.some.injEq,
    Prod.exists] at h
  obtain ⟨head, addin₁, hhead, body, addin₂, hbody, -, -, rfl⟩ := h
  have hlenHead : head.length = 5 := run_length hhead
  have hlenBody := run_length hbody
  simp only [List.cons_append, List.length_cons, List.length_append]
  omega

theorem encodeStep_noNul (s : Nat) (c d : Char) (s' : Nat) (h : encodeStep p rval s c = some (d, s'))
    (hc : c ≠ '\x00') : d ≠ '\x00' := by
  have hback := decodeStep_encodeStep h
  simp only [decodeStep, bind_eq_bind, bind_eq_some_iff, pure_def, Option.some.injEq,
    Prod.mk.injEq] at hback
  obtain ⟨addin, -, hturn, -⟩ := hback
  rintro rfl
  -- the terminator is not on the wheel, so it would have been one before
  exact hc hturn.symm

theorem headstring_noNul (rval now : Nat) : ∀ c ∈ headstring rval now, c ≠ '\x00' := by
  have hcheck : ∀ x ≤ 7, Char.ofNat ('S'.toNat - x * 2) ≠ '\x00' := by decide
  have hnibble : ∀ x < 16, lowerFrom x ≠ '\x00' := by decide
  simp only [headstring, List.forall_mem_cons]
  exact ⟨hcheck _ Nat.and_le_right, hnibble _ (nibble_lt _), hnibble _ (nibble_lt _), hnibble _ (nibble_lt _),
    hnibble _ (nibble_lt _), List.forall_mem_nil _⟩

theorem obfiEncode_noNul (hr : rval < 16) (h : obfiEncode p rval timeVal clock s = some out) (hs : '\x00' ∉ s) :
    '\x00' ∉ out := by
  simp only [obfiEncode, bind_eq_bind, bind_eq_some_iff, pure_def, Option.some.injEq,
    Prod.exists] at h
  obtain ⟨head, addin₁, hhead, body, addin₂, hbody, -, -, rfl⟩ := h
  have hkey : ∀ x < 16, keyChar x ≠ '\x00' := by decide
  have hnoHead := run_forall encodeStep_noNul hhead (headstring_noNul _ _)
  have hnoBody := run_forall encodeStep_noNul hbody fun c hc => ne_of_mem_of_not_mem hc hs
  simp only [List.cons_append, List.mem_cons, List.mem_append, not_or]
  exact ⟨by decide, fun hmem => hnoHead _ hmem rfl, (hkey rval hr).symm, fun hmem => hnoBody _ hmem rfl⟩

/-- The file is read up to the terminator, if that leaves fewer than `MAX_PASSWORD_LEN` characters. -/
theorem obfiGetPw_written (hnul : '\x00' ∉ out) (hlen : out.length < 500) :
    obfiGetPw (out ++ ['\x00']) =
      some (if out.length < MAX_PASSWORD_LEN then .ok out else .error PASSWORD_EXCEEDS_MAX_SIZE) := by
  have hall : (out ++ ['\x00']).take 500 = out ++ ['\x00'] := by
    refine List.take_of_length_le ?_
    rw [List.length_append, List.length_singleton]
    omega
  have htext : (out ++ ['\x00']).takeWhile (· ≠ '\x00') = out := by
    rw [takeWhile_stop (by decide), List.takeWhile_eq_self_iff]
    exact fun c hc => decide_eq_true (ne_of_mem_of_not_mem hc hnul)
  rw [obfiGetPw]
  simp only [hall, htext]
  rw [if_neg (by simp)]

/-! ## Saving and reading -/

/-- The password with the flag, if it is stored as temporary. -/
def stored (doTemp : Bool) (pw : Text) : Text := if doTemp then pw ++ TMP_FLAG else pw

/-- The password is saved, and the reader returns it. -/
def ReadBack (env : SaveEnv) (env' : GetEnv) (doTemp : Bool) (pwArg line pw : Text) : Prop :=
  ∃ file, obfSavePw env doTemp pwArg line = some (0, some file) ∧
    ∃ got, obfGetPw env' (some file) = some got ∧ got.status = 0 ∧ got.pw = pw

/-- The scrambled password is short enough for the reader, the flag is not found too early and the
times are near. -/
def Readable (doTemp : Bool) (pw : Text) (mtime clock mtime' clock' : Nat) : Prop :=
  (stored doTemp pw).length + 7 < MAX_PASSWORD_LEN ∧ (doTemp = true → ¬ flagFront <:+ pw) ∧
    InTime mtime clock mtime' clock'

variable {doTemp : Bool}

theorem cutFlag_stored (hflag : ¬ TMP_FLAG <:+: pw) :
    (cutFlag (stored doTemp pw)).pw = pw ↔ (doTemp = true → ¬ flagFront <:+ pw) := by
  cases doTemp with
  | false => simp [stored, cutFlag_plain hflag]
  | true => simpa [stored] using cutFlag_flagged hflag

theorem cutFlag_status (pw : Text) : (cutFlag pw).status = 0 := by
  unfold cutFlag
  split <;> rfl

variable {env' : GetEnv} {line pwArg : Text}

section

variable {env : SaveEnv} {out : Text}

theorem obfSavePw_accepted (hacc : accepted pwArg line = .ok pw) (hopen : 0 < env.fd)
    (hmtime : env.mtime = some mtime)
    (hout : obfiEncode (session env.uid) (env.usec &&& 0xf) (boundedTime mtime) (boundedTime env.clock)
      (stored doTemp pw) = some out) :
    obfSavePw env doTemp pwArg line =
      if out.length + 1 > MAX_PASSWORD_LEN + 10 then none else some (0, some (out ++ ['\x00'])) := by
  have hfd : ¬ env.fd < 0 ∧ env.fd ≠ 0 := by omega
  unfold stored at hout
  simp only [obfSavePw, hacc, hmtime, if_neg hfd.1, if_neg hfd.2, hout, bind_eq_bind, bind_some]
  split <;> rfl

theorem obfGetPw_written (hmtime' : env'.mtime = some mtime') (huser : env'.uid = env.uid) (hnul : '\x00' ∉ pw)
    (hout : obfiEncode (session env.uid) (env.usec &&& 0xf) (boundedTime mtime) (boundedTime env.clock)
      (stored doTemp pw) = some out) (hlen : out.length < 500) :
    obfGetPw env' (some (out ++ ['\x00'])) =
      some (if out.length < MAX_PASSWORD_LEN then
          if obfiTimeCheck (timeOr (boundedTime mtime) (boundedTime env.clock))
              (timeOr (boundedTime mtime') (boundedTime env'.clock)) = 0
          then cutFlag (stored doTemp pw) else ⟨AUTH_FILE_NOT_ENCRYPTED, [], false⟩
        else ⟨PASSWORD_EXCEEDS_MAX_SIZE, [], false⟩) := by
  have hstored : '\x00' ∉ stored doTemp pw := by
    cases doTemp with
    | false => exact hnul
    | true => exact fun hmem => (List.mem_append.mp hmem).elim hnul (by decide)
  have hget := obfiGetPw_written (obfiEncode_noNul (nibble_lt _) hout hstored) hlen
  by_cases hshort : out.length < MAX_PASSWORD_LEN
  · rw [if_pos hshort] at hget ⊢
    simp only [obfGetPw, hmtime', hget, huser, bind_eq_bind, bind_some,
      obfiDecode_obfiEncode_eq (nibble_lt _) (timeOr_lt _ _) hout]
    split <;> rfl
  · rw [if_neg hshort] at hget ⊢
    simp only [obfGetPw, hmtime', hget, bind_eq_bind, bind_some, pure_def]

/-- An accepted password that does not hold the flag is read back, by the same user from a file of
nearly the same time, exactly when it is readable. -/
theorem obfGetPw_obfSavePw_iff (hacc : accepted pwArg line = .ok pw) (hopen : 0 < env.fd)
    (hmtime : env.mtime = some mtime) (hmtime' : env'.mtime = some mtime') (huser : env'.uid = env.uid)
    (hnear : Near mtime mtime') (hnul : '\x00' ∉ pw) (hflag : ¬ TMP_FLAG <:+: pw) :
    ReadBack env env' doTemp pwArg line pw ↔ Readable doTemp pw mtime env.clock mtime' env'.clock := by
  obtain ⟨out, hout⟩ := obfiEncode_fits (session_inRange env.uid) (env.usec &&& 0xf) (boundedTime mtime)
    (boundedTime env.clock) (stored doTemp pw)
  have hlen := obfiEncode_length hout
  have hsave := obfSavePw_accepted hacc hopen hmtime hout
  unfold Readable
  rw [← hlen, ← obfiTimeCheck_iff hnear, ← cutFlag_stored hflag]
  constructor
  · rintro ⟨file, hfile, got, hgot, hstatus, hpw⟩
    rw [hsave] at hfile
    split at hfile
    · cases hfile
    · rename_i hroom
      unfold MAX_PASSWORD_LEN at hroom
      obtain rfl : out ++ ['\x00'] = file := by simpa using hfile
      rw [obfGetPw_written hmtime' huser hnul hout (by omega)] at hgot
      obtain rfl := Option.some.inj hgot
      split at hstatus
      · rename_i hshort
        rw [if_pos hshort] at hpw
        split at hstatus
        · rename_i htime
          rw [if_pos htime] at hpw
          exact ⟨hshort, hpw, htime⟩
        · cases hstatus
      · cases hstatus
  · rintro ⟨hshort, hcut, htime⟩
    have hroom : ¬ out.length + 1 > MAX_PASSWORD_LEN + 10 := by omega
    rw [if_neg hroom] at hsave
    have hget := obfGetPw_written hmtime' huser hnul hout (hshort.trans (by decide))
    rw [if_pos hshort, if_pos htime] at hget
    exact ⟨_, hsave, _, hget, cutFlag_status _, hcut⟩

end

/-- The user 1000 at the time 300000, and three seconds later. -/
def saveAt (mtime : Nat) : SaveEnv := ⟨1000, 3, some mtime, 77777, 5⟩

def getAt (mtime : Nat) : GetEnv := ⟨1000, some mtime, 99999⟩

theorem obfGetPw_obfSavePw_rods :
    ReadBack (saveAt 300000) (getAt 300003) false "rods!".toList [] "rods!".toList :=
  (obfGetPw_obfSavePw_iff rfl (by decide) (show (saveAt 300000).mtime = some 300000 from rfl)
    (show (getAt 300003).mtime = some 300003 from rfl) rfl (by decide) (by decide) (by decide)).mpr
    ⟨by decide, nofun, by decide⟩

/-- What the reader makes of what was saved. -/
def saveThenGet (env : SaveEnv) (env' : GetEnv) (doTemp : Bool) (pwArg line : Text) : Option GotPw := do
  let (_, file) ← obfSavePw env doTemp pwArg line
  obfGetPw env' file

theorem not_readBack {env : SaveEnv} {g : GotPw} (hgot : saveThenGet env env' doTemp pwArg line = some g)
    (hbad : g.status ≠ 0 ∨ g.pw ≠ pw) : ¬ ReadBack env env' doTemp pwArg line pw := by
  rintro ⟨file, hsave, got', hget, hstatus, hpw⟩
  simp only [saveThenGet, hsave, bind_eq_bind, bind_some] at hgot
  obtain rfl := Option.some.inj (hgot.symm.trans hget)
  exact hbad.elim (· hstatus) (· hpw)

/-- A password of 43 characters, a file whose time is a multiple of 2^16, and a temporary password that ends in
the front of the flag. -/
theorem accepted_not_read_back :
    (accepted (List.replicate 43 'x') [] = .ok (List.replicate 43 'x') ∧
        ¬ ReadBack (saveAt 300000) (getAt 300003) false (List.replicate 43 'x') [] (List.replicate 43 'x')) ∧
      (Near 131072 131074 ∧ ¬ ReadBack (saveAt 131072) (getAt 131074) false "rods!".toList [] "rods!".toList) ∧
      ¬ TMP_FLAG <:+: flagFront ∧ ¬ ReadBack (saveAt 300000) (getAt 300003) true flagFront [] flagFront :=
  ⟨⟨rfl, not_readBack (g := ⟨PASSWORD_EXCEEDS_MAX_SIZE, [], false⟩) (by decide +kernel) (.inl (by decide))⟩,
    ⟨by decide, not_readBack (g := ⟨AUTH_FILE_NOT_ENCRYPTED, [], false⟩) (by decide +kernel) (.inl (by decide))⟩,
    by decide, not_readBack (g := ⟨0, [], true⟩) (by decide +kernel) (.inr (by decide))⟩

end Obf
