-- SUMMARY: The copies of IN, BETWEEN and parent_of, and what is bound of them.
import Irods.Icat.BindsKept
import Mathlib.Algebra.Ring.Nat

/-!
# Copies behind each other

The three helpers put one string after the other into a static buffer, each with its end,
and push a pointer to every copy. They differ in what the strings are.
-/

namespace GenQuery

open CString EStateM
open List (length_append length_cons length_singleton map_cons)

namespace Cond

/-! ## One copy -/

/-- The state after `b[ix] = ch`. -/
def setCell (c : Cond) (b : Buffer) (ix : Nat) (ch : Char) : Cond :=
  { c with mem := fun b' i => if b' = b ∧ i = ix then ch else c.mem b' i }

variable {b : Buffer} {ix ncopy : Nat} {c : Cond} {src : Text}

theorem poke_run (h : ix < b.size) (ch : Char) (c : Cond) : poke b ix ch c = .ok () (c.setCell b ix ch) := by
  unfold poke
  rw [if_pos h]
  rfl

theorem poke_overrun (h : ¬ ix < b.size) (ch : Char) (c : Cond) : poke b ix ch c = .error .overrun c := by
  unfold poke
  rw [if_neg h]
  rfl

theorem pokes_run : ∀ {s : Text} {ix : Nat}, ix + s.length ≤ b.size → ∀ c : Cond,
    ∃ c', pokes b ix s c = .ok () c'
  | [], _, _, c => ⟨c, rfl⟩
  | ch :: s, ix, h, c => by
    rw [length_cons] at h
    obtain ⟨c', hrun⟩ := pokes_run (by omega : ix + 1 + s.length ≤ b.size) (c.setCell b ix ch)
    have hix : ix < b.size := by omega
    exact ⟨c', by rw [pokes, bind_run (poke_run hix ch c), hrun]⟩

variable {p : Buffer × Nat}

theorem push_run (h : c.cllBindVars.length + 1 < maxBindVars) :
    push p c = .ok () { c with cllBindVars := c.cllBindVars ++ [p] } := by
  unfold push
  rw [get_bind, if_neg (by omega)]
  rfl

theorem push_full (h : maxBindVars ≤ c.cllBindVars.length + 1) :
    push p c = .error (.fail CAT_BIND_VARIABLE_LIMIT_EXCEEDED) c := by
  unfold push
  rw [get_bind, if_pos (by omega)]
  rfl

/-- The buffer behaves outside of a copy as if nothing had been written. -/
structure Copied (b : Buffer) (ix ncopy : Nat) (c c' : Cond) : Prop where
  binds : c'.cllBindVars = c.cllBindVars
  mem   : ∀ b' i, ¬ (b' = b ∧ ix ≤ i ∧ i ≤ ix + ncopy) → c'.mem b' i = c.mem b' i

/-- A copy that is too long for the rest of the buffer is not made. -/
theorem rstrcpyTo_run (b : Buffer) (ix : Nat) (src : Text) (c : Cond) :
    ∃ c', rstrcpyTo b ix src ((b.size : Int) - ix) c = .ok () c' ∧ Copied b ix src.length c c' ∧
      (ix + src.length < b.size → Stored c' b ix src) := by
  unfold rstrcpyTo
  by_cases hlong : (src.length : Int) ≥ (b.size : Int) - ix
  · rw [if_pos hlong]
    exact ⟨c, rfl, ⟨rfl, fun _ _ _ => rfl⟩, fun h => by omega⟩
  rw [if_neg hlong]
  have hlen : ix + (src ++ ['\x00']).length ≤ b.size := by
    rw [length_append, length_singleton]
    omega
  obtain ⟨c', hrun⟩ := pokes_run (b := b) hlen c
  obtain ⟨rfl, -⟩ := pokes_ok hrun
  rw [length_append, length_singleton] at hrun
  refine ⟨_, hrun, ⟨rfl, fun b' i hout => ?_⟩, fun hfits => ⟨hfits, fun j hj => ?_, ?_⟩⟩
  · show (if _ then _ else _) = _
    rw [if_neg]
    rintro ⟨rfl, hle, hlt⟩
    exact hout ⟨rfl, hle, by omega⟩
  · show (if _ then _ else _) = _
    rw [if_pos ⟨rfl, by omega, by omega⟩, Nat.add_sub_cancel_left, List.getD_append _ _ _ _ hj]
  · show (if _ then _ else _) = _
    rw [if_pos ⟨rfl, by omega, by omega⟩, Nat.add_sub_cancel_left,
      List.getD_append_right _ _ _ _ (le_refl _), Nat.sub_self]
    rfl

/-- The string that a copy leaves behind. -/
def copy (src : Text) (ncopy : Nat) : Text := if ncopy ≥ maxSQL then [] else src.take ncopy

theorem length_copy_le (src : Text) (ncopy : Nat) : (copy src ncopy).length ≤ ncopy := by
  unfold copy
  split
  · exact Nat.zero_le _
  · exact List.length_take_le _ _

/-- The end that is written behind a copy belongs to the copy. -/
theorem copyBind_run (hfits : ix + ncopy < b.size) (hroom : c.cllBindVars.length + 1 < maxBindVars) :
    ∃ c', copyBind b ix src ncopy c = .ok () c' ∧ c'.cllBindVars = c.cllBindVars ++ [(b, ix)] ∧
      (∀ b' i, ¬ (b' = b ∧ ix ≤ i ∧ i ≤ ix + ncopy) → c'.mem b' i = c.mem b' i) ∧
      Stored c' b ix (copy src ncopy) := by
  have hlen := length_copy_le src ncopy
  obtain ⟨c₁, hcopy, hcopied, hstored⟩ := rstrcpyTo_run b ix (copy src ncopy) c
  have hpush : (c₁.setCell b (ix + ncopy) '\x00').cllBindVars.length + 1 < maxBindVars := by
    rw [setCell, hcopied.binds]
    exact hroom
  have hrun : copyBind b ix src ncopy c = _ :=
    (bind_run hcopy).trans ((bind_run (poke_run hfits _ _)).trans (push_run hpush))
  refine ⟨_, hrun, ?_, ?_, ?_⟩
  · show c₁.cllBindVars ++ _ = _
    rw [hcopied.binds]
  · intro b' i hout
    show (if b' = b ∧ i = ix + ncopy then '\x00' else c₁.mem b' i) = _
    rw [if_neg (fun h => hout ⟨h.1, by omega, by omega⟩)]
    exact hcopied.mem b' i fun h => hout ⟨h.1, h.2.1, by omega⟩
  · obtain ⟨hfits, htext, hstop⟩ := hstored (by omega)
    refine ⟨hfits, fun j hj => ?_, ?_⟩
    · show (if b = b ∧ ix + j = ix + ncopy then '\x00' else c₁.mem b (ix + j)) = _
      rw [if_neg (by omega), htext j hj]
    · show (if b = b ∧ _ then '\x00' else c₁.mem b _) = _
      split
      · rfl
      · exact hstop

theorem copyBind_overrun (c : Cond) (h : b.size ≤ ix + ncopy) :
    ∃ c', copyBind b ix src ncopy c = .error .overrun c' := by
  obtain ⟨c₁, hcopy, -, -⟩ := rstrcpyTo_run b ix (copy src ncopy) c
  exact ⟨c₁, (bind_run hcopy).trans (bind_error.mpr (.inl (poke_overrun (by omega) _ _)))⟩

theorem copyBind_full (hfits : ix + ncopy < b.size) (hroom : maxBindVars ≤ c.cllBindVars.length + 1) :
    ∃ c', copyBind b ix src ncopy c = .error (.fail CAT_BIND_VARIABLE_LIMIT_EXCEEDED) c' := by
  obtain ⟨c₁, hcopy, hcopied, -⟩ := rstrcpyTo_run b ix (copy src ncopy) c
  have hpush : maxBindVars ≤ (c₁.setCell b (ix + ncopy) '\x00').cllBindVars.length + 1 := by
    rw [setCell, hcopied.binds]
    exact hroom
  exact ⟨_, (bind_run hcopy).trans ((bind_run (poke_run hfits _ _)).trans (push_full hpush))⟩

/-! ## All copies of a helper -/

/-- Copies the strings, given by where they start and how long they are, one behind the
other; their number comes back. -/
def copyAll (b : Buffer) (next : Text) (saveIx : Nat → CondM Unit) : List (Text × Nat) → Nat → Nat → CondM Nat
  | [], nput, _ => pure nput
  | (src, ncopy) :: strings, nput, ix => do
    catWhere (if nput = 0 then "?".toList else next)
    copyBind b ix src ncopy
    saveIx (ix + ncopy + 1)
    copyAll b next saveIx strings (nput + 1) (ix + ncopy + 1)

/-- The room that the copies take, with their ends. -/
def extent (lens : List Nat) : Nat := (lens.map (· + 1)).sum

@[simp] theorem extent_nil : extent [] = 0 := rfl
@[simp] theorem extent_cons (n : Nat) (lens : List Nat) : extent (n :: lens) = n + 1 + extent lens := rfl

/-- How many bind variables there is still room for. -/
def freeBinds (c : Cond) : Nat := maxBindVars - 1 - c.cllBindVars.length

/-- The copies that are made stay in the buffer: that of a string for which there is no room
for a bind variable is the last one. -/
def CopiesFit (b : Buffer) (ix free : Nat) (lens : List Nat) : Prop :=
  lens ≠ [] → ix + extent (lens.take (free + 1)) ≤ b.size

theorem copiesFit_cons {free n : Nat} {lens : List Nat} (hix : ix + n < b.size) :
    CopiesFit b ix (free + 1) (n :: lens) ↔ CopiesFit b (ix + n + 1) free lens := by
  unfold CopiesFit
  cases lens with
  | nil => simp; omega
  | cons m lens => simp [Nat.add_assoc]

/-- The state after the placeholder of the string number `nput`. -/
def placeholder (c : Cond) (next : Text) (nput : Nat) : Cond :=
  { c with whereSQL := rstrcat c.whereSQL (if nput = 0 then "?".toList else next) maxSQL }

/-- What is done to remember the index touches nothing else. -/
def Saves (saveIx : Nat → CondM Unit) : Prop := ∀ ix c, ∃ n, saveIx ix c = .ok () { c with inStrIx := n }

section

variable {b : Buffer} {next : Text} {saveIx : Nat → CondM Unit}

theorem copyAll_past (hpast : ¬ ix + ncopy < b.size) (strings : List (Text × Nat)) (nput : Nat) (c : Cond) :
    ∃ c', copyAll b next saveIx ((src, ncopy) :: strings) nput ix c = .error .overrun c' := by
  obtain ⟨c', hover⟩ := copyBind_overrun (c.placeholder next nput) (Nat.le_of_not_lt hpast)
  exact ⟨c', (modify_bind _ _ _).trans (bind_error.mpr (.inl hover))⟩

theorem copyAll_full (hfits : ix + ncopy < b.size) (hfull : ¬ c.cllBindVars.length + 1 < maxBindVars)
    (strings : List (Text × Nat)) (nput : Nat) :
    ∃ c', copyAll b next saveIx ((src, ncopy) :: strings) nput ix c =
      .error (.fail CAT_BIND_VARIABLE_LIMIT_EXCEEDED) c' := by
  obtain ⟨c', hrun⟩ := copyBind_full (c := c.placeholder next nput) hfits (Nat.le_of_not_lt hfull)
  exact ⟨c', (modify_bind _ _ _).trans (bind_error.mpr (.inl hrun))⟩

variable (hsave : Saves saveIx)
include hsave

/-- One turn, when the copy fits and can be pushed. -/
theorem copyAll_turn {nput : Nat} (hfits : ix + ncopy < b.size) (hroom : c.cllBindVars.length + 1 < maxBindVars)
    (strings : List (Text × Nat)) :
    ∃ c', copyAll b next saveIx ((src, ncopy) :: strings) nput ix c =
        copyAll b next saveIx strings (nput + 1) (ix + ncopy + 1) c' ∧
      c'.cllBindVars = c.cllBindVars ++ [(b, ix)] ∧
      (∀ i < ix, c'.mem b i = c.mem b i) ∧ Stored c' b ix (copy src ncopy) := by
  obtain ⟨c₁, hcopy, hbinds, hmem, hstored⟩ := copyBind_run (c := c.placeholder next nput) hfits hroom
  obtain ⟨n, hsaved⟩ := hsave (ix + ncopy + 1) c₁
  have hstored' : Stored { c₁ with inStrIx := n } b ix (copy src ncopy) := ⟨hstored.fits, hstored.text, hstored.stop⟩
  refine ⟨{ c₁ with inStrIx := n }, ?_, hbinds, fun i hi => hmem b i (by omega), hstored'⟩
  exact (modify_bind _ _ _).trans ((bind_run hcopy).trans (bind_run hsaved))

variable {strings : List (Text × Nat)}

/-- The copies overrun just where they do not fit. -/
theorem copyAll_overrun_iff : ∀ {nput ix : Nat} {c : Cond},
    (∃ c', copyAll b next saveIx strings nput ix c = .error .overrun c') ↔
      ¬ CopiesFit b ix (freeBinds c) (strings.map Prod.snd) := by
  induction strings with
  | nil =>
    intro nput ix c
    refine iff_of_false ?_ (not_not_intro fun h => absurd rfl h)
    rintro ⟨c', h⟩
    cases h
  | cons string strings ih =>
    obtain ⟨src, ncopy⟩ := string
    intro nput ix c
    by_cases hfits : ix + ncopy < b.size
    · by_cases hroom : c.cllBindVars.length + 1 < maxBindVars
      · obtain ⟨c', hrun, hbinds, -, -⟩ := copyAll_turn hsave hfits hroom strings
        have hfree : freeBinds c = freeBinds c' + 1 := by
          unfold freeBinds
          rw [hbinds, length_append, length_singleton]
          omega
        rw [hrun, ih, map_cons, hfree, copiesFit_cons hfits]
      · have hfree : freeBinds c = 0 := by
          unfold freeBinds
          omega
        obtain ⟨c', hrun⟩ := copyAll_full hfits hroom strings nput
        refine iff_of_false ?_ (not_not_intro fun _ => ?_)
        · rintro ⟨c'', h⟩
          rw [hrun] at h
          cases h
        · rw [hfree]
          simp
          omega
    · refine iff_of_true (copyAll_past hfits strings nput c) fun h => ?_
      have hle := h (by simp)
      rw [map_cons, List.take_succ_cons, extent_cons] at hle
      omega

/-- When all copies are made, the new bind variables are the strings, in their order. -/
theorem copyAll_ok : ∀ {nput ix r : Nat} {c c' : Cond},
    copyAll b next saveIx strings nput ix c = .ok r c' →
    ∃ ps, c'.cllBindVars = c.cllBindVars ++ ps ∧
      ps.map c'.deref = strings.map (fun s => (copy s.1 s.2).takeWhile (· ≠ '\x00')) ∧
      (∀ i < ix, c'.mem b i = c.mem b i) ∧ r = nput + strings.length ∧
      (strings ≠ [] → c.cllBindVars.length + strings.length < maxBindVars ∧
        ix + extent (strings.map Prod.snd) ≤ b.size) := by
  induction strings with
  | nil =>
    intro nput ix r c c' h
    obtain ⟨rfl, rfl⟩ := pure_ok.mp h
    exact ⟨[], (List.append_nil _).symm, rfl, fun _ _ => rfl, rfl, fun h => absurd rfl h⟩
  | cons string strings ih =>
    obtain ⟨src, ncopy⟩ := string
    intro nput ix r c c' h
    by_cases hfits : ix + ncopy < b.size
    · by_cases hroom : c.cllBindVars.length + 1 < maxBindVars
      · obtain ⟨c₁, hrun, hbinds, hmem, hstored⟩ := copyAll_turn hsave hfits hroom strings
        rw [hrun] at h
        obtain ⟨ps, hps, htexts, hmem', rfl, hroom'⟩ := ih h
        have hlen := length_copy_le src ncopy
        -- the later copies start behind this one
        have hkept : Stored c' b ix (copy src ncopy) := by
          refine ⟨hstored.fits, fun j hj => ?_, ?_⟩
          · rw [hmem' _ (by omega)]
            exact hstored.text j hj
          · rw [hmem' _ (by omega)]
            exact hstored.stop
        refine ⟨(b, ix) :: ps, ?_, ?_, fun i hi => ?_, ?_, fun _ => ?_⟩
        · rw [hps, hbinds, List.append_assoc, List.singleton_append]
        · rw [map_cons, map_cons, htexts, hkept.deref_eq]
        · rw [hmem' i (by omega), hmem i hi]
        · rw [length_cons]
          omega
        · rw [length_cons, map_cons, extent_cons]
          cases strings with
          | nil => simp; omega
          | cons s strings =>
            have := hroom' (by simp)
            rw [hbinds, length_append, length_singleton] at this
            omega
      · obtain ⟨c₁, hrun⟩ := copyAll_full hfits hroom strings nput
        rw [hrun] at h
        cases h
    · obtain ⟨c₁, hrun⟩ := copyAll_past hfits strings nput c
      rw [hrun] at h
      cases h

theorem copyAll_run : ∀ {nput ix : Nat} {c : Cond},
    c.cllBindVars.length + strings.length < maxBindVars → ix + extent (strings.map Prod.snd) ≤ b.size →
    ∃ r c', copyAll b next saveIx strings nput ix c = .ok r c' := by
  induction strings with
  | nil => exact fun _ _ => ⟨_, _, rfl⟩
  | cons string strings ih =>
    obtain ⟨src, ncopy⟩ := string
    intro nput ix c hroom hfits
    rw [length_cons] at hroom
    rw [map_cons, extent_cons] at hfits
    have hhead : ix + ncopy < b.size := by omega
    obtain ⟨c₁, hrun, hbinds, -, -⟩ := copyAll_turn hsave (c := c) hhead (by omega) strings
    rw [hrun]
    refine ih ?_ (by omega)
    rw [hbinds, length_append, length_singleton]
    omega

end

/-! ## What the helpers copy -/

/-- How much of the path each cut of `addInClauseToWhereForParentOf` takes: up to the
separator, and the first time with it. -/
def cuts : Text → Nat → Nat → List Nat
  | [], _, _ => []
  | c :: cs, i, nput =>
    if c = '/' ∨ c = ' ' ∨ c = '\x00' then (if nput = 0 then i + 1 else i) :: cuts cs (i + 1) (nput + 1)
    else cuts cs (i + 1) nput

/-- Where the quoted strings start, and how long they are. -/
def quotedStrings (inArg : Text) : Text → Nat → Option Nat → List (Text × Nat)
  | [], _, _ => []
  | c :: cs, i, startIx =>
    if c = '\'' then
      match startIx with
      | none => quotedStrings inArg cs (i + 1) (some (i + 1))
      | some startIx => (inArg.drop startIx, i - startIx) :: quotedStrings inArg cs (i + 1) none
    else quotedStrings inArg cs (i + 1) startIx

theorem parentOfLoop_eq (inArg : Text) : ∀ (s : Text) (i nput ix : Nat), parentOfLoop inArg s i nput ix =
    copyAll .inStringsForParentOf ", ?".toList (fun _ => pure ()) ((cuts s i nput).map (inArg, ·)) nput ix >>=
      fun _ => pure () := by
  intro s
  induction s with
  | nil => exact fun _ _ _ => rfl
  | cons c s ih =>
    intro i nput ix
    unfold parentOfLoop cuts
    split
    · simp only [map_cons, copyAll, bind_assoc, ih, pure_bind]
    · exact ih _ _ _

theorem quotedLoop_eq (b : Buffer) (next : Text) (saveIx : Nat → CondM Unit) (inArg : Text) :
    ∀ (s : Text) (i : Nat) (startIx : Option Nat) (nput ix : Nat),
      quotedLoop b next saveIx inArg s i startIx nput ix =
        copyAll b next saveIx (quotedStrings inArg s i startIx) nput ix := by
  intro s
  induction s with
  | nil => exact fun _ _ _ _ => rfl
  | cons c s ih =>
    intro i startIx nput ix
    unfold quotedLoop quotedStrings
    split
    · cases startIx with
      | none => exact ih _ _ _ _
      | some startIx => simp only [copyAll, ih]
    · exact ih _ _ _ _

end Cond

end GenQuery
