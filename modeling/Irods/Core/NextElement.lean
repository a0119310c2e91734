-- SUMMARY: Scanning a text element by element, pointer and length in step.
import Irods.Base.CBuffer
import Irods.Base.CNumber
import Mathlib.Data.List.Count

/-!
# Elements of a text

`getNextEleInStr` moves a pointer and lowers a length, character by character. At a closing quote the pointer moves
by one more. The length is a `Nat`: one below 0 stops the loop as 0 does. `maxOutLen` is the size of the buffer for an
element; a character for which there is no more room is lost. A read behind the terminator has no result (`none`).
-/

namespace NextElement

open CString CBuffer
open List (append_assoc append_nil length_append length_cons range)

/-- The loop: the element, the pointer and what is left of the length. -/
def scanEle (string : Text) (maxOutLen : Nat) : (inbufLen inPtr : Nat) → (hasQuote : Bool) → (outbuf : Text) →
    Option (Text × Nat × Nat)
  | 0, inPtr, _, outbuf => if inPtr < string.length then some (outbuf, inPtr, 0) else none
  | n + 1, inPtr, hasQuote, outbuf =>
    match string[inPtr]? with
    | none => none
    | some c =>
      if c = nul then some (outbuf, inPtr, n + 1)
      else if isspace c ∧ hasQuote = false then
        if 0 < outbuf.length then some (outbuf, inPtr + 1, n)
        else scanEle string maxOutLen n (inPtr + 1) hasQuote outbuf
      else if c = '\'' then
        if hasQuote then some (outbuf, inPtr + 1 + 1, n) else scanEle string maxOutLen n (inPtr + 1) true outbuf
      else if maxOutLen - 1 ≤ outbuf.length then some (outbuf, inPtr + 1, n)
      else scanEle string maxOutLen n (inPtr + 1) hasQuote (outbuf ++ [c])

def getNextEleInStr (string : Text) (maxOutLen inbuf inbufLen : Nat) : Option (Text × Nat × Nat) :=
  scanEle string maxOutLen inbufLen inbuf false []

/-- So many calls one after the other, with all elements. -/
def calls (string : Text) (maxOutLen : Nat) : (k inbuf inbufLen : Nat) → Option (List Text × Nat × Nat)
  | 0, inbuf, inbufLen => some ([], inbuf, inbufLen)
  | k + 1, inbuf, inbufLen => do
    let (elem, inbuf, inbufLen) ← getNextEleInStr string maxOutLen inbuf inbufLen
    let (elems, inbuf, inbufLen) ← calls string maxOutLen k inbuf inbufLen
    return (elem :: elems, inbuf, inbufLen)

/-! ## Words -/

/-- The words behind what there is of a word, inside or outside of quotes. -/
def wordsFrom (hasQuote : Bool) (word : Text) : Text → List Text
  | [] => if word = [] then [] else [word]
  | c :: R =>
    if isspace c ∧ hasQuote = false then
      if word = [] then wordsFrom false [] R else word :: wordsFrom false [] R
    else if c = '\'' then if hasQuote then word :: wordsFrom false [] R else wordsFrom true word R
    else wordsFrom hasQuote (word ++ [c]) R

/-- The words between whitespace; a quoted word may have whitespace in it, and has no quotes. -/
def words (s : Text) : List Text := wordsFrom false [] s

/-- No quote is closed, and every word fits with its end. -/
def Plain (hasQuote : Bool) (word : Text) (maxOutLen : Nat) (R : Text) : Prop :=
  R.count '\'' ≤ (if hasQuote then 0 else 1) ∧ ∀ w ∈ wordsFrom hasQuote word R, w.length < maxOutLen

theorem wordsFrom_head (hasQuote : Bool) {word : Text} (h : word ≠ []) (R : Text) :
    ∃ t ws, wordsFrom hasQuote word R = (word ++ t) :: ws := by
  induction R generalizing hasQuote word with
  | nil => exact ⟨[], [], by rw [wordsFrom, if_neg h, append_nil]⟩
  | cons c R ih =>
    rw [wordsFrom]
    split
    · exact ⟨[], _, by rw [append_nil]⟩
    · split
      · split
        · exact ⟨[], _, by rw [append_nil]⟩
        · exact ih true h
      · obtain ⟨t, ws, heq⟩ := ih hasQuote (List.append_ne_nil_of_left_ne_nil h [c])
        exact ⟨c :: t, ws, by rw [heq, append_assoc]; rfl⟩

/-! ## One call -/

section Scan

variable {A B R out : Text} {maxOutLen : Nat}

/-- The call comes to the end of the first word. -/
def Takes (maxOutLen : Nat) (hasQuote : Bool) (out : Text) (p : Nat) (R : Text)
    (r : Option (Text × Nat × Nat)) : Prop :=
  ∃ X R' e, R = X ++ R' ∧ (R ≠ [] → X ≠ []) ∧ r = some (e, p + X.length, R'.length) ∧
    (wordsFrom hasQuote out R = [] ∧ e = [] ∧ R' = [] ∨ wordsFrom hasQuote out R = e :: words R') ∧
    (Plain hasQuote out maxOutLen R ↔ Plain false [] maxOutLen R')

/-- Pointer and length are out of step, or the element is not the word. -/
def Misses (maxOutLen : Nat) (hasQuote : Bool) (out : Text) (p : Nat) (R : Text)
    (r : Option (Text × Nat × Nat)) : Prop :=
  ¬ Plain hasQuote out maxOutLen R ∧
    ∃ e p' m', r = some (e, p', m') ∧ (p' + m' ≠ p + R.length ∨ e ≠ (wordsFrom hasQuote out R).headD [])

variable {hasQuote hasQuote' : Bool} {out' : Text} {c : Char}

variable {p : Nat} {r : Option (Text × Nat × Nat)}

theorem Takes.cons (h : Takes maxOutLen hasQuote' out' (p + 1) R r)
    (hwords : wordsFrom hasQuote out (c :: R) = wordsFrom hasQuote' out' R)
    (hplain : Plain hasQuote out maxOutLen (c :: R) ↔ Plain hasQuote' out' maxOutLen R) :
    Takes maxOutLen hasQuote out p (c :: R) r := by
  obtain ⟨X, R', e, rfl, -, hr, hfirst, hiff⟩ := h
  refine ⟨c :: X, R', e, rfl, fun _ => List.cons_ne_nil _ _, ?_, hwords ▸ hfirst, hplain.trans hiff⟩
  rw [hr, length_cons, Nat.add_assoc, Nat.add_comm 1]

theorem Misses.cons (h : Misses maxOutLen hasQuote' out' (p + 1) R r)
    (hwords : wordsFrom hasQuote out (c :: R) = wordsFrom hasQuote' out' R)
    (hplain : Plain hasQuote out maxOutLen (c :: R) ↔ Plain hasQuote' out' maxOutLen R) :
    Misses maxOutLen hasQuote out p (c :: R) r := by
  obtain ⟨hnot, e, p', m', hr, hbad⟩ := h
  refine ⟨fun h => hnot (hplain.mp h), e, p', m', hr, ?_⟩
  rw [hwords, length_cons]
  exact hbad.imp (fun h => by omega) id

/-- A character that is left out or added to the word changes neither the words nor the quotes behind it. -/
theorem plain_cons (hwords : wordsFrom hasQuote out (c :: R) = wordsFrom hasQuote' out' R)
    (hcount : (c :: R).count '\'' ≤ (if hasQuote then 0 else 1) ↔ R.count '\'' ≤ (if hasQuote' then 0 else 1)) :
    Plain hasQuote out maxOutLen (c :: R) ↔ Plain hasQuote' out' maxOutLen R := by
  rw [Plain, Plain, hwords, hcount]

/-- A call takes a word, or goes wrong at a closing quote or at a word that is too long. -/
theorem scanEle_spec (hR : nul ∉ R) (hB : B ≠ []) (hasQuote : Bool) (hout : out = [] ∨ out.length < maxOutLen) :
    Takes maxOutLen hasQuote out A.length R
        (scanEle (A ++ (R ++ B)) maxOutLen R.length A.length hasQuote out) ∨
      Misses maxOutLen hasQuote out A.length R
        (scanEle (A ++ (R ++ B)) maxOutLen R.length A.length hasQuote out) := by
  induction R generalizing A hasQuote out with
  | nil =>
    have hin : A.length < (A ++ ([] ++ B)).length := by
      have := List.length_pos_of_ne_nil hB
      simp
      omega
    refine .inl ⟨[], [], out, rfl, fun h => absurd rfl h, if_pos hin, ?_, ?_⟩
    · by_cases h : out = []
      · exact .inl ⟨if_pos h, h, rfl⟩
      · exact .inr (if_neg h)
    · obtain rfl | hlt := hout
      · simp [Plain, wordsFrom]
      · have : ∀ w ∈ wordsFrom hasQuote out [], w.length < maxOutLen := by
          rw [wordsFrom]
          split <;> simp [hlt]
        exact ⟨fun _ => by simp [Plain, wordsFrom], fun _ => ⟨by simp, this⟩⟩
  | cons c R ih =>
    obtain ⟨hc, hR⟩ := not_or.mp fun h => hR (List.mem_cons.mpr h)
    have hchar : (A ++ (c :: R ++ B))[A.length]? = some c := by simp
    have hnext := fun q word hword => @ih (A ++ [c]) word hR q hword
    simp only [length_append, List.length_singleton, append_assoc, List.singleton_append,
      ← List.cons_append] at hnext
    simp only [length_cons, scanEle, hchar, if_neg fun h : c = nul => hc h.symm]
    by_cases hspace : isspace c = true ∧ hasQuote = false
    · have hquote : c ≠ '\'' := by
        rintro rfl
        exact absurd hspace.1 (by decide)
      have hcount : (c :: R).count '\'' = R.count '\'' := List.count_cons_of_ne hquote
      obtain rfl : hasQuote = false := hspace.2
      rw [if_pos hspace]
      by_cases hempty : out = []
      · subst hempty
        have hwords : wordsFrom false [] (c :: R) = wordsFrom false [] R := by rw [wordsFrom, if_pos hspace, if_pos rfl]
        have hplain := @plain_cons _ _ maxOutLen _ _ _ _ hwords (by rw [hcount])
        exact (hnext false [] (.inl rfl)).imp (·.cons hwords hplain) (·.cons hwords hplain)
      · have hwords : wordsFrom false out (c :: R) = out :: words R := by
          rw [wordsFrom, if_pos hspace, if_neg hempty, words]
        refine .inl ⟨[c], R, out, rfl, fun _ => List.cons_ne_nil _ _, if_pos (List.length_pos_of_ne_nil hempty),
          .inr hwords, ?_⟩
        rw [Plain, Plain, hwords, hcount, List.forall_mem_cons, and_iff_right (hout.resolve_left hempty), words]
    rw [if_neg hspace]
    by_cases hquote : c = '\''
    · subst hquote
      cases hasQuote with
      | true =>
        refine .inr ⟨fun h => ?_, out, A.length + 1 + 1, R.length, rfl, .inl (by rw [length_cons]; omega)⟩
        have := h.1
        rw [List.count_cons_self, if_pos rfl] at this
        omega
      | false =>
        have hwords : wordsFrom false out ('\'' :: R) = wordsFrom true out R := by
          rfl
        have hplain := @plain_cons _ _ maxOutLen _ _ _ _ hwords (by rw [List.count_cons_self]; simp)
        exact (hnext true out hout).imp (·.cons hwords hplain) (·.cons hwords hplain)
    rw [if_neg hquote]
    have hwords : wordsFrom hasQuote out (c :: R) = wordsFrom hasQuote (out ++ [c]) R := by
      rw [wordsFrom, if_neg hspace, if_neg hquote]
    by_cases hroom : maxOutLen - 1 ≤ out.length
    · -- the word is longer than what is returned of it
      obtain ⟨t, ws, hhead⟩ := wordsFrom_head hasQuote
        (List.append_ne_nil_of_right_ne_nil out (List.cons_ne_nil c [])) R
      refine .inr ⟨fun h => ?_, out, A.length + 1, R.length, if_pos hroom, .inr fun h => ?_⟩
      · have := h.2 _ (by rw [hwords, hhead]; exact List.mem_cons_self)
        simp at this
        omega
      · rw [hwords, hhead] at h
        have := congrArg List.length h
        simp at this
    · have hplain := @plain_cons _ _ maxOutLen _ _ _ _ hwords (by rw [List.count_cons_of_ne hquote])
      rw [if_neg hroom]
      exact (hnext hasQuote _ (.inr (by simp; omega))).imp (·.cons hwords hplain) (·.cons hwords hplain)

end Scan

/-! ## Any number of calls -/

section Calls

variable {A B R : Text} {maxOutLen : Nat}

/-- From the pointer on: pointer and length are in step after each call, and the elements are the words; an element
behind the last one is empty. -/
def InStep (string : Text) (maxOutLen inbuf : Nat) (R : Text) : Prop :=
  ∀ k, ∃ elems inbuf' inbufLen', calls string maxOutLen k inbuf R.length = some (elems, inbuf', inbufLen') ∧
    inbuf' + inbufLen' = inbuf + R.length ∧ elems = (range k).map fun i => (words R).getD i []

variable {string e : Text}

theorem calls_succ {k inbuf inbufLen inbuf' inbufLen' : Nat}
    (h : getNextEleInStr string maxOutLen inbuf inbufLen = some (e, inbuf', inbufLen')) :
    calls string maxOutLen (k + 1) inbuf inbufLen =
      (calls string maxOutLen k inbuf' inbufLen').map fun r => (e :: r.1, r.2) := by
  rw [calls, h]
  simp only [Option.bind_eq_bind, Option.bind_some]
  cases calls string maxOutLen k inbuf' inbufLen' <;> rfl

theorem inStep_of_takes {X R' : Text} {p : Nat}
    (hcall : getNextEleInStr string maxOutLen p R.length = some (e, p + X.length, R'.length)) (hsplit : R = X ++ R')
    (hfirst : words R = [] ∧ e = [] ∧ R' = [] ∨ words R = e :: words R') :
    InStep string maxOutLen p R ↔ InStep string maxOutLen (p + X.length) R' := by
  have hhead : (words R).getD 0 [] = e := by
    obtain ⟨h, rfl, -⟩ | h := hfirst <;> simp [h]
  have htail (i : Nat) : (words R).getD (i + 1) [] = (words R').getD i [] := by
    obtain ⟨h, -, rfl⟩ | h := hfirst
    · rw [h]
      rfl
    · simp [h]
  have helems (k : Nat) : ((range (k + 1)).map fun i => (words R).getD i []) =
      e :: (range k).map fun i => (words R').getD i [] := by
    rw [List.range_succ_eq_map, List.map_cons, List.map_map, hhead]
    exact congrArg _ (List.map_congr_left fun i _ => htail i)
  have hlen : R.length = X.length + R'.length := by rw [hsplit, length_append]
  constructor
  · intro h k
    obtain ⟨elems, p', m', hrun, hstep, heq⟩ := h (k + 1)
    rw [calls_succ hcall] at hrun
    obtain ⟨⟨elems', p'', m''⟩, hrest, hcons⟩ := Option.map_eq_some_iff.mp hrun
    cases hcons
    exact ⟨elems', p', m', hrest, by omega, (List.cons.inj (heq.trans (helems k))).2⟩
  · intro h k
    cases k with
    | zero => exact ⟨[], p, R.length, rfl, rfl, rfl⟩
    | succ k =>
      obtain ⟨elems, p', m', hrun, hstep, heq⟩ := h k
      refine ⟨e :: elems, p', m', ?_, by omega, by rw [helems, heq]⟩
      rw [calls_succ hcall, hrun]
      rfl

theorem inStep_nil_iff_plain (hR : nul ∉ R) (hB : B ≠ []) :
    InStep (A ++ (R ++ B)) maxOutLen A.length R ↔ Plain false [] maxOutLen R := by
  induction hn : R.length using Nat.strong_induction_on generalizing A R with
  | h n ih =>
    obtain ⟨X, R', e, hsplit, hne, hcall, hfirst, hplain⟩ | ⟨hnot, e, p', m', hcall, hbad⟩ :=
      @scanEle_spec A _ _ _ maxOutLen hR hB false (.inl rfl)
    · by_cases hempty : R = []
      · subst hempty
        obtain ⟨rfl, rfl⟩ := List.append_eq_nil_iff.mp hsplit.symm
        obtain ⟨-, rfl, -⟩ | h := hfirst
        · refine iff_of_true (fun k => ?_) (by simp [Plain, wordsFrom])
          induction k with
          | zero => exact ⟨[], _, _, rfl, rfl, rfl⟩
          | succ k ihk =>
            obtain ⟨elems, q, m, hrun, hstep, heq⟩ := ihk
            refine ⟨[] :: elems, q, m, ?_, hstep, ?_⟩
            · rw [calls_succ hcall]
              exact congrArg (Option.map _) hrun
            · rw [List.range_succ_eq_map, List.map_cons, List.map_map, heq]
              rfl
        · cases h
      · have hX := List.length_pos_of_ne_nil (hne hempty)
        have hlen := congrArg List.length hsplit
        rw [length_append] at hlen
        have hrest := ih R'.length (by omega) (A := A ++ X) (fun h => hR (hsplit ▸ List.mem_append_right X h)) rfl
        rw [length_append, append_assoc, ← append_assoc X, ← hsplit] at hrest
        rw [inStep_of_takes hcall hsplit hfirst, hrest, hplain]
    · refine iff_of_false (fun h => ?_) hnot
      obtain ⟨elems, q, m, hrun, hstep, heq⟩ := h 1
      rw [calls_succ hcall] at hrun
      cases hrun
      obtain hbad | hbad := hbad
      · exact hbad hstep
      · refine hbad ((List.cons.inj heq).1.trans ?_)
        rw [words]
        cases wordsFrom false [] R <;> rfl

end Calls

/-- `inbufLen` characters at the beginning of a text: pointer and length stay in step, the pointer never past the
terminator, and the elements are the words, exactly when no quote is closed and every word fits. -/
theorem inStep_iff_plain {s : Text} (hs : nul ∉ s) {inbufLen : Nat} (hle : inbufLen ≤ s.length) (maxOutLen : Nat) :
    (∀ k, ∃ elems inbuf' inbufLen', calls (s ++ [nul]) maxOutLen k 0 inbufLen = some (elems, inbuf', inbufLen') ∧
      inbuf' + inbufLen' = inbufLen ∧ inbuf' ≤ s.length ∧
      elems = (range k).map fun i => (words (s.take inbufLen)).getD i []) ↔
    (s.take inbufLen).count '\'' ≤ 1 ∧ ∀ w ∈ words (s.take inbufLen), w.length < maxOutLen := by
  have hlen : (s.take inbufLen).length = inbufLen := by simpa using hle
  have h := @inStep_nil_iff_plain [] (s.drop inbufLen ++ [nul]) (s.take inbufLen) maxOutLen
    (fun hmem => hs (List.mem_of_mem_take hmem)) (by simp)
  rw [List.nil_append, ← append_assoc, List.take_append_drop, List.length_nil] at h
  refine Iff.trans ?_ h
  simp only [InStep, hlen, Nat.zero_add]
  refine forall_congr' fun k => exists₃_congr fun elems p m => and_congr_right fun _ => and_congr_right fun hstep => ?_
  exact and_iff_right (by omega)

theorem inStep_iff_plain_sample :
    (∀ k, ∃ elems inbuf' inbufLen', calls ("ab c".toList ++ [nul]) 8 k 0 4 = some (elems, inbuf', inbufLen') ∧
      inbuf' + inbufLen' = 4 ∧ inbuf' ≤ 4 ∧
      elems = (range k).map fun i => (words ("ab c".toList.take 4)).getD i []) ↔
    ("ab c".toList.take 4).count '\'' ≤ 1 ∧ ∀ w ∈ words ("ab c".toList.take 4), w.length < 8 :=
  inStep_iff_plain (by decide) (by decide) 8

/-- Behind a closing quote at the end of the text the pointer is past the terminator. -/
theorem closed_out_of_step : ¬ ∀ k, ∃ elems inbuf' inbufLen',
    calls ("'a'".toList ++ [nul]) 8 k 0 3 = some (elems, inbuf', inbufLen') ∧ inbuf' + inbufLen' = 3 ∧ inbuf' ≤ 3 ∧
      elems = (range k).map fun i => (words ("'a'".toList.take 3)).getD i [] := by
  intro h
  obtain ⟨elems, p, m, hrun, -, hle, -⟩ := h 1
  have hone : calls ("'a'".toList ++ [nul]) 8 1 0 3 = some ([['a']], 4, 0) := by decide
  cases hrun.symm.trans hone
  exact absurd hle (by decide)

end NextElement
