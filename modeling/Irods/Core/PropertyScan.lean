-- SUMMARY: Malformed property strings, and how far keyValFromString reads.
import Irods.Core.PropertyString

/-!
# Property strings that are not well-formed

The end of the text is seen where an index is equal to the length. Behind a value the index goes on by two at
once, for `</`, and so passes the end where `<` is the last character. A tag that is not empty then differs from
the end tag, which is empty; an empty tag is the same, and the rounds that follow are behind the text.
-/

namespace KeyValPair

open CBuffer
open PairList (Shows)

/-- Complete elements, then an empty tag, its value, and a last `<`. -/
inductive CutOff : Text → Prop
  | last {J v : Text} (hJ : '<' ∉ J) (hv : '<' ∉ v) : CutOff (J ++ '<' :: ('>' :: (v ++ ['<'])))
  | element {J k v R : Text} (c : Char) (hJ : '<' ∉ J) (hk : '>' ∉ k) (hv : '<' ∉ v) (hrest : CutOff ('>' :: R)) :
      CutOff (J ++ '<' :: (k ++ '>' :: (v ++ '<' :: c :: (k ++ '>' :: R))))

/-- What may come behind the value of a tag `k`. -/
def CutOffBehind (k W : Text) : Prop :=
  k = [] ∧ W = [] ∨ ∃ c R, W = c :: (k ++ '>' :: R) ∧ CutOff ('>' :: R)

section Shape

variable {J k v U V W T : Text}

theorem CutOff.tag (hJ : '<' ∉ J) (h : CutOff (J ++ '<' :: U)) :
    ∃ k v W, '>' ∉ k ∧ '<' ∉ v ∧ U = k ++ '>' :: (v ++ '<' :: W) ∧ CutOffBehind k W := by
  generalize hT : J ++ '<' :: U = T at h
  cases h with
  | @last J' v hJ' hv =>
    obtain ⟨-, rfl⟩ := CString.first_sep_inj hJ hJ' hT
    exact ⟨[], v, [], nofun, hv, rfl, .inl ⟨rfl, rfl⟩⟩
  | @element J' k v R c hJ' hk hv hrest =>
    obtain ⟨-, rfl⟩ := CString.first_sep_inj hJ hJ' hT
    exact ⟨k, v, _, hk, hv, rfl, .inr ⟨c, R, rfl, hrest⟩⟩

theorem CutOff.mem (h : CutOff T) : '<' ∈ T := by
  cases h with
  | last => simp
  | element => simp

theorem cutOff_iff (hJ : '<' ∉ J) (hk : '>' ∉ k) (hv : '<' ∉ v) :
    CutOff (J ++ '<' :: (k ++ '>' :: (v ++ '<' :: W))) ↔ CutOffBehind k W := by
  constructor
  · intro h
    obtain ⟨k', v', W', hk', hv', heq, hbehind⟩ := h.tag hJ
    obtain ⟨rfl, hrest⟩ := CString.first_sep_inj hk hk' heq
    obtain ⟨-, rfl⟩ := CString.first_sep_inj hv hv' hrest
    exact hbehind
  · rintro (⟨rfl, rfl⟩ | ⟨c, R, rfl, hrest⟩)
    · exact .last hJ hv
    · exact .element c hJ hk hv hrest

end Shape

/-! ## One round -/

section Rounds

variable {string A J k k' v U V T X R : Text} {len n : Nat} {list : KeyValPair} {ps : List (Text × Text)}

theorem addKeyVal_total (h : Shows list ps) (k v : Text) :
    ∃ list' ps', addKeyVal list k v = some list' ∧ Shows list' ps' := by
  by_cases hk : k ∈ keys ps ∨ [] ∉ keys ps
  · obtain ⟨list', hadd, hshows⟩ := addKeyVal_insertPair h hk v
    exact ⟨list', _, hadd, hshows⟩
  · obtain ⟨habsent, hempty⟩ := not_or.mp hk
    obtain ⟨list', i, hadd, -, hshows⟩ := addKeyVal_unused h habsent (not_not.mp hempty) v
    exact ⟨list', _, hadd, hshows⟩

/-- Behind the end of the text nothing is found. -/
theorem skipTo_behind (c : Char) (string : Text) {i : Nat} (h : len ≤ i) : skipTo c string len i = i := by
  rw [skipTo, Nat.sub_eq_zero_of_le h, List.take_zero]
  rfl

/-- A round that begins behind the terminator reads there. -/
theorem readPairs_outside (hlen : string.length = len + 1) {i : Nat} (hi : len < i) (n : Nat) :
    readPairs string len i list n = none := by
  cases n with
  | zero => rfl
  | succ n =>
    have hout : textAt ((string.set (i + 1) nul).set (i + 1 + 1) nul) (i + 1) = none := by
      rw [textAt, List.drop_eq_nil_of_le (by simp; omega)]
      exact if_neg List.not_mem_nil
    rw [readPairs]
    simp only [skipTo_behind '<' string (show len ≤ i by omega), skipTo_behind '>' string (show len ≤ i + 1 by omega),
      skipTo_behind '<' string (show len ≤ i + 1 + 1 by omega),
      skipTo_behind '>' string (show len ≤ i + 1 + 1 + 2 by omega), if_neg (show i ≠ len by omega),
      if_neg (show i + 1 ≠ len by omega), if_neg (show i + 1 + 1 ≠ len by omega),
      if_neg (show i + 1 + 1 + 2 ≠ len by omega), Nat.sub_self, List.take_zero, ne_eq, not_true, if_false, hout]
    rfl

/-- The rounds from the end of `A` on. -/
theorem readPairs_iff (hT : nul ∉ T) (hshows : Shows list ps) (hstring : string = A ++ (T ++ [nul]))
    (hlen : len = A.length + T.length) (hn : T.length < n) :
    CutOff T ∧ readPairs string len A.length list n = none ∨
      ¬ CutOff T ∧ ∃ status list', readPairs string len A.length list n = some (status, list', string) := by
  induction n generalizing A T list ps with
  | zero => omega
  | succ n ih =>
    by_cases hopen : '<' ∈ T
    swap
    · refine .inr ⟨fun h => hopen h.mem, 0, list, ?_⟩
      rw [readPairs, skipTo_end hstring rfl hopen hlen]
      exact if_pos rfl
    obtain ⟨J, U, rfl, hJ⟩ := List.eq_append_cons_of_mem hopen
    by_cases hclose : '>' ∈ U
    swap
    · refine .inr ⟨fun h => ?_, 0, list, ?_⟩
      · obtain ⟨k, v, W, -, -, rfl, -⟩ := h.tag hJ
        simp at hclose
      · have hstart : skipTo '<' string len A.length = A.length + J.length :=
          skipTo_found (Z := U ++ [nul]) (by simp [hstring]) rfl hJ (by simp at hlen; omega)
        have hend : skipTo '>' string len (A.length + J.length + 1) = len :=
          skipTo_end (X := A ++ (J ++ ['<'])) (Y := U) (Z := [nul]) (by simp [hstring]) (by simp; omega) hclose
            (by simp at hlen; omega)
        rw [readPairs]
        dsimp only
        rw [hstart, if_neg (by simp at hlen; omega), hend, if_pos rfl]
        rfl
    obtain ⟨k, V, rfl, hk⟩ := List.eq_append_cons_of_mem hclose
    by_cases hnext : '<' ∈ V
    swap
    · refine .inr ⟨fun h => ?_, 0, list, ?_⟩
      · obtain ⟨k', v, W, hk', -, heq, -⟩ := h.tag hJ
        obtain ⟨rfl, rfl⟩ := CString.first_sep_inj hk hk' heq
        simp at hnext
      · have hstart : skipTo '<' string len A.length = A.length + J.length :=
          skipTo_found (Z := k ++ '>' :: (V ++ [nul])) (by simp [hstring]) rfl hJ (by simp at hlen; omega)
        have htag : skipTo '>' string len (A.length + J.length + 1) = A.length + J.length + 1 + k.length :=
          skipTo_found (X := A ++ (J ++ ['<'])) (Z := V ++ [nul]) (by simp [hstring]) (by simp; omega) hk
            (by simp at hlen; omega)
        have hend : skipTo '<' string len (A.length + J.length + 1 + k.length + 1) = len :=
          skipTo_end (X := A ++ (J ++ '<' :: (k ++ ['>']))) (Y := V) (Z := [nul]) (by simp [hstring])
            (by simp; omega) hnext (by simp at hlen; omega)
        rw [readPairs]
        dsimp only
        rw [hstart, if_neg (by simp at hlen; omega), htag, if_neg (by simp at hlen; omega), hend, if_pos rfl]
        rfl
    obtain ⟨v, W, rfl, hv⟩ := List.eq_append_cons_of_mem hnext
    obtain ⟨-, hknul, hvnul, hWnul⟩ : nul ∉ J ∧ nul ∉ k ∧ nul ∉ v ∧ nul ∉ W := by simp at hT; tauto
    simp only [List.length_append, List.length_cons] at hlen hn
    have hshape : string = A ++ (J ++ '<' :: (k ++ '>' :: (v ++ '<' :: (W ++ [nul])))) := by simp [hstring]
    have hround : readPairs string len A.length list (n + 1) = _ :=
      readPairs_tags hJ hk hv hknul hvnul hshape rfl (by omega)
    rw [cutOff_iff hJ hk hv]
    cases W with
    | nil =>
      -- the index is behind the end
      rw [List.length_nil] at hlen
      rw [skipTo_behind '>' string (by omega), if_neg (by omega), Nat.sub_self] at hround
      by_cases hempty : k = []
      · subst hempty
        rw [List.length_nil] at hlen
        obtain ⟨list', ps', hadd, -⟩ := addKeyVal_total hshows [] v
        rw [hround, hadd, Option.bind_some]
        exact .inl ⟨.inl ⟨rfl, rfl⟩, readPairs_outside (by simp [hstring]; omega)
          (by rw [List.length_nil]; omega) n⟩
      · rw [if_pos (by simpa using hempty)] at hround
        refine .inr ⟨?_, _, _, hround⟩
        rintro (⟨h, -⟩ | ⟨c, R, h, -⟩)
        · exact hempty h
        · cases h
    | cons c X =>
      obtain ⟨C, hC, hc⟩ : ∃ C, C = A ++ (J ++ '<' :: (k ++ '>' :: (v ++ ['<', c]))) ∧
          C.length = A.length + J.length + k.length + v.length + 2 + 2 := ⟨_, rfl, by simp; omega⟩
      have hclosed : string = C ++ (X ++ [nul]) := by simp [hstring, hC]
      rw [List.length_cons] at hlen hn
      rw [← hc] at hround
      by_cases hX : '>' ∈ X
      swap
      · rw [skipTo_end hclosed rfl hX (by omega), if_pos rfl] at hround
        refine .inr ⟨?_, _, _, hround⟩
        rintro (⟨-, h⟩ | ⟨d, R, h, -⟩)
        · cases h
        · cases h
          simp at hX
      obtain ⟨k', R, rfl, hk'⟩ := List.eq_append_cons_of_mem hX
      simp only [List.length_append, List.length_cons] at hlen hn
      rw [skipTo_found (Z := R ++ [nul]) (by simp [hclosed]) rfl hk' (by omega), if_neg (by omega),
        Nat.add_sub_cancel_left] at hround
      by_cases hkk : k = k'
      · subst hkk
        obtain ⟨list', ps', hadd, hshows'⟩ := addKeyVal_total hshows k v
        have hsecond : (string.drop C.length).take k.length = k := by rw [hclosed]; simp
        rw [if_neg (fun h => h rfl), hsecond, if_neg (fun h => h rfl), hadd, Option.bind_some] at hround
        have hrest := ih (A := C ++ k) (T := '>' :: R)
          (by simp [nul] at hWnul ⊢; tauto) hshows' (by simp [hclosed]) (by simp; omega) (by simp; omega)
        rw [List.length_append] at hrest
        have hiff : CutOffBehind k (c :: (k ++ '>' :: R)) ↔ CutOff ('>' :: R) := by
          constructor
          · rintro (⟨-, h⟩ | ⟨d, R', h, hcut⟩)
            · cases h
            · obtain ⟨-, rfl⟩ := CString.first_sep_inj hk hk (List.cons.inj h).2
              exact hcut
          · exact fun h => .inr ⟨c, R, rfl, h⟩
        simpa only [hround, hiff] using hrest
      · have hne : ¬ CutOffBehind k (c :: (k' ++ '>' :: R)) := by
          rintro (⟨-, h⟩ | ⟨d, R', h, -⟩)
          · cases h
          · exact hkk (CString.first_sep_inj hk hk' (List.cons.inj h).2.symm |>.1)
        by_cases hlens : k.length = k'.length
        · have hsecond : (string.drop C.length).take k.length = k' := by rw [hclosed, hlens]; simp
          rw [if_neg (fun h => h hlens), hsecond, if_pos hkk] at hround
          exact .inr ⟨hne, _, _, hround⟩
        · rw [if_pos hlens] at hround
          exact .inr ⟨hne, _, _, hround⟩

/-! ## The string is left as it was -/

/-- The function returns, having stayed inside of the string, which is as it was. -/
def Handled (s : Text) : Prop :=
  ∃ status list, keyValFromString (s ++ [nul]) = some (status, list, s ++ [nul])

/-- For a string of which every index is an `int`. -/
theorem handled_iff_not_cutOff {s : Text} (hs : nul ∉ s) (_hlen : s.length + 2 < intBound) :
    Handled s ↔ ¬ CutOff s := by
  have hrun : keyValFromString (s ++ [nul]) = readPairs (s ++ [nul]) s.length 0 .empty ((s ++ [nul]).length + 1) := by
    rw [keyValFromString, show textAt (s ++ [nul]) 0 = some s from textAt_cut hs [] []]
    rfl
  have hrounds := readPairs_iff (A := []) hs PairList.shows_empty rfl rfl
    (show s.length < (s ++ [nul]).length + 1 by rw [List.length_append]; omega)
  rw [List.length_nil, Nat.zero_add, List.nil_append, ← hrun] at hrounds
  rw [Handled]
  rcases hrounds with ⟨hcut, hnone⟩ | ⟨hcut, hsome⟩
  · simp [hcut, hnone]
  · simp [hcut, hsome]

theorem handled_iff_not_cutOff_sample : Handled "<k>v</k><".toList ↔ ¬ CutOff "<k>v</k><".toList :=
  handled_iff_not_cutOff (by decide) (by decide)

theorem emptyTag_not_handled : ¬ Handled "<><".toList := by
  rintro ⟨status, list, h⟩
  cases h

end Rounds

end KeyValPair
