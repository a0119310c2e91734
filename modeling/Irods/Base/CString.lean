-- SUMMARY: C strings as character lists: strstr and what it finds.
import Mathlib.Data.List.Infix

/-!
# C strings

A C string is the list of its characters up to the terminator. A pointer into it is a
position, and the string that starts there is what is left after dropping that many
characters.
-/

abbrev Text := List Char

namespace CString

open List (cons_append isPrefixOf_iff_prefix mem_cons_of_mem mem_cons_self prefix_append)

/-- A check of each character of a text does not go through all characters there are. -/
instance (s : Text) (p : Char → Prop) [DecidablePred p] : Decidable (∀ c ∈ s, p c) :=
  List.decidableBAll p s

/-- The position of the first occurrence of `pat`. -/
def strstr (pat : Text) : Text → Option Nat
  | [] => if pat = [] then some 0 else none
  | c :: cs => if pat.isPrefixOf (c :: cs) then some 0 else (strstr pat cs).map (· + 1)

/-- Does `pat` occur? -/
def occurs (pat s : Text) : Bool := (strstr pat s).isSome

variable {pat : Text}

theorem strstr_eq_none : ∀ {s : Text}, strstr pat s = none ↔ ¬ pat <:+: s := by
  intro s
  induction s with
  | nil => simp [strstr]
  | cons c cs ih =>
    simp only [strstr]
    split
    · rename_i hpre
      have hwithin : pat <:+: c :: cs := List.IsPrefix.isInfix <| isPrefixOf_iff_prefix.mp hpre
      simp [hwithin]
    · rename_i hpre
      have hnot : ¬ pat <+: c :: cs := mt isPrefixOf_iff_prefix.mpr hpre
      rw [Option.map_eq_none_iff, ih, List.infix_cons_iff]
      simp [hnot]

theorem strstr_eq_some : ∀ {s : Text} {n : Nat}, strstr pat s = some n →
    n ≤ s.length ∧ pat <+: s.drop n ∧ ∀ m < n, ¬ pat <+: s.drop m := by
  intro s
  induction s with
  | nil =>
    intro n h
    simp only [strstr] at h
    split at h
    · rename_i hpat
      simp only [Option.some.injEq] at h
      subst h hpat
      simp
    · simp at h
  | cons c cs ih =>
    intro n h
    simp only [strstr] at h
    split at h
    · rename_i hpre
      simp only [Option.some.injEq] at h
      subst h
      exact ⟨Nat.zero_le _, by simpa using hpre, by simp⟩
    · rename_i hpre
      obtain ⟨m, hm, rfl⟩ := Option.map_eq_some_iff.mp h
      obtain ⟨hle, hpat, hfirst⟩ := ih hm
      refine ⟨by simpa using hle, by simpa using hpat, ?_⟩
      intro k hk
      cases k with
      | zero => simpa using hpre
      | succ k => simpa using hfirst k (by omega)

theorem strstr_prefix (pat s : Text) : strstr pat (pat ++ s) = some 0 := by
  cases pat with
  | nil => cases s <;> rfl
  | cons c cs =>
    have hpre : (c :: cs).isPrefixOf (c :: cs ++ s) = true :=
      isPrefixOf_iff_prefix.mpr (prefix_append _ _)
    rw [cons_append] at hpre ⊢
    rw [strstr, if_pos hpre]

variable {c : Char} {s : Text}

/-- A pattern is found at the first occurrence of its first character, if it is there. -/
theorem strstr_first {junk : Text} (h : c ∉ junk) (pat R : Text) :
    strstr (c :: pat) (junk ++ c :: (pat ++ R)) = some junk.length := by
  induction junk with
  | nil => exact strstr_prefix (c :: pat) R
  | cons d ds ih =>
    have hd : c ≠ d := fun hd => h (hd ▸ mem_cons_self)
    have hds : c ∉ ds := fun hmem => h (mem_cons_of_mem _ hmem)
    have hpre : ¬ (c :: pat).isPrefixOf (d :: (ds ++ c :: (pat ++ R))) = true := by
      refine mt isPrefixOf_iff_prefix.mp ?_
      rw [List.cons_prefix_cons]
      exact fun hpre => hd hpre.1
    rw [cons_append, strstr, if_neg hpre, ih hds]
    rfl

theorem strstr_char_none (h : c ∉ s) : strstr [c] s = none := by
  rw [strstr_eq_none]
  exact fun hsub => h (hsub.subset mem_cons_self)

theorem occurs_iff : occurs pat s = true ↔ pat <:+: s := by
  rw [occurs, Option.isSome_iff_ne_none, ne_eq, strstr_eq_none, not_not]

/-! ## Separators -/

variable {c : Char} {R : Text}

/-- A pattern does not reach over a character it does not have. -/
theorem prefix_sep : ∀ {pat s : Text}, c ∉ pat →
    (pat <+: s ++ c :: R ↔ pat <+: s) := by
  intro pat s
  induction s generalizing pat with
  | nil =>
    intro hc
    cases pat with
    | nil => simp
    | cons p pat =>
      have hpc : p ≠ c := fun h => hc (by simp [h])
      simp [List.cons_prefix_cons, hpc]
  | cons d s ih =>
    intro hc
    cases pat with
    | nil => simp
    | cons p pat =>
      have hrest : c ∉ pat := fun h => hc (mem_cons_of_mem _ h)
      simp only [cons_append, List.cons_prefix_cons, ih hrest]

/-- The first occurrence in a text with a separator. -/
theorem strstr_sep (hc : c ∉ pat) (hne : pat ≠ []) : ∀ (s : Text),
    strstr pat (s ++ c :: R) =
      (strstr pat s).or ((strstr pat R).map (· + (s.length + 1))) := by
  intro s
  induction s with
  | nil =>
    have hpre : pat.isPrefixOf (c :: R) = false := by
      rw [Bool.eq_false_iff, ne_eq, isPrefixOf_iff_prefix]
      intro h
      exact hne (List.prefix_nil.mp ((prefix_sep (s := []) hc).mp h))
    simp [strstr, hpre, hne]
  | cons d s ih =>
    have hpre : pat.isPrefixOf (d :: (s ++ c :: R)) = pat.isPrefixOf (d :: s) := by
      rw [Bool.eq_iff_iff, isPrefixOf_iff_prefix, isPrefixOf_iff_prefix]
      exact prefix_sep (s := d :: s) hc
    simp only [cons_append, strstr, hpre]
    split
    · rfl
    · rw [ih]
      cases strstr pat s with
      | some n => rfl
      | none =>
        cases strstr pat R with
        | none => rfl
        | some n => simp only [Option.map_some, Option.or, Option.map_none, List.length_cons]; rfl

theorem infix_sep (hc : c ∉ pat) (hne : pat ≠ []) : pat <:+: s ++ c :: R ↔ pat <:+: s ∨ pat <:+: R := by
  have hnone := strstr_sep (R := R) hc hne s
  rw [← not_iff_not, ← strstr_eq_none, hnone, not_or, ← strstr_eq_none, ← strstr_eq_none]
  cases strstr pat s <;> simp

/-- A scan ends at a character it does not take. -/
theorem takeWhile_stop {p : Char → Bool} (hc : p c = false) (R : Text) :
    ∀ s : Text, (s ++ c :: R).takeWhile p = s.takeWhile p
  | [] => by simp [hc]
  | d :: s => by
    rw [cons_append, List.takeWhile_cons, List.takeWhile_cons, takeWhile_stop hc R s]

variable {x y S : Text}

/-- What comes after the first separator is found in one way. -/
theorem first_sep_inj (hx : c ∉ x) (hy : c ∉ y) (h : x ++ c :: R = y ++ c :: S) : x = y ∧ R = S := by
  induction x generalizing y with
  | nil =>
    cases y with
    | nil => simpa using h
    | cons d y =>
      obtain ⟨rfl, -⟩ := List.cons.inj h
      exact absurd mem_cons_self hy
  | cons d x ih =>
    cases y with
    | nil =>
      obtain ⟨rfl, -⟩ := List.cons.inj h
      exact absurd mem_cons_self hx
    | cons e y =>
      obtain ⟨rfl, htl⟩ := List.cons.inj h
      obtain ⟨rfl, hR⟩ := ih (fun hm => hx (mem_cons_of_mem _ hm))
        (fun hm => hy (mem_cons_of_mem _ hm)) htl
      exact ⟨rfl, hR⟩

/-- What comes after the last separator is found in one way. -/
theorem last_sep_inj (hR : c ∉ R) (hS : c ∉ S) (h : x ++ c :: R = y ++ c :: S) : x = y ∧ R = S := by
  have hrev : R.reverse ++ c :: x.reverse = S.reverse ++ c :: y.reverse := by
    simpa using congrArg List.reverse h
  obtain ⟨hRS, hxy⟩ := first_sep_inj (by simpa using hR) (by simpa using hS) hrev
  exact ⟨List.reverse_injective hxy, List.reverse_injective hRS⟩

/-- A pattern between two separators does not reach over a third one. -/
theorem infix_between {mid Y : Text} (hmid : c ∉ mid) (h : c :: (mid ++ [c]) <:+: Y ++ c :: R) :
    c :: (mid ++ [c]) <:+: Y ++ [c] ∨ c :: (mid ++ [c]) <:+: c :: R := by
  obtain ⟨A, B, h⟩ := h
  have h : A ++ (c :: (mid ++ c :: B)) = Y ++ c :: R := by simpa using h
  obtain ⟨D, rfl, hD⟩ | ⟨D, rfl, hD⟩ := List.append_eq_append_iff.mp h
  · cases D with
    | nil => exact .inr ⟨[], B, by simpa using hD⟩
    | cons d D =>
      obtain ⟨rfl, hD⟩ := List.cons.inj hD
      left
      by_cases hmem : c ∈ D
      · obtain ⟨D₁, D₂, rfl, hD₁⟩ := List.eq_append_cons_of_mem hmem
        obtain ⟨rfl, -⟩ := first_sep_inj (S := D₂ ++ c :: R) hmid hD₁ (by simpa using hD)
        exact ⟨A, D₂ ++ [c], by simp⟩
      · obtain ⟨rfl, -⟩ := first_sep_inj hmid hmem (by simpa using hD)
        exact ⟨A, [], by simp⟩
  · exact .inr ⟨D, B, by simpa using hD.symm⟩

/-- The first occurrence in a text stays the first one when the text goes on. -/
theorem strstr_append : ∀ {s : Text} {n : Nat} (R : Text), strstr pat s = some n →
    strstr pat (s ++ R) = some n := by
  intro s
  induction s with
  | nil =>
    intro n R h
    simp only [strstr] at h
    split at h
    · rename_i hpat
      subst hpat
      simpa using h ▸ strstr_prefix [] R
    · simp at h
  | cons c cs ih =>
    intro n R h
    obtain ⟨-, hpat, -⟩ := strstr_eq_some h
    simp only [strstr] at h
    simp only [cons_append, strstr]
    split at h
    · rename_i hpre
      have hfirst : pat <+: c :: cs := isPrefixOf_iff_prefix.mp hpre
      have hpre' : pat.isPrefixOf (c :: (cs ++ R)) = true :=
        isPrefixOf_iff_prefix.mpr (hfirst.trans (prefix_append (c :: cs) R))
      rw [if_pos hpre', ← h]
    · rename_i hpre
      obtain ⟨m, hm, rfl⟩ := Option.map_eq_some_iff.mp h
      -- an occurrence in front would end inside the text, as the one that was found does
      have hfront : ¬ pat.isPrefixOf (c :: (cs ++ R)) = true := by
        refine mt isPrefixOf_iff_prefix.mp fun hcross => ?_
        rw [← cons_append] at hcross
        have hlen : pat.length ≤ (c :: cs).length := by
          have := hpat.length_le
          simp only [List.length_drop] at this
          omega
        have hfirst := List.prefix_of_prefix_length_le hcross (prefix_append _ _) hlen
        exact hpre <| isPrefixOf_iff_prefix.mpr hfirst
      rw [if_neg hfront, ih R hm]
      rfl

end CString
