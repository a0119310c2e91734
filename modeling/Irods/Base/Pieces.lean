-- SUMMARY: Texts put together from pieces of a language.
import Irods.Base.CString
import Mathlib.Computability.Language

/-!
# Texts made of pieces

A text is made of pieces of a language `L` when it is in `L∗`. When the part of a piece
behind a separator is again a piece, the part of such a text behind a separator is made of
pieces too.

A scanner that puts blanks in place of the words it knows, one after the other, and in the
end finds nothing but blanks, has read a text made of these words and of blanks.
-/

open scoped Computability

namespace Language

variable {α : Type} {L : Language α}

theorem mem_kstar_of_mem {p : List α} (h : p ∈ L) : p ∈ L∗ := by
  have hone := join_mem_kstar (L := [p]) (l := L) (by simpa using h)
  simpa using hone

variable {s t : List α}

theorem append_mem_kstar (hs : s ∈ L∗) (ht : t ∈ L∗) : s ++ t ∈ L∗ := by
  obtain ⟨ps, rfl, hps⟩ := mem_kstar.mp hs
  obtain ⟨qs, rfl, hqs⟩ := mem_kstar.mp ht
  rw [← List.flatten_append]
  refine join_mem_kstar fun p hp => ?_
  obtain hp | hp := List.mem_append.mp hp
  · exact hps p hp
  · exact hqs p hp

/-- What lies behind a separator is made of pieces when this holds of each piece. -/
theorem mem_kstar_behind {c : α} (hbehind : ∀ p q, p ++ c :: q ∈ L → q ∈ L) (h : s ++ c :: t ∈ L∗) : t ∈ L∗ := by
  obtain ⟨ps, heq, hps⟩ := mem_kstar.mp h
  induction ps generalizing s with
  | nil => simp at heq
  | cons p ps ih =>
    have hrest : ∀ q ∈ ps, q ∈ L := fun q hq => hps q (List.mem_cons_of_mem _ hq)
    have hflat : ps.flatten ∈ L∗ := join_mem_kstar hrest
    obtain ⟨u, rfl, hu⟩ | ⟨u, rfl, hu⟩ := List.append_eq_append_iff.mp heq
    · cases u with
      | nil =>
        exact ih (s := []) (by rw [hu]; exact hflat) hu hrest
      | cons d u =>
        obtain ⟨rfl, rfl⟩ := List.cons.inj hu
        have hpart : u ∈ L := hbehind s u (hps _ List.mem_cons_self)
        exact append_mem_kstar (mem_kstar_of_mem hpart) hflat
    · exact ih (by rw [← hu]; exact hflat) hu.symm hrest

end Language

namespace CString

/-! ## The last word -/

/-- What lies behind the last blank. -/
def lastWord (s : Text) : Text := (s.reverse.takeWhile (· ≠ ' ')).reverse

theorem lastWord_cases (s : Text) : lastWord s = s ∨ ∃ t, s = t ++ ' ' :: lastWord s := by
  have hsplit := List.takeWhile_append_dropWhile (p := (· ≠ ' ')) (l := s.reverse)
  have hback : (s.reverse.dropWhile (· ≠ ' ')).reverse ++ lastWord s = s := by
    rw [lastWord, ← List.reverse_append, hsplit, List.reverse_reverse]
  cases hdrop : s.reverse.dropWhile (· ≠ ' ') with
  | nil =>
    rw [hdrop] at hback
    exact .inl hback
  | cons d ds =>
    have hhead := List.head?_dropWhile_not (· ≠ ' ') s.reverse
    rw [hdrop] at hhead hback
    obtain rfl : d = ' ' := by simpa using hhead
    exact .inr ⟨ds.reverse, by simpa using hback.symm⟩

/-- The last word of a text does not depend on what stands in front of a blank. -/
theorem lastWord_behind (s t : Text) : lastWord (s ++ ' ' :: t) = lastWord t := by
  unfold lastWord
  rw [List.reverse_append, List.reverse_cons, List.append_assoc, List.singleton_append,
    takeWhile_stop (by simp)]

variable {L : Language Char} {s : Text}

theorem lastWord_mem_kstar (hbehind : ∀ p q, p ++ ' ' :: q ∈ L → q ∈ L) (h : s ∈ L∗) : lastWord s ∈ L∗ := by
  obtain heq | ⟨t, heq⟩ := lastWord_cases s
  · rwa [heq]
  · rw [heq] at h
    exact Language.mem_kstar_behind hbehind h

/-! ## Texts with words blanked out -/

/-- `t` is `s` with blanks in place of some words of `L`. -/
inductive Blanked (L : Language Char) : Text → Text → Prop
  | nil : Blanked L [] []
  | keep (c : Char) {s t : Text} : Blanked L s t → Blanked L (c :: s) (c :: t)
  | blank {w s t : Text} : w ∈ L → Blanked L s t → Blanked L (w ++ s) (List.replicate w.length ' ' ++ t)

namespace Blanked

variable {t₁ t₂ : Text}

theorem append {s₁ s₂ : Text} (h₁ : Blanked L s₁ t₁) (h₂ : Blanked L s₂ t₂) : Blanked L (s₁ ++ s₂) (t₁ ++ t₂) := by
  induction h₁ with
  | nil => exact h₂
  | keep c _ ih => exact .keep c ih
  | blank hw _ ih =>
    rw [List.append_assoc, List.append_assoc]
    exact .blank hw ih

/-- A character that is no blank was not put there. -/
theorem split {c : Char} (hc : c ≠ ' ') (h : Blanked L s (t₁ ++ c :: t₂)) :
    ∃ s₁ s₂, s = s₁ ++ c :: s₂ ∧ Blanked L s₁ t₁ ∧ Blanked L s₂ t₂ := by
  generalize ht : t₁ ++ c :: t₂ = t at h
  induction h generalizing t₁ with
  | nil => simp at ht
  | keep d hrest ih =>
    cases t₁ with
    | nil =>
      obtain ⟨rfl, rfl⟩ := List.cons.inj ht
      exact ⟨[], _, rfl, .nil, hrest⟩
    | cons e t₁ =>
      obtain ⟨rfl, htail⟩ := List.cons.inj ht
      obtain ⟨s₁, s₂, rfl, h₁, h₂⟩ := ih htail
      exact ⟨e :: s₁, s₂, rfl, .keep e h₁, h₂⟩
  | blank hw _ ih =>
    obtain ⟨u, hu, hrest⟩ | ⟨u, rfl, hrest⟩ := List.append_eq_append_iff.mp ht
    · cases u with
      | nil =>
        obtain ⟨s₁, s₂, rfl, h₁, h₂⟩ := @ih [] hrest
        rw [List.append_nil] at hu
        refine ⟨_ ++ s₁, s₂, (List.append_assoc _ _ _).symm, ?_, h₂⟩
        rw [← hu, ← List.append_nil (List.replicate _ _)]
        exact .blank hw h₁
      | cons d u =>
        obtain ⟨rfl, -⟩ := List.cons.inj hrest
        have hmem : c ∈ t₁ ++ c :: u := by simp
        rw [← hu] at hmem
        exact absurd (List.eq_of_mem_replicate hmem) hc
    · obtain ⟨s₁, s₂, rfl, h₁, h₂⟩ := ih hrest.symm
      exact ⟨_ ++ s₁, s₂, (List.append_assoc _ _ _).symm, .blank hw h₁, h₂⟩

theorem nil_right (h : Blanked L s []) : s = [] := by
  generalize ht : ([] : Text) = t at h
  induction h with
  | nil => rfl
  | keep c _ _ => simp at ht
  | blank hw _ ih =>
    obtain ⟨hreplicate, hrest⟩ := List.append_eq_nil_iff.mp ht.symm
    obtain rfl := List.length_eq_zero_iff.mp (by simpa using hreplicate)
    exact ih hrest.symm

variable {w t : Text}

/-- A word without blanks stands where it is seen. -/
theorem split_front (hw : ' ' ∉ w) (h : Blanked L s (w ++ t)) : ∃ s', s = w ++ s' ∧ Blanked L s' t := by
  induction w generalizing s with
  | nil => exact ⟨s, rfl, h⟩
  | cons c w ih =>
    obtain ⟨hc, hw⟩ := List.ne_and_not_mem_of_not_mem_cons hw
    obtain ⟨s₁, s₂, rfl, h₁, h₂⟩ := split hc.symm (show Blanked L s ([] ++ c :: (w ++ t)) from h)
    obtain rfl := nil_right h₁
    obtain ⟨s', rfl, hs'⟩ := ih hw h₂
    exact ⟨s', rfl, hs'⟩

theorem split_word (hw : ' ' ∉ w) (hne : w ≠ []) (h : Blanked L s (t₁ ++ (w ++ t₂))) :
    ∃ s₁ s₂, s = s₁ ++ (w ++ s₂) ∧ Blanked L s₁ t₁ ∧ Blanked L s₂ t₂ := by
  cases w with
  | nil => exact absurd rfl hne
  | cons c w =>
    obtain ⟨hc, hw⟩ := List.ne_and_not_mem_of_not_mem_cons hw
    obtain ⟨s₁, s₂, rfl, h₁, h₂⟩ := split hc.symm h
    obtain ⟨s', rfl, hs'⟩ := split_front hw h₂
    exact ⟨s₁, s', rfl, h₁, hs'⟩

/-- Where only blanks are left, the text was made of the words and of blanks. -/
theorem all_blank (h : Blanked L s t) (ht : ∀ c ∈ t, c = ' ') (hblank : [' '] ∈ L) : s ∈ L∗ := by
  induction h with
  | nil => exact Language.nil_mem_kstar L
  | keep c _ ih =>
    obtain ⟨rfl, hrest⟩ := List.forall_mem_cons.mp ht
    exact Language.append_mem_kstar (Language.mem_kstar_of_mem hblank) (ih hrest)
  | blank hw _ ih =>
    have hrest := ih fun c hc => ht c (List.mem_append_right _ hc)
    exact Language.append_mem_kstar (Language.mem_kstar_of_mem hw) hrest

end Blanked

end CString
