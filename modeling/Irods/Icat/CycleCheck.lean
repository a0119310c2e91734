-- SUMMARY: findCycles ends.
import Irods.Icat.TableLinks
import Mathlib.Data.Finset.Card
import Mathlib.Data.Finset.Range

/-!
# The check for cycles ends

`tCycleChk` calls itself along the links. Every call but the last of a walk gives a new
table the number of the tree, so the calls are nested no deeper than there are tables not
of the tree yet, and one more. `findCycles` may be asked to start behind the last table,
which makes that the number of tables and two: the fuel that it is given.
-/

namespace GenQuery

open Function (update)
open List (mem_cons_of_mem mem_range range)

variable {S : Schema} {t : Nat} {flag : Nat → Int}

namespace Schema

/-- The links at a table lead to tables of the schema. -/
theorem linked_lt {link : Option Nat} {e : Nat × Nat}
    (he : e ∈ S.forward t link ++ S.backward t link) : e.2 < S.tables.length := by
  have hlt : ∀ i < S.links.length,
      (S.link i).table1 < S.tables.length ∧ (S.link i).table2 < S.tables.length := by
    intro i hi
    refine S.links_lt _ ?_
    simp [Schema.link, List.getD, List.getElem?_eq_getElem hi]
  simp only [forward, backward, List.mem_append, List.mem_map, List.mem_filter, mem_range] at he
  rcases he with ⟨i, ⟨hi, -⟩, rfl⟩ | ⟨i, ⟨hi, -⟩, rfl⟩
  · exact (hlt i hi).2
  · exact (hlt i hi).1

end Schema

/-- The tables that are not of the tree; one more than there are, since `findCycles` may
be asked to start behind the last. -/
def outside (S : Schema) (tree : Int) (flag : Nat → Int) : Finset Nat :=
  (Finset.range (S.tables.length + 1)).filter (fun t => flag t ≠ tree)

theorem outside_update {tree : Int} :
    outside S tree (update flag t tree) = (outside S tree flag).erase t := by
  ext x
  simp only [outside, Finset.mem_filter, Finset.mem_erase, Finset.mem_range]
  by_cases h : x = t
  · subst h
    simp
  · simp [h]

theorem chkLinks_total {tree : Int} {fuel : Nat}
    (hchk : ∀ t link flag, t ≤ S.tables.length → (outside S tree flag).card < fuel →
      ∃ b flag', chk t link flag = some (b, flag') ∧ outside S tree flag' ⊆ outside S tree flag) :
    ∀ (es : List (Nat × Nat)) (flag : Nat → Int), (∀ e ∈ es, e.2 ≤ S.tables.length) →
      (outside S tree flag).card < fuel →
      ∃ b flag', chkLinks chk es flag = some (b, flag') ∧
        outside S tree flag' ⊆ outside S tree flag := by
  intro es
  induction es with
  | nil => exact fun flag _ _ => ⟨false, flag, rfl, Finset.Subset.refl _⟩
  | cons e es ih =>
    obtain ⟨i, next⟩ := e
    intro flag hle hcard
    obtain ⟨b, flag₁, hnext, hsub⟩ := hchk next (some i) flag
      (hle (i, next) (by simp)) hcard
    cases b with
    | true => exact ⟨true, flag₁, by simp only [chkLinks, hnext], hsub⟩
    | false =>
      obtain ⟨b, flag', hrest, hsub'⟩ := ih flag₁ (fun e he => hle e (mem_cons_of_mem _ he))
        (Nat.lt_of_le_of_lt (Finset.card_le_card hsub) hcard)
      exact ⟨b, flag', by simp only [chkLinks, hnext, hrest], hsub'.trans hsub⟩

/-- Induction on the fuel; the tables not of the tree get fewer. -/
theorem tCycleChk_total {tree : Int} (htree : tree ≠ 0) : ∀ (fuel t : Nat) (link : Option Nat)
    (flag : Nat → Int), t ≤ S.tables.length → (outside S tree flag).card < fuel →
      ∃ b flag', tCycleChk S tree fuel t link flag = some (b, flag') ∧
        outside S tree flag' ⊆ outside S tree flag := by
  intro fuel
  induction fuel with
  | zero => exact nofun
  | succ fuel ih =>
    intro t link flag ht hcard
    by_cases hseen : flag t ≠ 0 ∧ flag t = tree
    · exact ⟨true, flag, by simp only [tCycleChk, if_pos hseen], Finset.Subset.refl _⟩
    · have hmem : t ∈ outside S tree flag := by
        have hfresh : flag t ≠ tree := fun heq => hseen ⟨heq ▸ htree, heq⟩
        simp [outside, hfresh]
        omega
      have hsub : outside S tree (update flag t tree) ⊆ outside S tree flag := by
        rw [outside_update]
        exact Finset.erase_subset _ _
      by_cases hcycler : (S.table t).cycler = 1
      · exact ⟨false, _, by simp only [tCycleChk, if_neg hseen, if_pos hcycler], hsub⟩
      · have hcard' : (outside S tree (update flag t tree)).card < fuel := by
          rw [outside_update]
          have := Finset.card_erase_lt_of_mem hmem
          omega
        obtain ⟨b, flag', hlinks, hsub'⟩ := chkLinks_total ih (S.forward t link ++ S.backward t link)
          (update flag t tree)
          (fun e he => Nat.le_of_lt (Schema.linked_lt he)) hcard'
        refine ⟨b, flag', ?_, hsub'.trans hsub⟩
        simp only [tCycleChk, if_neg hseen, if_neg hcycler, hlinks]

theorem tCycleChk_fuel (tree : Int) (htree : tree ≠ 0) (ht : t ≤ S.tables.length) (flag : Nat → Int) :
    ∃ b flag', tCycleChk S tree S.fuel t none flag = some (b, flag') := by
  have hcard : (outside S tree flag).card ≤ S.tables.length + 1 := by
    refine (Finset.card_filter_le _ _).trans ?_
    rw [Finset.card_range]
  obtain ⟨b, flag', h, -⟩ := tCycleChk_total htree S.fuel t none flag ht
    (by unfold Schema.fuel; omega)
  exact ⟨b, flag', h⟩

theorem findCyclesFrom_ends : ∀ (is : List Nat) (tree : Int) (flag : Nat → Int), 0 ≤ tree →
    (∀ i ∈ is, i ≤ S.tables.length) → (findCyclesFrom S is tree flag).isSome := by
  intro is
  induction is with
  | nil => exact fun _ _ _ _ => rfl
  | cons i is ih =>
    intro tree flag htree hle
    have hrest : ∀ j ∈ is, j ≤ S.tables.length := fun j hj => hle j (mem_cons_of_mem _ hj)
    obtain ⟨b, flag', hchk⟩ := tCycleChk_fuel (tree + 1) (by omega) (hle i (by simp)) flag
    simp only [findCyclesFrom, hchk]
    split
    · cases b with
      | true => rfl
      | false => exact ih _ _ (by omega) hrest
    · exact ih _ _ htree hrest

/-- The fuel is enough: `findCycles` always has a result. -/
theorem findCycles_ends (S : Schema) (startTable : Nat) : (findCycles S startTable).isSome := by
  have hall : ∀ i ∈ range S.tables.length, i ≤ S.tables.length :=
    fun i hi => Nat.le_of_lt (mem_range.mp hi)
  unfold findCycles
  split
  · split
    · rfl
    · rename_i hle
      obtain ⟨b, flag, hchk⟩ := tCycleChk_fuel (S := S) 1 (by omega)
        (Nat.not_lt.mp hle) (fun _ => 0)
      rw [hchk]
      cases b with
      | true => rfl
      | false => exact findCyclesFrom_ends _ _ _ (by omega) hall
  · exact findCyclesFrom_ends _ _ _ (by omega) hall

end GenQuery
