-- SUMMARY: Comparisons with one quoted literal.
import Irods.Icat.BindCopies
import Irods.Icat.RuleQuery

/-!
# Comparisons

A comparison is an operator and a literal between quotes. The operator ends at the first
quote, and the literal at the last one.
-/

namespace GenQuery

open CString EStateM

namespace Cond

def compared (operator literal : Text) : Text := operator ++ '\'' :: (literal ++ ['\''])

variable {operator literal : Text}

@[simp] theorem length_compared : (compared operator literal).length = operator.length + literal.length + 2 := by
  simp [compared]
  omega

theorem compared_first (hop : '\'' ∉ operator) :
    (compared operator literal).findIdx? (· = '\'') = some operator.length := by
  have hfront : operator.findIdx? (· = '\'') = none := by
    rw [List.findIdx?_eq_none_iff]
    intro c hc
    rw [decide_eq_false_iff_not]
    rintro rfl
    exact hop hc
  rw [compared, List.findIdx?_append, hfront, List.findIdx?_cons]
  simp

theorem compared_quotes (hop : '\'' ∉ operator) : quotes (compared operator literal) =
    some (operator.length, operator.length + literal.length + 1) := by
  have hlast : (compared operator literal).reverse.findIdx? (· = '\'') = some 0 := by
    simp [compared, List.findIdx?_cons]
  simp only [quotes, compared_first hop, hlast, length_compared]
  rw [if_pos (by omega)]
  rfl

theorem take_compared : (compared operator literal).take operator.length = operator := by
  rw [compared, List.take_left]

theorem literal_compared :
    ((compared operator literal).take (operator.length + literal.length + 1)).drop (operator.length + 1) =
      literal := by
  have hparts : compared operator literal = (operator ++ ['\'']) ++ (literal ++ ['\'']) := by simp [compared]
  have hlen : operator.length + literal.length + 1 = (operator ++ ['\'']).length + literal.length := by
    simp
    omega
  have hfront : operator.length + 1 = (operator ++ ['\'']).length := by simp
  rw [hparts, hlen, hfront, List.take_length_add_append, List.take_left, List.drop_left]

variable {condition : Text} {first second : Nat} {c : Cond}

/-- A literal that fits into `bindVars` is copied, whether there is room for another bind
variable or not. -/
theorem bindLiteral_push (hliteral : (condition.take second).drop (first + 1) = literal)
    (hfits : c.bindIx + literal.length + 1 ≤ maxSQL + 100) :
    ∃ c', c'.cllBindVars = c.cllBindVars ∧ bindLiteral condition first second c = push (.bindVars, c.bindIx) c' := by
  have hlen : c.bindIx + (literal ++ ['\x00']).length ≤ Buffer.bindVars.size := by
    rw [List.length_append, List.length_singleton]
    exact hfits
  obtain ⟨c₁, hrun⟩ := pokes_run (b := .bindVars) hlen c
  subst hliteral
  refine ⟨{ c₁ with bindIx := c.bindIx + ((condition.take second).drop (first + 1)).length + 1 }, ?_, ?_⟩
  · rw [(pokes_ok hrun).1]
  · exact (get_bind _ _).trans ((bind_run hrun).trans (modify_bind _ _ _))

theorem bindLiteral_run (hliteral : (condition.take second).drop (first + 1) = literal)
    (hfits : c.bindIx + literal.length + 1 ≤ maxSQL + 100) (hroom : c.cllBindVars.length + 1 < maxBindVars) :
    ∃ c', bindLiteral condition first second c = .ok () c' := by
  obtain ⟨c₁, hbinds, hrun⟩ := bindLiteral_push hliteral hfits
  exact ⟨_, hrun.trans (push_run (by rw [hbinds]; exact hroom))⟩

theorem bindLiteral_full (hliteral : (condition.take second).drop (first + 1) = literal)
    (hfits : c.bindIx + literal.length + 1 ≤ maxSQL + 100) (hfull : maxBindVars ≤ c.cllBindVars.length + 1) :
    ∃ c', bindLiteral condition first second c = .error (.fail CAT_BIND_VARIABLE_LIMIT_EXCEEDED) c' := by
  obtain ⟨c₁, hbinds, hrun⟩ := bindLiteral_push hliteral hfits
  exact ⟨_, hrun.trans (push_full (by rw [hbinds]; exact hfull))⟩

/-- `insertWhere` on a comparison whose operator is short enough for `tmpStr`. -/
theorem insertWhere_compared_eq (hcomp : IsComparison (compared operator literal)) (hop : '\'' ∉ operator)
    (hne : operator ≠ []) (hlen : operator.length ≤ 10) (c : Cond) : insertWhere (compared operator literal) c =
      if literal.length + 1 + (c.bindIx + 1) > maxSQL + 90 then
        .error (.fail CAT_INVALID_ARGUMENT) { c with bindIx := c.bindIx + 1 }
      else (bindLiteral (compared operator literal) operator.length (operator.length + literal.length + 1) >>=
        fun _ => addComparison (' ' :: operator) literal) { c with bindIx := c.bindIx + 1 } := by
  obtain ⟨hin, hbetween, hnull, hnotNull⟩ := hcomp
  have hpos : operator.length ≠ 0 := fun h => hne (List.length_eq_zero_iff.mp h)
  have hsub : operator.length + literal.length + 1 - operator.length = literal.length + 1 := by omega
  unfold insertWhere
  simp only [hin, hbetween, hnull, hnotNull, Bool.false_eq_true, if_false, false_or, compared_quotes hop,
    literal_compared, take_compared, hsub, if_neg hpos, if_neg (Nat.not_lt.mpr hlen)]
  rw [modify_bind, get_bind]
  split <;> rfl

end Cond

end GenQuery
