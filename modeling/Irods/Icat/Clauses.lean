-- SUMMARY: What the loops over the parts of a clause respect.
import Irods.Base.EState
import Irods.Icat.GeneralQuery

/-!
# The parts of a clause

An `in`, a `between` and a `parent_of` are written part by part: a piece of text into
`whereSQL`, and the part into one of the static buffers. Whatever these two steps respect,
the whole clause does.
-/

namespace GenQuery

open CString EStateM

theorem rstrcat_fits {dest src : Text} {maxLen : Nat} (h : (dest ++ src).length < maxLen) :
    rstrcat dest src maxLen = dest ++ src := by
  rw [List.length_append] at h
  rw [rstrcat, if_neg (by omega)]

namespace Cond

/-- A relation between the states before and after the parts of a clause. -/
structure Respected (R : Cond → Cond → Prop) : Prop where
  refl : ∀ c, R c c
  trans : ∀ c₁ c₂ c₃, R c₁ c₂ → R c₂ c₃ → R c₁ c₃
  catWhere : ∀ src, OkRel R (catWhere src)
  copyBind : ∀ {b : Buffer}, b ≠ .bindVars → ∀ ix src ncopy, OkRel R (copyBind b ix src ncopy)

namespace Respected

variable {R : Cond → Cond → Prop} (hR : Respected R)

include hR

variable (inArg : Text)

theorem parentOfLoop : ∀ (s : Text) (i nput ix : Nat), OkRel R (parentOfLoop inArg s i nput ix) := by
  intro s
  induction s with
  | nil => exact fun _ _ _ => .pure hR.refl _
  | cons ch s ih =>
    intro i nput ix
    refine .ite ?_ (ih _ _ _)
    exact .bind hR.trans (hR.catWhere _) fun _ =>
      .bind hR.trans (hR.copyBind (by decide) _ _ _) fun _ => ih _ _ _

theorem quotedLoop {b : Buffer} (hb : b ≠ .bindVars) (next : Text) (saveIx : Nat → CondM Unit)
    (hsave : ∀ ix, OkRel R (saveIx ix)) (inArg : Text) :
    ∀ (s : Text) (i : Nat) (startIx : Option Nat) (nput ix : Nat),
      OkRel R (quotedLoop b next saveIx inArg s i startIx nput ix) := by
  intro s
  induction s with
  | nil => exact fun _ _ _ _ => .pure hR.refl _
  | cons ch s ih =>
    intro i startIx nput ix
    refine .ite ?_ (ih _ _ _ _)
    cases startIx with
    | none => exact ih _ _ _ _
    | some startIx =>
      exact .bind hR.trans (hR.catWhere _) fun _ =>
        .bind hR.trans (hR.copyBind hb _ _ _) fun _ =>
          .bind hR.trans (hsave _) fun _ => ih _ _ _ _

theorem inClauseForParentOf : OkRel R (addInClauseToWhereForParentOf inArg) := by
  exact .bind hR.trans (hR.catWhere _) fun _ =>
    .bind hR.trans (hR.parentOfLoop _ _ _ _ _) fun _ => hR.catWhere _

/-- The index into the strings of IN is kept, so it must not matter. -/
theorem inClauseForIn (hindex : ∀ c ix, R c { c with inStrIx := ix }) :
    OkRel R (addInClauseToWhereForIn inArg) := by
  refine .bind hR.trans (hR.catWhere _) fun _ => .bind hR.trans (.get hR.refl) fun _ => ?_
  refine .bind hR.trans (hR.quotedLoop (by decide) _ _ ?_ _ _ _ _ _ _) fun _ => ?_
  · exact fun _ => .modify fun _ => hindex _ _
  · exact .bind hR.trans (hR.catWhere _) fun _ => .ite (.throw _) (.pure hR.refl _)

theorem betweenClause : OkRel R (addBetweenClauseToWhere inArg) := by
  refine .bind hR.trans (hR.catWhere _) fun _ => ?_
  refine .bind hR.trans (hR.quotedLoop (by decide) _ _ ?_ _ _ _ _ _ _) fun _ => ?_
  · exact fun _ => .pure hR.refl _
  · exact .ite (.throw _) (.pure hR.refl _)

end Respected

end Cond

namespace Query

variable {α : Type} {m : CondM α} {q q' : Query}

theorem onCond_ok {a : α} : onCond m q = .ok a q' ↔ ∃ c, m q.cond = .ok a c ∧ q' = { q with cond := c } := by
  unfold onCond
  cases m q.cond with
  | ok b c =>
    simp only [Result.ok.injEq]
    constructor
    · rintro ⟨rfl, rfl⟩
      exact ⟨c, ⟨rfl, rfl⟩, rfl⟩
    · rintro ⟨c', ⟨rfl, rfl⟩, rfl⟩
      exact ⟨rfl, rfl⟩
  | error e c => simp

theorem checkAudit_ok {session : Session} {column : Int} {u : Unit}
    (h : checkAudit session column q = .ok u q') : q' = q := by
  unfold checkAudit at h
  split at h
  · exact absurd h not_throw_ok
  · exact (pure_ok.mp h).2.symm

end Query

end GenQuery
