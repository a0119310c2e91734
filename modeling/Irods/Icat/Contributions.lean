-- SUMMARY: No client text reaches the statement while the conditions have room.
import Irods.Icat.ConditionRoom

/-!
# What conditions contribute

The text that conditions add is made of the program's own words. A condition that is copied
past `conditionsForBind`, or past one of the other buffers, puts text of the client where
nothing is known of it, and the request may still be accepted.
-/

namespace GenQuery

open CString EStateM

namespace Query

variable (S : Schema) (session : Session) (inp : GenQueryInp) (q₀ : Query)

/-- No condition is copied past a buffer, and those of an accepted request add texts of the
program, names of the schema and operators to the WHERE part. The statement is put together
from there without them. -/
structure Contributes : Prop where
  within : ∀ q', requestColumns S session inp (start inp q₀) ≠ .error .overrun q'
  accepted : ∀ sql q', generateSQL S session inp q₀ = .ok sql q' →
    ∃ st₁ q₁ st₂ q₂ text, selectColumns S session 0 inp.selectInp (start inp q₀) = .ok st₁ q₁ ∧
      addConditions S session st₁ inp.sqlCondInp q₁ = .ok st₂ q₂ ∧
      q₁.cond.whereSQL = "where ".toList ∧
      q₂.cond.whereSQL = "where ".toList ++ text ∧ text ∈ SqlText S ∧
      q₂ = { q₁ with flag := q₂.flag, nToFind := q₂.nToFind, cond := q₂.cond } ∧
      afterConditions S session (withoutText inp) st₂ q₂ = .ok sql q'

/-- The request is refused with an error. -/
def Refused : Prop := ∃ code q', generateSQL S session inp q₀ = .error (.fail code) q'

variable {S session inp q₀}

theorem contributes_of_room (h : RoomFor S 0 inp.sqlCondInp) : Contributes S session inp q₀ :=
  ⟨fun _ => requestColumns_within h, fun _ _ hgen => conditions_contribute hgen⟩

/-- A request that is neither refused nor past a buffer at its conditions had room for them. -/
theorem room_of_within (hnot : ¬ Refused S session inp q₀)
    (h : ∀ q', requestColumns S session inp (start inp q₀) ≠ .error .overrun q') :
    RoomFor S 0 inp.sqlCondInp := by
  cases hrequest : requestColumns S session inp (start inp q₀) with
  | ok st q₁ => exact requestColumns_room hrequest
  | error e q₁ =>
    have hgen : generateSQL S session inp q₀ = .error e q₁ :=
      (modify_bind _ _ _).trans (bind_error.mpr (.inl hrequest))
    cases e with
    | fail code => exact absurd ⟨code, q₁, hgen⟩ hnot
    | overrun => exact absurd hrequest (h q₁)

/-- With room for its conditions a request adds no text of the client; one that is not refused
has room if it is so. -/
theorem conditions_contribute_iff (S : Schema) (session : Session) (inp : GenQueryInp)
    (q₀ : Query) :
    (RoomFor S 0 inp.sqlCondInp → Contributes S session inp q₀) ∧
    (¬ Refused S session inp q₀ →
      (Contributes S session inp q₀ ↔ RoomFor S 0 inp.sqlCondInp)) :=
  ⟨contributes_of_room, fun hnot => ⟨fun h => room_of_within hnot h.within, contributes_of_room⟩⟩

/-! ## A compound condition, and two long ones -/

/-- A condition of two comparisons, one with the name. -/
def orB (name : Text) : Int × Text := (1803, "= '".toList ++ (name ++ "' || = 'b'".toList))

def dvmConditions (conds : List (Int × Text)) : GenQueryInp :=
  { selectOnly [1803] with sqlCondInp := conds }

theorem conditions_contribute_or :
    Contributes dvmSchema admin (dvmConditions [orB "a".toList]) initial ∧
    isOk (generateSQL dvmSchema admin (dvmConditions [orB "a".toList]) initial) = true := by
  refine ⟨(conditions_contribute_iff dvmSchema admin _ initial).1 (.inr ⟨?_, ?_, .inr trivial⟩), ?_⟩
  · decide +kernel
  · decide +kernel
  · decide +kernel

def overruns {α : Type} (r : Result Stop Query α) : Bool :=
  match r with
  | .error .overrun _ => true
  | _ => false

theorem overruns_iff {α : Type} {r : Result Stop Query α} :
    overruns r = true ↔ ∃ q', r = .error .overrun q' := by
  cases r with
  | ok a q' => simp [overruns]
  | error e q' => cases e <;> simp [overruns]

/-- Each of two such conditions is accepted, and the second one is copied past the end. -/
theorem not_conditions_contribute :
    ¬ Contributes dvmSchema admin
      (dvmConditions [orB (List.replicate 1500 'x'), orB (List.replicate 1500 'x')]) initial ∧
    isOk (generateSQL dvmSchema admin (dvmConditions [orB (List.replicate 1500 'x')]) initial) =
      true := by
  refine ⟨fun h => ?_, by decide +kernel⟩
  have hover : overruns (requestColumns dvmSchema admin
      (dvmConditions [orB (List.replicate 1500 'x'), orB (List.replicate 1500 'x')])
      (start (dvmConditions [orB (List.replicate 1500 'x'), orB (List.replicate 1500 'x')])
        initial)) = true := by
    decide +kernel
  obtain ⟨q', hrun⟩ := overruns_iff.mp hover
  exact h.within q' hrun

end Query

end GenQuery
