-- SUMMARY: Ciphers that go through a text symbol by symbol.
import Mathlib.Data.List.Nodup
import Mathlib.Data.List.GetD
import Mathlib.Data.Int.ModEq

/-!
# Stream ciphers

A stream cipher replaces each symbol of a text and moves its state on. A step may fail. If
the step of the decoder undoes the step of the encoder and leaves the same state, the two
keep in step over a whole text.

The usual step turns a wheel: a symbol on the wheel is replaced by the one that is some
places further, every other symbol stays.
-/

universe u v

variable {α : Type u} {σ : Type v}

namespace StreamCipher

/-- The text and the state after all steps. -/
def run (step : σ → α → Option (α × σ)) : σ → List α → Option (List α × σ)
  | s, [] => some ([], s)
  | s, c :: cs => do
    let (d, s) ← step s c
    let (ds, s) ← run step s cs
    return (d :: ds, s)

variable {step enc dec : σ → α → Option (α × σ)} {s s' : σ} {cs ds : List α}

theorem run_cons {c : α} :
    run step s (c :: cs) = some (ds, s') ↔
      ∃ d s₁ es, step s c = some (d, s₁) ∧ run step s₁ cs = some (es, s') ∧ ds = d :: es := by
  simp only [run, Option.bind_eq_bind, Option.bind_eq_some_iff, Option.pure_def, Option.some.injEq,
    Prod.mk.injEq, Prod.exists]
  constructor
  · rintro ⟨d, s₁, hstep, es, s₂, hrun, rfl, rfl⟩
    exact ⟨d, s₁, es, hstep, hrun, rfl⟩
  · rintro ⟨d, s₁, es, hstep, hrun, rfl⟩
    exact ⟨d, s₁, hstep, es, s', hrun, rfl, rfl⟩

/-- The run of steps that do not fail. -/
def scan (step : σ → α → α × σ) : σ → List α → List α × σ
  | s, [] => ([], s)
  | s, c :: cs => ((step s c).1 :: (scan step (step s c).2 cs).1, (scan step (step s c).2 cs).2)

theorem run_length (h : run step s cs = some (ds, s')) : ds.length = cs.length := by
  induction cs generalizing s ds with
  | nil =>
    cases h
    rfl
  | cons c cs ih =>
    obtain ⟨d, s₁, es, -, hrun, rfl⟩ := run_cons.1 h
    rw [List.length_cons, List.length_cons, ih hrun]

/-- A step that never fails gives a run that never fails. -/
theorem run_total (h : ∀ s c, ∃ d s', step s c = some (d, s')) (s : σ) (cs : List α) :
    ∃ ds s', run step s cs = some (ds, s') := by
  induction cs generalizing s with
  | nil => exact ⟨[], s, rfl⟩
  | cons c cs ih =>
    obtain ⟨d, s₁, hstep⟩ := h s c
    obtain ⟨ds, s', hrun⟩ := ih s₁
    exact ⟨d :: ds, s', run_cons.2 ⟨d, s₁, ds, hstep, hrun, rfl⟩⟩

/-- What holds of every symbol a step puts out holds of the whole text. -/
theorem run_forall {p : α → Prop} (hstep : ∀ s c d s', step s c = some (d, s') → p c → p d)
    (h : run step s cs = some (ds, s')) (hcs : ∀ c ∈ cs, p c) : ∀ d ∈ ds, p d := by
  induction cs generalizing s ds with
  | nil =>
    cases h
    exact nofun
  | cons c cs ih =>
    obtain ⟨d, s₁, es, hd, hrun, rfl⟩ := run_cons.1 h
    rw [List.forall_mem_cons] at hcs ⊢
    exact ⟨hstep _ _ _ _ hd hcs.1, ih hrun hcs.2⟩

/-- A decoder whose step undoes the encoder's undoes its run. -/
theorem run_dec_enc (hsync : ∀ s c d s', enc s c = some (d, s') → dec s d = some (c, s'))
    (h : run enc s cs = some (ds, s')) : run dec s ds = some (cs, s') := by
  induction cs generalizing s ds with
  | nil =>
    cases h
    rfl
  | cons c cs ih =>
    obtain ⟨d, s₁, es, hstep, hrun, rfl⟩ := run_cons.1 h
    exact run_cons.2 ⟨c, s₁, cs, hsync _ _ _ _ hstep, ih hrun, rfl⟩

theorem scan_length (step : σ → α → α × σ) (s : σ) (cs : List α) : (scan step s cs).1.length = cs.length := by
  induction cs generalizing s with
  | nil => rfl
  | cons c cs ih => rw [scan, List.length_cons, ih, List.length_cons]

theorem run_some (step : σ → α → α × σ) (s : σ) (cs : List α) :
    run (fun s c => some (step s c)) s cs = some (scan step s cs) := by
  induction cs generalizing s with
  | nil => rfl
  | cons c cs ih => exact run_cons.2 ⟨_, _, _, rfl, ih _, rfl⟩

theorem scan_dec_enc {enc dec : σ → α → α × σ} (hsync : ∀ s c, dec s (enc s c).1 = (c, (enc s c).2)) (s : σ)
    (cs : List α) : (scan dec s (scan enc s cs).1).1 = cs := by
  have hstep (s : σ) (c d : α) (s' : σ) (h : some (enc s c) = some (d, s')) : some (dec s d) = some (c, s') := by
    obtain ⟨rfl, rfl⟩ := Prod.mk.inj (Option.some.inj h)
    exact congrArg some (hsync s c)
  have hrun := run_dec_enc hstep (run_some enc s cs)
  rw [run_some] at hrun
  exact congrArg Prod.fst (Option.some.inj hrun)

end StreamCipher

namespace Wheel

variable [DecidableEq α]

/-- The symbol `k` places further. -/
def turn (wheel : List α) (k : Nat) (c : α) : α :=
  if c ∈ wheel then wheel.getD ((wheel.idxOf c + k) % wheel.length) c else c

/-- The symbol `k` places back: the length of the wheel is added until the place is on it. -/
def turnBack (wheel : List α) (k : Nat) (c : α) : α :=
  if c ∈ wheel then wheel.getD (((wheel.idxOf c : Int) - k) % wheel.length).toNat c else c

variable {wheel : List α} {k : Nat} {c : α}

theorem turn_eq (h : c ∈ wheel) :
    ∃ hlt : (wheel.idxOf c + k) % wheel.length < wheel.length,
      turn wheel k c = wheel[(wheel.idxOf c + k) % wheel.length] := by
  have hlt := Nat.mod_lt (wheel.idxOf c + k) (List.length_pos_of_mem h)
  refine ⟨hlt, ?_⟩
  rw [turn, if_pos h, List.getD_eq_getElem _ _ hlt]

theorem turn_of_not_mem (h : c ∉ wheel) : turn wheel k c = c := if_neg h

theorem turn_mem_iff : turn wheel k c ∈ wheel ↔ c ∈ wheel := by
  by_cases h : c ∈ wheel
  · obtain ⟨hlt, heq⟩ := turn_eq (k := k) h
    rw [heq]
    exact ⟨fun _ => h, fun _ => List.getElem_mem hlt⟩
  · rw [turn_of_not_mem h]

theorem turnBack_turn (hnodup : wheel.Nodup) : turnBack wheel k (turn wheel k c) = c := by
  by_cases h : c ∈ wheel
  · obtain ⟨hlt, heq⟩ := turn_eq (k := k) h
    have hidx : wheel.idxOf (turn wheel k c) = (wheel.idxOf c + k) % wheel.length := by
      rw [heq, List.Nodup.idxOf_getElem hnodup]
    have hc : wheel.idxOf c < wheel.length := List.idxOf_lt_length_iff.mpr h
    have hback : (((wheel.idxOf (turn wheel k c) : Int) - k) % wheel.length).toNat = wheel.idxOf c := by
      rw [hidx, Int.natCast_mod, Int.emod_sub_emod, Nat.cast_add, add_sub_cancel_right, ← Int.natCast_mod,
        Int.toNat_natCast, Nat.mod_eq_of_lt hc]
    rw [turnBack, if_pos (turn_mem_iff.2 h), hback, List.getD_eq_getElem _ _ hc, List.getElem_idxOf]
  · rw [turn_of_not_mem h, turnBack, if_neg h]

end Wheel
