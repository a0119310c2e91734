-- SUMMARY: Backtracking is exact within the length of the queue.
import Irods.Frontend.ParserMacros

/-!
# Backtracking

A record of a run is exact when every token is the one last seen at its position: alternatives start
with the token the failed one started with, and a token that is kept stays what it was. Every run is
exact in which no token leaves its slot and, whenever an alternative is tried after a failed one, the
token it starts with has not been overtaken by a whole queue, and neither has a kept token when it is
looked at. The one thing asked of a parser function is that an alternative others come behind never
gives up its first token.
-/

namespace RuleParser

open Lexer (NodeType)
open List (suffix_cons suffix_refl)

/-! ## Exact records -/

/-- The token last seen at a position, unless it was given up. -/
def expected : List Event → Nat → Option Token
  | [], _ => none
  | .shows j token :: trace, i => if i = j then some token else expected trace i
  | .used _ _ _ :: trace, i => expected trace i
  | .retried _ _ _ _ :: trace, i => expected trace i
  | .dropped j :: trace, i => if j ≤ i then none else expected trace i
  | .overran _ :: trace, i => expected trace i

/-- Each event is as expected. -/
def Exact : List Event → Prop
  | [] => True
  | .shows i token :: trace => Exact trace ∧ ∀ t, expected trace i = some t → token = t
  | .used i _ token :: trace => Exact trace ∧ ∀ t, expected trace i = some t → token = t
  | .retried i _ _ started :: trace => Exact trace ∧ ∀ t, started = some t → expected trace i = some t
  | .dropped _ :: trace => Exact trace
  | .overran _ :: trace => Exact trace

/-- Tokens stay in their slots, and the queue has not gone round since the token the event goes back to. -/
def Near : Event → Prop
  | .shows _ _ => True
  | .used _ passed _ => passed ≤ slots
  | .retried _ queued passed _ => queued < slots ∧ passed ≤ slots
  | .dropped _ => True
  | .overran _ => False

instance : DecidablePred Near
  | .shows _ _ => isTrue trivial
  | .used _ passed _ => inferInstanceAs (Decidable (passed ≤ slots))
  | .retried _ queued passed _ => inferInstanceAs (Decidable (queued < slots ∧ passed ≤ slots))
  | .dropped _ => isTrue trivial
  | .overran _ => isFalse id

/-- The token a stretch of a record starts with at a position is still expected there, unless it was given up. -/
theorem expected_of_started {new old : List Event} {i : Nat} {t : Token} (hexact : Exact (new ++ old))
    (habove : ∀ j, .dropped j ∈ new → i < j) (hstarted : State.startedWith old i (new ++ old) = some t) :
    expected (new ++ old) i = some t := by
  rw [State.startedWith, List.length_append, Nat.add_sub_cancel, List.take_left] at hstarted
  induction new with
  | nil => cases hstarted
  | cons e new ih =>
    have habove' : ∀ j, .dropped j ∈ new → i < j := fun j hj => habove j (List.mem_cons_of_mem _ hj)
    rw [List.reverse_cons, List.findSome?_append, Option.or_eq_some_iff] at hstarted
    rcases hstarted with hstarted | ⟨-, hlast⟩
    · cases e with
      | shows j token =>
        have hbefore := ih hexact.1 habove' hstarted
        rw [List.cons_append, expected]
        split
        · rename_i hij
          rw [hexact.2 t (hij ▸ hbefore)]
        · exact hbefore
      | used _ _ _ => exact ih hexact.1 habove' hstarted
      | retried _ _ _ _ => exact ih hexact.1 habove' hstarted
      | dropped j =>
        have hlt := habove j List.mem_cons_self
        rw [List.cons_append, expected, if_neg (Nat.not_le_of_lt hlt)]
        exact ih hexact habove' hstarted
      | overran _ => exact ih hexact habove' hstarted
    · cases e with
      | shows j token =>
        simp only [List.findSome?_cons, List.findSome?_nil] at hlast
        rw [List.cons_append, expected]
        split
        · rename_i hij
          rw [if_pos hij] at hlast
          exact hlast
        · rename_i hij
          rw [if_neg hij] at hlast
          cases hlast
      | used _ _ _ => cases hlast
      | retried _ _ _ _ => cases hlast
      | dropped _ => cases hlast
      | overran _ => cases hlast

/-! ## Alternatives that keep their first token -/

variable {β : Type}

/-- Tokens are given up only behind the first one of the part of a run that is looked at. -/
def Command.Keeps (moved : Bool) : Command β → Prop
  | .sync => moved = true
  | _ => True

/-- Has the run gone past that token? -/
def Command.moves : Command β → Bool → β → Bool
  | .nextToken _ back, moved, t => if back t.2 then moved else true
  | _, moved, _ => moved

/-- No token is given up at the start, nor at the start of an alternative that others come behind. -/
def Parser.Keeps {α : Type} : Bool → Parser α → Prop
  | _, .done _ => True
  | _, .fail _ => True
  | _, .leave _ => True
  | _, .stuck => True
  | moved, .exec cmd k => cmd.Keeps moved ∧ ∀ b, (k b).Keeps (cmd.moves moved b)
  | moved, .choice branches k => branches.Keeps moved ∧ ∀ n, (k n).Keeps moved
  | moved, .orElse branch others k => branch.Keeps false ∧ others.Keeps moved ∧ ∀ n, (k n).Keeps moved
  | moved, .block body k exit => body.Keeps moved ∧ (∀ n, (k n).Keeps moved) ∧ ∀ n, (exit n).Keeps moved

/-! ## Runs -/

/-- The queue is part of a sequence of tokens in which every expected token has its place. -/
def State.Kept (s : State) : Prop :=
  ∃ log, Holds s.queue log s.position ∧ ∀ i t, expected s.trace i = some t → i < s.position.lexed ∧ log i = t

/-- What a part of a run leaves behind, when it gives up no token in front of `b`. -/
structure Ran (b : Nat) (s s' : State) : Prop where
  read_le : s.position.read ≤ s'.position.read
  above : ∃ new, s'.trace = new ++ s.trace ∧ ∀ j, .dropped j ∈ new → b ≤ j
  kept : s'.Kept
  exact : Exact s'.trace

variable {b : Nat} {s s' s'' : State}

theorem Ran.refl (hkept : s.Kept) (hexact : Exact s.trace) : Ran b s s := ⟨le_rfl, ⟨[], rfl, nofun⟩, hkept, hexact⟩

theorem Ran.trans (h : Ran b s s') (h' : Ran b s' s'') : Ran b s s'' where
  read_le := h.read_le.trans h'.read_le
  above := by
    obtain ⟨new, htrace, habove⟩ := h.above
    obtain ⟨new', htrace', habove'⟩ := h'.above
    refine ⟨new' ++ new, by rw [htrace', htrace, List.append_assoc], fun j hj => ?_⟩
    rcases List.mem_append.mp hj with hj | hj
    · exact habove' j hj
    · exact habove j hj
  kept := h'.kept
  exact := h'.exact

theorem Ran.mono {b' : Nat} (h : Ran b s s') (hle : b' ≤ b) : Ran b' s s' :=
  { h with
    above := by
      obtain ⟨new, htrace, habove⟩ := h.above
      exact ⟨new, htrace, fun j hj => hle.trans (habove j hj)⟩ }

/-- Only the context and the source are changed. -/
theorem Ran.frame (h : Ran b s s') (hqueue : s''.queue = s'.queue) (hposition : s''.position = s'.position)
    (htrace : s''.trace = s'.trace) : Ran b s s'' where
  read_le := hposition ▸ h.read_le
  above := htrace ▸ h.above
  kept := by
    obtain ⟨log, hholds, hexpected⟩ := h.kept
    exact ⟨log, hqueue ▸ hposition ▸ hholds, by rw [htrace, hposition]; exact hexpected⟩
  exact := htrace ▸ h.exact

/-! ## Records grow -/

variable {cmd : Command β} {x : β}

theorem Command.exec_grows (h : cmd.exec s = some (x, s')) : s.trace <:+ s'.trace := by
  cases cmd with
  | nextToken rulegen back =>
    obtain ⟨called, -, heq⟩ := Option.map_eq_some_iff.mp h
    cases heq
    exact suffix_cons _ _
  | look i =>
    cases h
    exact suffix_cons _ _
  | sync =>
    cases h
    exact suffix_cons _ _
  | FPOS =>
    cases h
    exact suffix_refl _
  | skipWhitespace =>
    cases h
    exact suffix_refl _
  | nextActionArgument =>
    obtain ⟨argument, -, heq⟩ := Option.map_eq_some_iff.mp h
    cases heq
    exact suffix_refl _
  | source =>
    cases h
    exact suffix_refl _
  | assign depth n =>
    cases h
    exact suffix_refl _
  | read depth =>
    cases h
    exact suffix_refl _
  | build f =>
    obtain ⟨context, -, heq⟩ := Option.map_eq_some_iff.mp h
    cases heq
    exact suffix_refl _
  | POP =>
    obtain ⟨⟨n, context⟩, -, heq⟩ := Option.map_eq_some_iff.mp h
    cases heq
    exact suffix_refl _

theorem Command.undefined_grows (cmd : Command β) (s : State) : s.trace <:+ (cmd.undefined s).trace := by
  cases cmd with
  | nextToken rulegen back => exact suffix_cons _ _
  | nextActionArgument => exact suffix_cons _ _
  | _ => exact suffix_refl _

theorem State.failAt_trace (loc : Option Nat) (s : State) : (s.failAt loc).trace = s.trace := by
  cases loc <;> rfl

variable {α : Type}

variable {ended : Outcome Nat × State} {k : Nat → State → Outcome α × State}

/-- What goes on after a part of a run only adds to the record. -/
theorem Outcome.andThen_grows (hk : ∀ n s, s.trace <:+ (k n s).2.trace) :
    ended.2.trace <:+ (Outcome.andThen ended k).2.trace := by
  obtain ⟨outcome, s⟩ := ended
  cases outcome with
  | done n => exact hk n s
  | fail => exact suffix_refl _
  | leave n => exact suffix_refl _
  | stuck => exact suffix_refl _

/-- A run only adds to the trace. -/
theorem run_grows (p : Parser α) : ∀ s : State, s.trace <:+ (run p s).2.trace := by
  induction p with
  | done a => exact fun s => suffix_refl _
  | fail loc => exact fun s => by rw [run, State.failAt_trace]
  | leave n => exact fun s => suffix_refl _
  | stuck => exact fun s => suffix_refl _
  | exec cmd k ih =>
    intro s
    rw [run]
    cases hexec : cmd.exec s with
    | none => exact cmd.undefined_grows s
    | some result =>
      obtain ⟨x, s'⟩ := result
      exact (Command.exec_grows hexec).trans (ih x s')
  | choice branches k ihbranches ih =>
    intro s
    rw [run]
    cases s.context.choiceBegin with
    | none => exact suffix_refl _
    | some context =>
      have hbranches := ihbranches { s with context }
      dsimp only
      split
      · rename_i s' hrun
        rw [hrun] at hbranches
        exact hbranches
      · exact hbranches.trans (Outcome.andThen_grows fun n s' => ih n s'.choiceEnd)
  | orElse branch others k ihbranch ihothers ih =>
    intro s
    have hbranch := ihbranch s
    rw [run]
    split
    · rename_i s' hrun
      rw [hrun] at hbranch
      have hretry : s'.trace <:+ (s.retry s').trace := suffix_cons _ _
      have hothers := ihothers (s.retry s')
      exact ((hbranch.trans hretry).trans hothers).trans (Outcome.andThen_grows fun n s'' => ih n s'')
    · exact hbranch.trans (Outcome.andThen_grows fun n s' => ih n s')
  | block body k exit ihbody ih ihexit =>
    intro s
    have hbody := ihbody s
    rw [run]
    split
    · rename_i n s' hrun
      rw [hrun] at hbody
      exact hbody.trans (ihexit n s')
    · exact hbody.trans (Outcome.andThen_grows fun n s' => ih n s')

/-! ## Runs are exact -/

theorem Command.exec_ran {moved : Bool} (h : cmd.exec s = some (x, s')) (hkeeps : cmd.Keeps moved)
    (hb : b ≤ s.position.read + 1) (hmoved : moved = true → b ≤ s.position.read) (hkept : s.Kept)
    (hexact : Exact s.trace) (hnear : ∀ e ∈ s'.trace, Near e) :
    Ran b s s' ∧ (cmd.moves moved x = true → b ≤ s'.position.read) := by
  have hsame := Ran.refl (b := b) hkept hexact
  obtain ⟨log, hholds, hexpected⟩ := hkept
  cases cmd with
  | nextToken rulegen back =>
    simp only [Command.exec] at h
    obtain ⟨⟨slot, e, queue⟩, hcall, h⟩ := Option.map_eq_some_iff.mp h
    obtain ⟨log', hnext, hlog, hread', hread, htoken⟩ := hholds.next hcall
    obtain ⟨hnextread, hle, hnextlexed, hnextpeak⟩ := hholds.next_near
    rw [← hread] at htoken
    dsimp only at h
    generalize s.position.next (decide (s.queue.tqp = s.queue.tqtop)) = position at *
    generalize queue.tokenQueue slot = token at h htoken
    have hlt : s.position.read < position.read := by omega
    have hat (i : Nat) (t : Token) (ht : expected (.shows s.position.read token :: s.trace) i = some t) :
        i < position.lexed ∧ log' i = t := by
      rw [expected] at ht
      split at ht
      · rename_i hi
        cases ht
        exact hi ▸ ⟨hread', htoken.symm⟩
      · obtain ⟨hi, rfl⟩ := hexpected i t ht
        exact ⟨hi.trans_le hle, hlog i hi⟩
    have hseen (t : Token) (ht : expected s.trace s.position.read = some t) : token = t := by
      obtain ⟨hi, rfl⟩ := hexpected _ t ht
      rw [htoken, hlog _ hi]
    by_cases hback : back token = true
    · have hholds' := hnext.back token (by omega) (by omega) (by omega)
      have hlexed : (position.back token).lexed = position.lexed := by
        rw [Position.back]
        split <;> rfl
      have hle : s.position.read ≤ (position.back token).read := by
        rw [Position.back]
        split
        · exact hlt.le
        · exact Nat.le_sub_one_of_lt hlt
      simp only [hback, if_true, Prod.mk.injEq] at h
      obtain ⟨rfl, rfl⟩ := h
      refine ⟨⟨hle, ⟨[_], rfl, by simp⟩, ⟨log', hholds', fun i t ht => hlexed ▸ hat i t ht⟩, hexact, hseen⟩,
        fun hmove => ?_⟩
      rw [Command.moves, if_pos hback] at hmove
      exact Nat.le_trans (hmoved hmove) hle
    · simp only [hback, if_false, Prod.mk.injEq, Bool.false_eq_true] at h
      obtain ⟨rfl, rfl⟩ := h
      exact ⟨⟨hlt.le, ⟨[_], rfl, by simp⟩, ⟨log', hnext, hat⟩, hexact, hseen⟩,
        fun _ => hb.trans hlt⟩
  | look i =>
    cases h
    have hnear : s.position.peak - i ≤ slots := hnear _ List.mem_cons_self
    refine ⟨⟨le_rfl, ⟨[_], rfl, by simp⟩, ⟨log, hholds, hexpected⟩, hexact, fun t ht => ?_⟩, hmoved⟩
    obtain ⟨hlt, rfl⟩ := hexpected i t ht
    exact hholds.slot hlt (by omega)
  | sync =>
    cases h
    refine ⟨⟨le_rfl, ⟨[_], rfl, fun j hj => ?_⟩, ⟨log, hholds.sync s.e, fun i t ht => ?_⟩, hexact⟩, hmoved⟩
    · cases hj with
      | head => exact hmoved hkeeps
      | tail _ hj => cases hj
    · rw [expected] at ht
      split at ht
      · cases ht
      · rename_i hlt
        exact ⟨Nat.lt_of_not_le hlt, (hexpected i t ht).2⟩
  | FPOS =>
    cases h
    exact ⟨hsame, hmoved⟩
  | skipWhitespace =>
    cases h
    exact ⟨hsame.frame rfl rfl rfl, hmoved⟩
  | nextActionArgument =>
    obtain ⟨argument, -, heq⟩ := Option.map_eq_some_iff.mp h
    cases heq
    exact ⟨hsame.frame rfl rfl rfl, hmoved⟩
  | source =>
    cases h
    exact ⟨hsame, hmoved⟩
  | assign depth n =>
    cases h
    exact ⟨hsame.frame rfl rfl rfl, hmoved⟩
  | read depth =>
    cases h
    exact ⟨hsame, hmoved⟩
  | build f =>
    obtain ⟨context, -, heq⟩ := Option.map_eq_some_iff.mp h
    cases heq
    exact ⟨hsame.frame rfl rfl rfl, hmoved⟩
  | POP =>
    obtain ⟨⟨n, context⟩, -, heq⟩ := Option.map_eq_some_iff.mp h
    cases heq
    exact ⟨hsame.frame rfl rfl rfl, hmoved⟩

/-- Where every token stays in its slot, a command the run stops at leaves nothing behind. -/
theorem Command.undefined_ran (cmd : Command β) (hkept : s.Kept) (hexact : Exact s.trace)
    (hnear : ∀ e ∈ (cmd.undefined s).trace, Near e) : Ran b s (cmd.undefined s) := by
  cases cmd with
  | nextToken rulegen back => exact (hnear (.overran s.position.read) List.mem_cons_self).elim
  | nextActionArgument => exact (hnear (.overran s.position.read) List.mem_cons_self).elim
  | _ => exact .refl hkept hexact

theorem Outcome.andThen_ran (hgrows : ∀ n s, s.trace <:+ (k n s).2.trace)
    (hended : (∀ e ∈ ended.2.trace, Near e) → Ran b s ended.2)
    (hk : ∀ n, Ran b s ended.2 → (∀ e ∈ (k n ended.2).2.trace, Near e) → Ran b s (k n ended.2).2)
    (hnear : ∀ e ∈ (Outcome.andThen ended k).2.trace, Near e) : Ran b s (Outcome.andThen ended k).2 := by
  have hran := hended fun e he => hnear e ((Outcome.andThen_grows hgrows).subset he)
  obtain ⟨outcome, s'⟩ := ended
  cases outcome with
  | done n => exact hk n hran hnear
  | fail => exact hran
  | leave n => exact hran
  | stuck => exact hran

/-- The alternative after a failed one begins with a token that is still in the queue. -/
theorem Ran.retry (hkept : s.Kept) (h : Ran (s.position.read + 1) s s') (hnear : ∀ e ∈ (s.retry s').trace, Near e) :
    Ran (s.position.read + 1) s (s.retry s') where
  read_le := le_rfl
  above := by
    obtain ⟨new, htrace, habove⟩ := h.above
    refine ⟨_ :: new, congrArg _ htrace, fun j hj => ?_⟩
    cases hj with
    | tail _ hj => exact habove j hj
  kept := by
    obtain ⟨log, hholds, -⟩ := hkept
    obtain ⟨log', hholds', hexpected⟩ := h.kept
    obtain ⟨hqueued, hpassed⟩ : s'.position.lexed - s.position.read < slots ∧
      s'.position.peak - s.position.read ≤ slots := hnear _ List.mem_cons_self
    have hle := h.read_le.trans hholds'.read_le
    have hreset := hholds'.reset hle (by omega) (by omega)
    rw [← hholds.tqp] at hreset
    exact ⟨log', hreset, hexpected⟩
  exact := by
    obtain ⟨new, htrace, habove⟩ := h.above
    have hexact := h.exact
    refine ⟨hexact, fun t ht => ?_⟩
    rw [htrace] at hexact ht ⊢
    exact expected_of_started hexact habove ht

/-- Every run in which the queue has not gone round when it goes back is exact. -/
theorem run_ran (p : Parser α) : ∀ {moved : Bool} {b : Nat} {s : State}, p.Keeps moved →
    b ≤ s.position.read + 1 → (moved = true → b ≤ s.position.read) → s.Kept → Exact s.trace →
      (∀ e ∈ (run p s).2.trace, Near e) → Ran b s (run p s).2 := by
  induction p with
  | done a => exact fun _ _ _ hkept hexact _ => .refl hkept hexact
  | leave n => exact fun _ _ _ hkept hexact _ => .refl hkept hexact
  | stuck => exact fun _ _ _ hkept hexact _ => .refl hkept hexact
  | fail loc =>
    intro _ b s _ _ _ hkept hexact _
    cases loc with
    | none => exact .refl hkept hexact
    | some loc => exact (Ran.refl hkept hexact).frame rfl rfl rfl
  | exec cmd k ih =>
    intro moved b s hkeeps hb hmoved hkept hexact hnear
    rw [run] at hnear ⊢
    cases hexec : cmd.exec s with
    | none =>
      rw [hexec] at hnear
      exact cmd.undefined_ran hkept hexact hnear
    | some result =>
      obtain ⟨x, s'⟩ := result
      rw [hexec] at hnear
      have hgrows := run_grows (k x) s'
      obtain ⟨hran, hmoved'⟩ := Command.exec_ran hexec hkeeps.1 hb hmoved hkept hexact
        fun e he => hnear e (hgrows.subset he)
      exact hran.trans (ih x (hkeeps.2 x) (hb.trans (Nat.succ_le_succ hran.read_le)) hmoved' hran.kept hran.exact hnear)
  | choice branches k ihbranches ih =>
    intro moved b s hkeeps hb hmoved hkept hexact hnear
    rw [run] at hnear ⊢
    cases hbegin : s.context.choiceBegin with
    | none => exact .refl hkept hexact
    | some context =>
      rw [hbegin] at hnear
      have hbranches (hnear : ∀ e ∈ (run branches { s with context }).2.trace, Near e) :
          Ran b s (run branches { s with context }).2 := by
        have hran := ihbranches (s := { s with context }) hkeeps.1 hb hmoved hkept hexact hnear
        exact ⟨hran.read_le, hran.above, hran.kept, hran.exact⟩
      dsimp only at hnear ⊢
      generalize run branches { s with context } = ended at hnear hbranches ⊢
      split at hnear
      · exact (hbranches hnear).frame rfl rfl rfl
      · refine Outcome.andThen_ran (fun n s' => run_grows (k n) s'.choiceEnd) hbranches (fun n hran hnear => ?_) hnear
        have hend : Ran b s ended.2.choiceEnd := hran.frame rfl rfl rfl
        exact hend.trans (ih n (hkeeps.2 n) (hb.trans (Nat.succ_le_succ hend.read_le))
          (fun h => Nat.le_trans (hmoved h) hend.read_le) hend.kept hend.exact hnear)
  | orElse branch others k ihbranch ihothers ih =>
    intro moved b s hkeeps hb hmoved hkept hexact hnear
    rw [run] at hnear ⊢
    have hbranch := ihbranch (s := s) hkeeps.1 le_rfl nofun hkept hexact
    have hgoes (s' : State) (n : Nat) (hran : Ran b s s') (hnear : ∀ e ∈ (run (k n) s').2.trace, Near e) :
        Ran b s (run (k n) s').2 :=
      hran.trans (ih n (hkeeps.2.2 n) (hb.trans (Nat.succ_le_succ hran.read_le))
        (fun h => Nat.le_trans (hmoved h) hran.read_le) hran.kept hran.exact hnear)
    generalize run branch s = ended at hnear hbranch ⊢
    split at hnear
    · rename_i s'
      have hothers (hnear : ∀ e ∈ (run others (s.retry s')).2.trace, Near e) :
          Ran b s (run others (s.retry s')).2 := by
        have hgrows := run_grows others (s.retry s')
        have hretry := (hbranch fun e he => hnear e (hgrows.subset (List.mem_cons_of_mem _ he))).retry hkept
          fun e he => hnear e (hgrows.subset he)
        have hran := ihothers (s := s.retry s') hkeeps.2.1 hb hmoved hretry.kept hretry.exact hnear
        exact (hretry.mono hb).trans hran
      exact Outcome.andThen_ran (fun n s' => run_grows (k n) s') hothers (fun n => hgoes _ n) hnear
    · exact Outcome.andThen_ran (fun n s' => run_grows (k n) s') (fun h => (hbranch h).mono hb) (fun n => hgoes _ n)
        hnear
  | block body k exit ihbody ih ihexit =>
    intro moved b s hkeeps hb hmoved hkept hexact hnear
    rw [run] at hnear ⊢
    have hbody := ihbody (s := s) hkeeps.1 hb hmoved hkept hexact
    generalize run body s = ended at hnear hbody ⊢
    split at hnear
    · rename_i n s'
      have hran := hbody fun e he => hnear e ((run_grows (exit n) s').subset he)
      exact hran.trans (ihexit n (hkeeps.2.2 n) (hb.trans (Nat.succ_le_succ hran.read_le))
        (fun h => Nat.le_trans (hmoved h) hran.read_le) hran.kept hran.exact hnear)
    · refine Outcome.andThen_ran (fun n s' => run_grows (k n) s') hbody (fun n hran hnear => ?_) hnear
      exact hran.trans (ih n (hkeeps.2.1 n) (hb.trans (Nat.succ_le_succ hran.read_le))
        (fun h => Nat.le_trans (hmoved h) hran.read_le) hran.kept hran.exact hnear)

end RuleParser
