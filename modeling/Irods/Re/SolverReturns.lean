-- SUMMARY: When the solver returns.
import Irods.Re.SolverSplits
import Irods.Re.TypingSolve

/-!
# When the solver returns

A comparison goes down in the number of open variables, and among comparisons that bind nothing in the
height of the types. Only splitting a variable against a type that leads back to it does not.
-/

namespace Solving

open Typing (ExprType BaseType Solver Satisfiability Simplifier TypingConstraint dereference simplifyL simplifyR
  splitArgs splitVar simplifyLocally simplifyPass simplifyLoop simplify collapse solveLoop solveConstraints noTypes)
open Unification (look AcyclicTable)

variable {P Q : Nat → Prop} {L L' : Finset Nat} {s s' : Solver} {t u a b x y : ExprType} {k n fuel fuel' : Nat}
  {form : Form} {args as bs : List ExprType} {left : Bool}

/-! ## One comparison -/

/-- The comparison comes to a variable that is split against a type that leads to it. -/
inductive Circular : Solver → ExprType → ExprType → Prop
  | split {s : Solver} {a b : ExprType} {i : Nat} {is : List BaseType} {form : Form}
    {args : List ExprType} (left : Bool) :
    dereference s.typingEnv (if left then a else b) = some (.tvar i is) →
    dereference s.typingEnv (if left then b else a) = some (form.type args) →
    LeadsTo s.typingEnv (form.type args) i → Circular s a b
  | args {s s' : Solver} {a b x y : ExprType} {form : Form} {as bs : List ExprType}
    {front back : List (ExprType × ExprType)}
      {fuel : Nat} :
    dereference s.typingEnv a = some (form.type as) → dereference s.typingEnv b = some (form.type bs) →
    as.length = bs.length → as.zip bs = front ++ (x, y) :: back →
    splitArgs (simplifyLocally fuel) false front s .tautology = some (.tautology, s') → Circular s' x y → Circular s a b

/-- What one comparison comes to. -/
inductive Compared (L : Finset Nat) (s : Solver) (a b : ExprType) : Prop
  | decided {r : Option (Satisfiability × Solver)} : (∀ fuel, simplifyLocally (fuel + 1) s a b false = r) →
    Returns (Advanced L s) r → Compared L s a b
  | split (left : Bool) {i : Nat} {is : List BaseType} {form : Form} {args : List ExprType} : Root L s (.tvar i is) →
    Plain (· ∈ L) (form.type args) → (∀ fuel, simplifyLocally (fuel + 1) s a b false =
      splitVar (simplifyLocally fuel) s i is (form.type args) false left) →
    (LeadsTo s.typingEnv (form.type args) i → Circular s a b) → Compared L s a b
  | args {form : Form} {as bs : List ExprType} : as.length = bs.length →
    StandsFor s.typingEnv a (form.type as) → StandsFor s.typingEnv b (form.type bs) →
    dereference s.typingEnv a = some (form.type as) → dereference s.typingEnv b = some (form.type bs) →
    (∀ fuel, simplifyLocally (fuel + 1) s a b false =
      splitArgs (simplifyLocally fuel) false (as.zip bs) s .tautology) → Compared L s a b

/-- A constructed type and a base type have nothing in common. -/
theorem simplifyLocally_base_type (ht : Plain P t) (hu : Plain Q u) {c : BaseType}
    (htc : dereference s.typingEnv t = some (.base c)) (huf : dereference s.typingEnv u = some (form.type args)) :
    onSides (simplifyLocally (fuel + 1)) left s t u = some (.absurdity, s) := by
  cases left <;> cases form <;>
    simp only [Form.type, onSides, simplifyLocally, stripFlex_plain ht, stripFlex_plain hu, htc, huf] <;> rfl

theorem compared (hs : Tracked L s) (ha : Plain (· ∈ L) a) (hb : Plain (· ∈ L) b) : Compared L s a b := by
  obtain ⟨a', hda, hfa⟩ := exists_standsFor hs.acyclic a
  obtain ⟨b', hdb, hfb⟩ := exists_standsFor hs.acyclic b
  have hclosed : Closed (· ∈ L) s.typingEnv := fun id t _ hlook => hs.values id t hlook
  have hpa := hfa.plain hclosed ha
  have hpb := hfb.plain hclosed hb
  have habsurd : Returns (Advanced L s) (some (.absurdity, s)) := ⟨.absurdity, s, rfl, .inl rfl⟩
  have hsettled {B : Nat → Prop} {r : Option (Satisfiability × Solver)} (h : Returns (Settled B L s) r) :
      Returns (Advanced L s) r := h.imp fun _ _ h => h.advanced
  cases hpa.kinds with
  | @base c hc =>
    cases hpb.kinds with
    | @base d hd =>
      refine .decided (fun fuel => simplifyLocally_bases hb hda hdb rfl rfl) ?_
      split
      · exact ⟨.tautology, s, rfl, .inr ⟨rfl, L, .refl hs, .inl ⟨rfl, le_rfl⟩⟩⟩
      · exact habsurd
    | @var j js =>
      have hrun (fuel : Nat) : onSides (simplifyLocally (fuel + 1)) false s b a = simplifyR s c j js false :=
        simplifyLocally_var_base hb ha hdb hda
      exact .decided hrun (hsettled (simplifyR_spec hs (hfb.root hs hb) hc))
    | type =>
      have hrun (fuel : Nat) : onSides (simplifyLocally (fuel + 1)) true s a b = some (.absurdity, s) :=
        simplifyLocally_base_type ha hb hda hdb
      exact .decided hrun habsurd
  | @var i is =>
    have hi := hfa.root hs ha
    cases hpb.kinds with
    | @base d hd =>
      have hrun (fuel : Nat) : onSides (simplifyLocally (fuel + 1)) true s a b = simplifyL s i is d false :=
        simplifyLocally_var_base ha hb hda hdb
      exact .decided hrun (hsettled (simplifyL_spec hs hi hd))
    | var =>
      exact .decided (fun fuel => simplifyLocally_vars hb hda hdb rfl rfl)
        (hsettled (narrow_spec hs hi (hfb.root hs hb)))
    | @type form bs =>
      have hrun (fuel : Nat) : onSides (simplifyLocally (fuel + 1)) true s a b =
          splitVar (simplifyLocally fuel) s i is (form.type bs) false true := simplifyLocally_var_type ha hb hda hdb
      exact .split true hi hpb hrun (.split true hda hdb)
  | @type form as has =>
    cases hpb.kinds with
    | base =>
      have hrun (fuel : Nat) : onSides (simplifyLocally (fuel + 1)) false s b a = some (.absurdity, s) :=
        simplifyLocally_base_type hb ha hdb hda
      exact .decided hrun habsurd
    | @var j js =>
      have hrun (fuel : Nat) : onSides (simplifyLocally (fuel + 1)) false s b a =
          splitVar (simplifyLocally fuel) s j js (form.type as) false false := simplifyLocally_var_type hb ha hdb hda
      exact .split false (hfb.root hs hb) hpa hrun (.split false hdb hda)
    | @type form' bs hbs =>
      have hrun (fuel : Nat) : simplifyLocally (fuel + 1) s a b false =
          if form = form' ∧ as.length = bs.length then splitArgs (simplifyLocally fuel) false (as.zip bs) s .tautology
          else some (.absurdity, s) :=
        (simplifyLocally_types hb hda hdb rfl rfl).trans (splitConsOrTuple_types form form' as bs)
      by_cases hsame : form = form' ∧ as.length = bs.length
      · obtain ⟨rfl, hlen⟩ := hsame
        exact .args hlen hfa hfb hda hdb fun fuel => (hrun fuel).trans (if_pos ⟨rfl, hlen⟩)
      · exact .decided (fun fuel => (hrun fuel).trans (if_neg hsame)) habsurd

/-! ## Runs that return -/

theorem Advanced.refl (hs : Tracked L s) : Advanced L s L s := ⟨.refl hs, .inl ⟨rfl, le_rfl⟩⟩

variable {L'' : Finset Nat} {s'' : Solver} {ps : List (ExprType × ExprType)} {r : Satisfiability × Solver}

/-- Nothing was bound and no variable opened, or there are fewer open variables. -/
theorem progress_trans
    (h : s'.typingEnv = s.typingEnv ∧ openVars L' s' ≤ openVars L s ∨ openVars L' s' + 1 ≤ openVars L s)
    (h' : s''.typingEnv = s'.typingEnv ∧ openVars L'' s'' ≤ openVars L' s' ∨ openVars L'' s'' + 1 ≤ openVars L' s') :
    s''.typingEnv = s.typingEnv ∧ openVars L'' s'' ≤ openVars L s ∨ openVars L'' s'' + 1 ≤ openVars L s := by
  obtain ⟨heq, hle⟩ | hlt := h
  · obtain ⟨heq', hle'⟩ | hlt' := h'
    · exact .inl ⟨heq'.trans heq, hle'.trans hle⟩
    · exact .inr (hlt'.trans hle)
  · right
    obtain ⟨-, hle'⟩ | hlt' := h' <;> omega

theorem Advanced.trans (h : Advanced L s L' s') (h' : Advanced L' s' L'' s'') : Advanced L s L'' s'' :=
  ⟨h.moves.trans h'.moves (fun _ _ => .inl trivial) fun _ h => h, progress_trans h.progress h'.progress⟩

/-- Both sides are over the variables in use. -/
def Used (L : Finset Nat) (ps : List (ExprType × ExprType)) : Prop := ∀ p ∈ ps, Plain (· ∈ L) p.1 ∧ Plain (· ∈ L) p.2

theorem Used.mono (h : Used L ps) (hsub : L ⊆ L') : Used L' ps := fun p hp =>
  ⟨(h p hp).1.imp fun _ hid => hsub hid, (h p hp).2.imp fun _ hid => hsub hid⟩

theorem used_zip (has : Plain (· ∈ L) (form.type as)) (hbs : Plain (· ∈ L) (form.type bs)) : Used L (as.zip bs) := by
  rintro ⟨x, y⟩ hp
  obtain ⟨hx, hy⟩ := List.of_mem_zip hp
  exact ⟨Form.plain_iff.mp has x hx, Form.plain_iff.mp hbs y hy⟩

theorem outcome_args
    (hcall : ∀ {L s a b r}, Tracked L s → Plain (· ∈ L) a → Plain (· ∈ L) b →
      simplifyLocally fuel s a b false = some r →
      Returns (Advanced L s) (some r))
    (hs : Tracked L s) (hps : Used L ps) (h : splitArgs (simplifyLocally fuel) false ps s .tautology = some r) :
    Returns (Advanced L s) (some r) := by
  induction ps generalizing L s with
  | nil =>
    cases h
    exact ⟨.tautology, s, rfl, .inr ⟨rfl, L, .refl hs⟩⟩
  | cons p ps ih =>
    obtain ⟨a, b⟩ := p
    obtain ⟨ha, hb⟩ := hps (a, b) List.mem_cons_self
    rw [splitArgs] at h
    cases hrun : simplifyLocally fuel s a b false with
    | none =>
      rw [hrun] at h
      cases h
    | some r₁ =>
      obtain ⟨v, s₁, heq, hv⟩ := hcall hs ha hb hrun
      cases heq
      rw [hrun] at h
      obtain rfl | ⟨rfl, L₁, hadvanced⟩ := hv
      · cases h
        exact ⟨.absurdity, s₁, rfl, .inl rfl⟩
      · have hrest : Used L₁ ps := Used.mono (fun p hp => hps p (List.mem_cons_of_mem _ hp)) hadvanced.moves.sub
        exact (ih hadvanced.moves.tracked hrest h).imp fun _ _ => hadvanced.trans

/-- A comparison that returns is absurd, or holds and has advanced. -/
theorem outcome (hs : Tracked L s) (ha : Plain (· ∈ L) a) (hb : Plain (· ∈ L) b)
    (h : simplifyLocally fuel s a b false = some r) : Returns (Advanced L s) (some r) := by
  induction fuel generalizing L s a b r with
  | zero => cases h
  | succ fuel ih =>
    cases compared hs ha hb with
    | decided hrun hreturns =>
      rw [hrun] at h
      exact h ▸ hreturns
    | @split left i is form args hi hargs hrun _ =>
      rw [hrun] at h
      by_cases hlead : LeadsTo s.typingEnv (form.type args) i
      · rw [never_splits left fuel hs hi hargs hlead] at h
        cases h
      · obtain ⟨fuel', L', s', hrun', hadvanced⟩ := split_spec hs hi hargs hlead left
        have hmax := splitVar_mono (agrees_of_le (Nat.le_max_left fuel fuel')) h
        obtain rfl := Option.some.inj (hmax.symm.trans
          (splitVar_mono (agrees_of_le (Nat.le_max_right fuel fuel')) hrun'))
        exact ⟨.tautology, s', rfl, .inr ⟨rfl, L', hadvanced⟩⟩
    | args hlen hfa hfb _ _ hrun =>
      rw [hrun] at h
      have hclosed : Closed (· ∈ L) s.typingEnv := fun id t _ hlook => hs.values id t hlook
      exact outcome_args ih hs (used_zip (hfa.plain hclosed ha) (hfb.plain hclosed hb)) h

/-! ## Circular comparisons -/

/-- One of the comparisons is circular, in the state that those before it leave. -/
def CircularIn (s : Solver) (ps : List (ExprType × ExprType)) : Prop :=
  ∃ front x y back fuel s', ps = front ++ (x, y) :: back ∧
    splitArgs (simplifyLocally fuel) false front s .tautology = some (.tautology, s') ∧ Circular s' x y

section Lists

variable {f : Simplifier} {front back ps : List (ExprType × ExprType)} {v : Satisfiability}

theorem splitArgs_contingency (h : splitArgs f false ps s .contingency = some (v, s')) : v ≠ .tautology := by
  induction ps generalizing s with
  | nil =>
    cases h
    decide
  | cons p ps ih =>
    rw [splitArgs] at h
    split at h
    · cases h
    · cases h
      decide
    · exact ih h
    · exact ih h

/-- Comparisons that hold are followed by the others. -/
theorem splitArgs_append (h : splitArgs f false front s .tautology = some (.tautology, s')) :
    splitArgs f false (front ++ back) s .tautology = splitArgs f false back s' .tautology := by
  induction front generalizing s with
  | nil =>
    cases h
    rfl
  | cons p front ih =>
    rw [List.cons_append, splitArgs]
    rw [splitArgs] at h
    split at h
    · cases h
    · cases h
    · exact ih h
    · exact absurd rfl (splitArgs_contingency h)

theorem splitArgs_append_none {ret : Satisfiability} (h : splitArgs f false front s ret = none) :
    splitArgs f false (front ++ back) s ret = none := by
  induction front generalizing s ret with
  | nil => cases h
  | cons p front ih =>
    rw [List.cons_append, splitArgs]
    rw [splitArgs] at h
    split at h
    · rfl
    · cases h
    · exact ih h
    · exact ih h

theorem CircularIn.next (hrun : simplifyLocally fuel s x y false = some (.tautology, s')) (h : CircularIn s' ps) :
    CircularIn s ((x, y) :: ps) := by
  obtain ⟨front, z, w, back, fuel', s'', rfl, hfront, hcircular⟩ := h
  refine ⟨(x, y) :: front, z, w, back, max fuel fuel', s'', rfl, ?_, hcircular⟩
  rw [splitArgs, agrees_of_le (Nat.le_max_left fuel fuel') _ _ _ _ _ hrun]
  exact splitArgs_mono (agrees_of_le (Nat.le_max_right fuel fuel')) hfront

end Lists

/-- The comparison before which the others hold never returns. -/
theorem never_in {front back : List (ExprType × ExprType)}
    (hs : Tracked L s) (hps : Used L (front ++ (x, y) :: back))
    (hfront : splitArgs (simplifyLocally fuel') false front s .tautology = some (.tautology, s'))
    (hnever : ∀ {L'}, Tracked L' s' → Plain (· ∈ L') x → Plain (· ∈ L') y → simplifyLocally fuel s' x y false = none) :
    splitArgs (simplifyLocally fuel) false (front ++ (x, y) :: back) s .tautology = none := by
  have hout := outcome_args outcome hs (fun p hp => hps p (List.mem_append_left _ hp)) hfront
  obtain ⟨v, s₁, heq, hv⟩ := hout
  cases heq
  obtain hv | ⟨-, L', hadvanced⟩ := hv
  · cases hv
  obtain ⟨hx, hy⟩ := Used.mono hps hadvanced.moves.sub (x, y) (List.mem_append_right _ List.mem_cons_self)
  cases hrun : splitArgs (simplifyLocally fuel) false front s .tautology with
  | none => exact splitArgs_append_none hrun
  | some r =>
    obtain rfl := splitArgs_unique hrun hfront
    rw [splitArgs_append hrun, splitArgs, hnever hadvanced.moves.tracked hx hy]

/-- A circular comparison never returns. -/
theorem Circular.never (h : Circular s a b) (hs : Tracked L s) (ha : Plain (· ∈ L) a)
    (hb : Plain (· ∈ L) b) (fuel : Nat) :
    simplifyLocally fuel s a b false = none := by
  induction h generalizing L fuel with
  | @split s a b i is form args left hvar htype hlead =>
    cases fuel with
    | zero => rfl
    | succ fuel =>
      have hclosed : Closed (· ∈ L) s.typingEnv := fun id t _ hlook => hs.values id t hlook
      have hsides {t u : ExprType} (ht : Plain (· ∈ L) t) (hu : Plain (· ∈ L) u)
          (hvar : dereference s.typingEnv t = some (.tvar i is))
          (htype : dereference s.typingEnv u = some (form.type args)) :
          onSides (simplifyLocally (fuel + 1)) left s t u = none := by
        obtain ⟨t', ht', hft⟩ := exists_standsFor hs.acyclic t
        obtain ⟨u', hu', hfu⟩ := exists_standsFor hs.acyclic u
        obtain rfl := Option.some.inj (hvar.symm.trans ht')
        obtain rfl := Option.some.inj (htype.symm.trans hu')
        rw [simplifyLocally_var_type ht hu hvar htype]
        exact never_splits left fuel hs (hft.root hs ht) (hfu.plain hclosed hu) hlead
      cases left with
      | true => exact hsides ha hb hvar htype
      | false => exact hsides hb ha hvar htype
  | @args s s' a b x y form as bs front back fuel' hda hdb hlen heq hfront _ ih =>
    cases fuel with
    | zero => rfl
    | succ fuel =>
      have hclosed : Closed (· ∈ L) s.typingEnv := fun id t _ hlook => hs.values id t hlook
      obtain ⟨a', ha', hfa⟩ := exists_standsFor hs.acyclic a
      obtain ⟨b', hb', hfb⟩ := exists_standsFor hs.acyclic b
      obtain rfl := Option.some.inj (hda.symm.trans ha')
      obtain rfl := Option.some.inj (hdb.symm.trans hb')
      have hused := used_zip (hfa.plain hclosed ha) (hfb.plain hclosed hb)
      rw [simplifyLocally_types hb hda hdb rfl rfl, splitConsOrTuple_types, if_pos ⟨rfl, hlen⟩]
      rw [heq] at hused ⊢
      exact never_in hs hused hfront fun hs' hx hy => ih hs' hx hy fuel

/-- Comparisons of which one is circular never return. -/
theorem CircularIn.never (h : CircularIn s ps) (hs : Tracked L s) (hps : Used L ps) (fuel : Nat) :
    splitArgs (simplifyLocally fuel) false ps s .tautology = none := by
  obtain ⟨front, x, y, back, fuel', s', rfl, hfront, hcircular⟩ := h
  exact never_in hs hps hfront fun hs' hx hy => hcircular.never hs' hx hy fuel

/-! ## Comparisons that return -/

/-- The comparison returns with enough fuel. -/
def Ends (s : Solver) (a b : ExprType) : Prop := ∃ fuel r, simplifyLocally fuel s a b false = some r

/-- The arguments are compared as long as each comparison returns in the state that it starts in. -/
theorem ends_args (hs : Tracked L s) (hps : Used L ps) (hnot : ¬ CircularIn s ps)
    (hcall : ∀ {L' s' x y}, (x, y) ∈ ps → Advanced L s L' s' → Plain (· ∈ L') x → Plain (· ∈ L') y → ¬ Circular s' x y →
      Ends s' x y) :
    ∃ fuel r, splitArgs (simplifyLocally fuel) false ps s .tautology = some r := by
  induction ps generalizing L s with
  | nil => exact ⟨0, _, rfl⟩
  | cons p ps ih =>
    obtain ⟨x, y⟩ := p
    obtain ⟨hx, hy⟩ := hps (x, y) List.mem_cons_self
    obtain ⟨fuel₁, r₁, hrun₁⟩ := hcall List.mem_cons_self (.refl hs) hx hy fun h =>
      hnot ⟨[], x, y, ps, 0, s, rfl, rfl, h⟩
    obtain ⟨v, s₁, heq, hv⟩ := outcome hs hx hy hrun₁
    cases heq
    obtain rfl | ⟨rfl, L₁, hadvanced⟩ := hv
    · exact ⟨fuel₁, (.absurdity, s₁), by rw [splitArgs, hrun₁]⟩
    · obtain ⟨fuel₂, r₂, hrun₂⟩ := ih hadvanced.moves.tracked
        (Used.mono (fun p hp => hps p (List.mem_cons_of_mem _ hp)) hadvanced.moves.sub)
        (fun h => hnot (h.next hrun₁))
        fun hmem h => hcall (List.mem_cons_of_mem _ hmem) (hadvanced.trans h)
      refine ⟨max fuel₁ fuel₂, r₂, ?_⟩
      rw [splitArgs, agrees_of_le (Nat.le_max_left fuel₁ fuel₂) _ _ _ _ _ hrun₁]
      exact splitArgs_mono (agrees_of_le (Nat.le_max_right fuel₁ fuel₂)) hrun₂

/-- The open variables and the height go down together. -/
def EndsAt (k n : Nat) : Prop :=
  ∀ {L s a b}, Tracked L s → Plain (· ∈ L) a → Plain (· ∈ L) b → openVars L s ≤ k → Height s.typingEnv n a →
    Height s.typingEnv n b → ¬ Circular s a b → Ends s a b

theorem endsAt_of_less (hheight : ∀ m, n = m + 1 → EndsAt k m) (hopen : ∀ k' m, k = k' + 1 → EndsAt k' m) :
    EndsAt k n := by
  intro L s a b hs ha hb hk hna hnb hnot
  cases compared hs ha hb with
  | decided hrun hreturns =>
    obtain ⟨v, s', hr, -⟩ := hreturns
    exact ⟨1, (v, s'), (hrun 0).trans hr⟩
  | @split left i is form args hi hargs hrun hcircular =>
    obtain ⟨fuel, L', s', hsplit, -⟩ := split_spec hs hi hargs (fun hlead => hnot (hcircular hlead)) left
    exact ⟨fuel + 1, (.tautology, s'), (hrun fuel).trans hsplit⟩
  | @args form as bs hlen hfa hfb hda hdb hrun =>
    have hclosed : Closed (· ∈ L) s.typingEnv := fun id t _ hlook => hs.values id t hlook
    have hused := used_zip (hfa.plain hclosed ha) (hfb.plain hclosed hb)
    obtain ⟨m, rfl, hma⟩ := (hfa.height hna).of_type
    obtain ⟨_, heq, hmb⟩ := (hfb.height hnb).of_type
    obtain rfl := Nat.succ.inj heq
    have hnone : ¬ CircularIn s (as.zip bs) := by
      rintro ⟨front, x, y, back, fuel, s', hzip, hfront, hcircular⟩
      exact hnot (.args hda hdb hlen hzip hfront hcircular)
    obtain ⟨fuel, r, hargs⟩ := ends_args hs hused hnone fun {L' s' x y} hmem hadvanced hx hy hnot' => by
      obtain ⟨hxm, hym⟩ := List.of_mem_zip hmem
      have htracked := hadvanced.moves.tracked
      obtain ⟨hsame, hle⟩ | hlt := hadvanced.progress
      · exact hheight m rfl htracked hx hy (hle.trans hk) (hsame ▸ hma x hxm) (hsame ▸ hmb y hym) hnot'
      · have hvalues : ∀ id t, look s'.typingEnv id = some t → Plain (· ∈ L') t := htracked.values
        obtain ⟨nx, hnx⟩ := exists_height htracked.acyclic hvalues hx
        obtain ⟨ny, hny⟩ := exists_height htracked.acyclic hvalues hy
        have hfewer : openVars L' s' ≤ k - 1 := by omega
        exact hopen (k - 1) (max nx ny) (by omega) htracked hx hy hfewer (hnx.mono (Nat.le_max_left _ _))
          (hny.mono (Nat.le_max_right _ _)) hnot'
    exact ⟨fuel + 1, r, (hrun fuel).trans hargs⟩

theorem endsAt (k n : Nat) : EndsAt k n := by
  induction k generalizing n with
  | zero =>
    induction n with
    | zero =>
      exact endsAt_of_less (fun _ h => absurd h (Nat.zero_ne_add_one _))
        fun _ _ h => absurd h (Nat.zero_ne_add_one _)
    | succ n ihn =>
      refine endsAt_of_less (fun m h => ?_) fun _ _ h => absurd h (Nat.zero_ne_add_one _)
      obtain rfl := Nat.succ.inj h
      exact ihn
  | succ k ihk =>
    have hopen (k' m : Nat) (h : k + 1 = k' + 1) : EndsAt k' m := Nat.succ.inj h ▸ ihk m
    induction n with
    | zero => exact endsAt_of_less (fun _ h => absurd h (Nat.zero_ne_add_one _)) hopen
    | succ n ihn => exact endsAt_of_less (fun m h => Nat.succ.inj h ▸ ihn) hopen

/-- A comparison that is not circular returns. -/
theorem ends (hs : Tracked L s) (ha : Plain (· ∈ L) a) (hb : Plain (· ∈ L) b)
    (hnot : ¬ Circular s a b) : Ends s a b := by
  obtain ⟨na, hna⟩ := exists_height hs.acyclic (fun id t hlook => hs.values id t hlook) ha
  obtain ⟨nb, hnb⟩ := exists_height hs.acyclic (fun id t hlook => hs.values id t hlook) hb
  exact endsAt (openVars L s) (max na nb) hs ha hb le_rfl (hna.mono (Nat.le_max_left _ _))
    (hnb.mono (Nat.le_max_right _ _)) hnot

/-! ## Constraints -/

section Constraints

variable {tcs : List TypingConstraint} {v : Satisfiability}

/-- Base types, variables, constructed types and tuples over variables below the counter, in the constraints and in
an environment without cycles. No iRODS type has the name of a variable. -/
structure Ready (tcs : List TypingConstraint) (s : Solver) : Prop where
  constraints : ∀ c ∈ tcs, Plain (· < s.tvarNumber) c.a ∧ Plain (· < s.tvarNumber) c.b
  keys : ∀ id t, look s.typingEnv id = some t → id < s.tvarNumber
  values : ∀ id t, look s.typingEnv id = some t → Plain (· < s.tvarNumber) t
  acyclic : AcyclicTable s.typingEnv

/-- `simplify` starts without equivalent variables and without constraints that are kept. -/
def start (s : Solver) : Solver := { s with equivalence := [], simpleTypingConstraints := [] }

def sides (tcs : List TypingConstraint) : List (ExprType × ExprType) := tcs.map fun c => (c.a, c.b)

theorem Ready.tracked (h : Ready tcs s) : Tracked (Finset.range s.tvarNumber) (start s) where
  below _ hid := Finset.mem_range.mp hid
  keys := h.keys
  values id t hlook := (h.values id t hlook).imp fun _ hid => Finset.mem_range.mpr hid
  acyclic := h.acyclic
  coherent := .nil
  kept := rfl

theorem Ready.used (h : Ready tcs s) : Used (Finset.range s.tvarNumber) (sides tcs) := by
  intro p hp
  obtain ⟨c, hc, rfl⟩ := List.mem_map.mp hp
  obtain ⟨ha, hb⟩ := h.constraints c hc
  exact ⟨ha.imp fun _ hid => Finset.mem_range.mpr hid, hb.imp fun _ hid => Finset.mem_range.mpr hid⟩

theorem simplify_start : simplify fuel tcs s = simplifyLoop fuel fuel tcs (start s) .tautology := rfl

/-- One pass decides, since it keeps no constraint. -/
theorem solveConstraints_of_pass (hpass : simplifyPass (fuel + 2) tcs (start s) .tautology = some (v, s'))
    (hv : v = .absurdity ∨ v = .tautology ∧ s'.simpleTypingConstraints = []) :
    ∃ r, solveConstraints (fuel + 2) tcs s = some r := by
  have hsimplify : ∃ v' tcs' s'', simplify (fuel + 2) tcs s = some (v', tcs', s'') ∧ (v' = .absurdity ∨ tcs' = []) := by
    rw [simplify_start, simplifyLoop, hpass]
    obtain rfl | ⟨rfl, hkept⟩ := hv
    · exact ⟨_, _, _, rfl, .inl rfl⟩
    · dsimp only
      split
      · rw [hkept, simplifyLoop, simplifyPass]
        dsimp only
        rw [if_neg (Nat.lt_irrefl _)]
        exact ⟨_, _, _, rfl, .inr rfl⟩
      · exact ⟨_, _, _, rfl, .inr hkept⟩
  obtain ⟨v', tcs', s'', hsimplify, hdone⟩ := hsimplify
  rw [solveConstraints, solveLoop, hsimplify]
  by_cases habsurd : v' = .absurdity
  · exact ⟨_, if_pos habsurd⟩
  · obtain rfl := hdone.resolve_left habsurd
    exact ⟨_, if_neg habsurd⟩

theorem solveConstraints_none (hpass : simplifyPass fuel tcs (start s) .tautology = none) :
    solveConstraints fuel tcs s = none := by
  cases fuel with
  | zero => rfl
  | succ fuel =>
    have hsimplify : simplify (fuel + 1) tcs s = none := by rw [simplify_start, simplifyLoop, hpass]
    rw [solveConstraints, solveLoop, hsimplify]
    rfl

theorem Ready.never (h : Ready tcs s) (hcircular : CircularIn (start s) (sides tcs)) (fuel : Nat) :
    solveConstraints fuel tcs s = none := by
  refine solveConstraints_none ?_
  rw [Typing.simplifyPass_eq_splitArgs]
  exact hcircular.never h.tracked h.used fuel

theorem Ready.ends (h : Ready tcs s) (hnot : ¬ CircularIn (start s) (sides tcs)) :
    ∃ fuel r, solveConstraints fuel tcs s = some r := by
  obtain ⟨fuel, r, hargs⟩ := ends_args h.tracked h.used hnot fun _ hadvanced hx hy =>
    Solving.ends hadvanced.moves.tracked hx hy
  obtain ⟨v, s', heq, hv⟩ := outcome_args outcome h.tracked h.used hargs
  cases heq
  have hpass : simplifyPass (fuel + 2) tcs (start s) .tautology = some (v, s') := by
    rw [Typing.simplifyPass_eq_splitArgs]
    exact splitArgs_mono (agrees_of_le (Nat.le_add_right fuel 2)) hargs
  have hkept := hv.imp_right fun ⟨htautology, _, hadvanced⟩ => And.intro htautology hadvanced.moves.tracked.kept
  exact ⟨fuel + 2, solveConstraints_of_pass hpass hkept⟩

/-- The solver returns exactly when none of its comparisons splits a variable against a type that leads to it. -/
theorem solveConstraints_returns_iff (h : Ready tcs s) :
    (∃ fuel r, solveConstraints fuel tcs s = some r) ↔ ¬ CircularIn (start s) (sides tcs) := by
  refine ⟨fun ⟨fuel, r, hrun⟩ hcircular => ?_, h.ends⟩
  rw [h.never hcircular fuel] at hrun
  cases hrun

/-- `X < list(Y)`. -/
def listOfOther : List TypingConstraint := [⟨.tvar 0 [], .cons "list" [.tvar 1 []]⟩]

theorem listOfOther_ready : Ready listOfOther (noTypes 2) where
  constraints c hc := by
    obtain rfl := List.mem_singleton.mp hc
    exact ⟨⟨Nat.zero_lt_two, nofun⟩, ⟨Nat.one_lt_two, nofun⟩, trivial⟩
  keys _ _ h := nomatch h
  values _ _ h := nomatch h
  acyclic := ⟨fun _ => 0, nofun⟩

theorem solveConstraints_returns_listOfOther :
    Ready listOfOther (noTypes 2) ∧ ¬ CircularIn (start (noTypes 2)) (sides listOfOther) :=
  ⟨listOfOther_ready, (solveConstraints_returns_iff listOfOther_ready).mp ⟨4, _, rfl⟩⟩

/-- `X < list(X)`. -/
def listOfItself : List TypingConstraint := [⟨.tvar 0 [], .cons "list" [.tvar 0 []]⟩]

/-- The solver opens one variable after the other and never returns. -/
theorem solveConstraints_never_listOfItself :
    Ready listOfItself (noTypes 1) ∧ ∀ fuel, solveConstraints fuel listOfItself (noTypes 1) = none := by
  have hready : Ready listOfItself (noTypes 1) := by
    refine ⟨fun c hc => ?_, nofun, nofun, ⟨fun _ => 0, nofun⟩⟩
    obtain rfl := List.mem_singleton.mp hc
    exact ⟨⟨Nat.zero_lt_one, nofun⟩, ⟨Nat.zero_lt_one, nofun⟩, trivial⟩
  have hitself : LeadsTo (start (noTypes 1)).typingEnv (.tvar 0 []) (Unification.number (0, [])) :=
    .here (List.mem_singleton_self _)
  have hlead : LeadsTo (start (noTypes 1)).typingEnv (Form.type (.cons "list") [.tvar 0 []]) 0 :=
    leadsTo_type.mpr ⟨.tvar 0 [], List.mem_singleton_self _, hitself⟩
  have hsplit : Circular (start (noTypes 1)) (.tvar 0 []) (.cons "list" [.tvar 0 []]) :=
    @Circular.split _ _ _ 0 [] (.cons "list") _ true rfl rfl hlead
  exact ⟨hready, hready.never ⟨[], _, _, [], 0, _, rfl, rfl, hsplit⟩⟩

end Constraints

end Solving
