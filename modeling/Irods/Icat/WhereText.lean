-- SUMMARY: What the conditions put into the WHERE part.
import Irods.Base.Pieces
import Irods.Icat.RefusedQuery

/-!
# The text of the conditions

Every branch of a condition appends fixed texts of the program, except for the operator in
front of a quoted string, which is appended as the client wrote it. `checkCondition` looks at
it after that and refuses the query unless it is made of comparison signs, blanks and the
keywords.

Two places take up what was written before: `begin_of` repeats the last word, and a compound
condition takes back the column and puts it in front of each of its parts. Both cut the text,
so the pieces it is made of are the names and texts, and the parts that such a cut leaves.
-/

namespace GenQuery

open CString EStateM
open List (append_assoc append_nil drop_left forall_mem_cons)

open scoped Computability

/-! ## Pieces -/

/-- The texts that the program has for conditions. -/
def fragments : List Text :=
  [" AND ", "cast (", "upper (", ".", " )", " as decimal)", " IN (", "?", ", ?", ")", " BETWEEN ",
    " AND ? ", " ", "IS NULL", "IS NOT NULL", "=substr(?,1,char_length(", "))", " AND char_length(",
    ")>0", "? ", " ( ", " OR ", " ) "].map String.toList

/-- What a client may write in front of a quoted string. -/
def operatorWords : List Text :=
  [" ", "<", ">", "=", "!", "not", "NOT", "between", "BETWEEN", "like", "LIKE", "in", "IN"].map
    String.toList

/-- The words of the WHERE part. -/
inductive SqlWord (S : Schema) : Text → Prop
  | tableName {table : Table} : table ∈ S.tables → SqlWord S table.tableName
  | columnName {column : Column} : column ∈ S.columns → SqlWord S column.columnName
  | fragment {w : Text} : w ∈ fragments → SqlWord S w
  | operator {w : Text} : w ∈ operatorWords → SqlWord S w

/-- Up to two blanks and an AND, which `handleCompoundCondition` leaves in its place. -/
def leadingAnd (blanks : Nat) : Text := List.replicate blanks ' ' ++ "AND".toList

/-- What the cuts of the program leave of a word. -/
inductive PartOf (w : Text) : Text → Prop
  | whole : PartOf w w
  | behindBlank {p q : Text} : PartOf w (p ++ ' ' :: q) → PartOf w q
  | tillAnd {n : Nat} {q : Text} : PartOf w (leadingAnd n ++ q) → PartOf w (leadingAnd n)
  | behindAnd {n : Nat} {q : Text} : PartOf w (leadingAnd n ++ q) → PartOf w q

def SqlPiece (S : Schema) : Language Char := {p | ∃ w, SqlWord S w ∧ PartOf w p}

/-- The texts made of such pieces. -/
def SqlText (S : Schema) : Language Char := (SqlPiece S)∗

variable {t : Text}

section

variable {S : Schema}

variable {s w : Text}

theorem SqlText.append (hs : s ∈ SqlText S) (ht : t ∈ SqlText S) : s ++ t ∈ SqlText S :=
  Language.append_mem_kstar hs ht

theorem SqlText.piece {p : Text} (h : p ∈ SqlPiece S) : p ∈ SqlText S := Language.mem_kstar_of_mem h

theorem SqlText.nil : [] ∈ SqlText S := Language.nil_mem_kstar _

theorem SqlText.word (h : SqlWord S w) : w ∈ SqlText S := SqlText.piece ⟨w, h, .whole⟩

theorem SqlText.fragment (h : w ∈ fragments) : w ∈ SqlText S := SqlText.word (.fragment h)

theorem SqlText.lastWord (h : s ∈ SqlText S) : lastWord s ∈ SqlText S := by
  refine lastWord_mem_kstar ?_ h
  rintro p q ⟨w, hw, hpart⟩
  exact ⟨w, hw, .behindBlank hpart⟩

end

/-! ## Operators -/

/-- Nothing else was written in front of the quoted string. -/
def Operators : Language Char := {w | w ∈ operatorWords}

variable {s : Text}

theorem blankOut_blanked {keyword : Text} (hblank : ' ' ∉ keyword) (hne : keyword ≠ [])
    (hword : occurs keyword s = true → keyword ∈ Operators) (h : Blanked Operators s t) :
    Blanked Operators s (Cond.blankOut keyword t) := by
  unfold Cond.blankOut
  cases hfound : strstr keyword t with
  | none => exact h
  | some n =>
    obtain ⟨-, ⟨t₂, ht₂⟩, -⟩ := strstr_eq_some hfound
    have ht : t = t.take n ++ (keyword ++ t₂) := by rw [ht₂, List.take_append_drop]
    have hrest : t.drop (n + keyword.length) = t₂ := by
      rw [← List.drop_drop, ← ht₂, drop_left]
    rw [ht] at h
    obtain ⟨s₁, s₂, rfl, h₁, h₂⟩ := h.split_word hblank hne
    have hmem : keyword ∈ Operators := hword (occurs_iff.mpr ⟨s₁, s₂, append_assoc _ _ _⟩)
    dsimp only
    rw [hrest, append_assoc]
    exact h₁.append (.blank hmem h₂)

/-- The blanking out of comparison signs. -/
theorem signs_blanked : ∀ s : Text, Blanked Operators s
    (s.map fun c => if c = '<' ∨ c = '>' ∨ c = '=' ∨ c = '!' then ' ' else c)
  | [] => .nil
  | c :: s => by
    rw [List.map_cons]
    split
    · rename_i hsign
      have hword : [c] ∈ operatorWords := by
        obtain rfl | rfl | rfl | rfl := hsign <;> decide
      exact .blank hword (signs_blanked s)
    · exact .keep c (signs_blanked s)

theorem keywords_blanked : ∀ {keywords : List Text},
    (∀ k ∈ keywords, ' ' ∉ k ∧ k ≠ [] ∧ (occurs k s = true → k ∈ Operators)) → ∀ {t : Text}, Blanked Operators s t →
    Blanked Operators s (keywords.foldl (fun tmpStr keyword => Cond.blankOut keyword tmpStr) t)
  | [], _, _, h => h
  | _ :: _, hall, _, h => by
    obtain ⟨⟨hblank, hne, hword⟩, hrest⟩ := forall_mem_cons.mp hall
    exact keywords_blanked hrest (blankOut_blanked hblank hne hword h)

/-- An operator that passes the check and is none of the two that are handled apart is made
of comparison signs, blanks and keywords. -/
theorem checkCondition_operators (hcheck : Cond.checkCondition s = true) (hbegin : occurs "begin_of".toList s = false)
    (hparent : occurs "parent_of".toList s = false) : s ∈ Operators∗ := by
  have hkeywords : ∀ k ∈ Cond.keywords, ' ' ∉ k ∧ k ≠ [] ∧ (occurs k s = true → k ∈ Operators) := by
    have hmem : ∀ k ∈ Cond.keywords, ' ' ∉ k ∧ k ≠ [] ∧
        (k = "begin_of".toList ∨ k = "parent_of".toList ∨ k ∈ operatorWords) := by decide
    intro k hk
    obtain ⟨hblank, hne, rfl | rfl | hword⟩ := hmem k hk
    · exact ⟨hblank, hne, fun h => absurd (hbegin.symm.trans h) Bool.false_ne_true⟩
    · exact ⟨hblank, hne, fun h => absurd (hparent.symm.trans h) Bool.false_ne_true⟩
    · exact ⟨hblank, hne, fun _ => hword⟩
  refine (keywords_blanked hkeywords (signs_blanked s)).all_blank ?_ (show _ ∈ operatorWords by decide)
  intro c hc
  have hall := List.all_eq_true.mp hcheck c hc
  simpa using hall

theorem operators_sqlText {S : Schema} (h : s ∈ Operators∗) : s ∈ SqlText S := by
  obtain ⟨ws, rfl, hws⟩ := Language.mem_kstar.mp h
  exact Language.join_mem_kstar fun w hw => ⟨w, .operator (hws w hw), .whole⟩

/-! ## Conditions -/

/-- The WHERE part so far. -/
def WhereText (S : Schema) (c : Cond) : Prop := ∃ text ∈ SqlText S, c.whereSQL = "where ".toList ++ text

/-- The conditions go on in the same way. -/
def TextKept (S : Schema) (c c' : Cond) : Prop := WhereText S c → WhereText S c'

variable {c c' : Cond} {text : Text} {u : Unit}

namespace Cond

variable {S : Schema}

theorem textKept_refl (c : Cond) : TextKept S c c := id

theorem textKept_trans (c₁ c₂ c₃ : Cond) (h : TextKept S c₁ c₂) (h' : TextKept S c₂ c₃) : TextKept S c₁ c₃ :=
  h' ∘ h

variable {src : Text}

theorem textKept_of_eq (h : c'.whereSQL = c.whereSQL) : TextKept S c c' := by
  rintro ⟨text, htext, heq⟩
  exact ⟨text, htext, h.trans heq⟩

theorem catWhere_text (h : src ∈ SqlText S) : OkRel (TextKept S) (catWhere src) := by
  refine .modify ?_
  rintro c ⟨text, htext, heq⟩
  simp only [rstrcat]
  split
  · exact ⟨text, htext, heq⟩
  · exact ⟨text ++ src, SqlText.append htext h, by rw [heq, append_assoc]⟩

theorem catWhere_fragment (h : src ∈ fragments) : OkRel (TextKept S) (catWhere src) :=
  catWhere_text (.fragment h)

theorem copyBind_text (b : Buffer) (ix : Nat) (src : Text) (ncopy : Nat) :
    OkRel (TextKept S) (copyBind b ix src ncopy) := by
  refine .bind textKept_trans (.ite (.pure textKept_refl _) ?_) fun _ => .bind textKept_trans ?_ fun _ => ?_
  · intro c u c' h
    obtain ⟨rfl, -⟩ := pokes_ok h
    exact textKept_of_eq rfl
  · intro c u c' h
    obtain ⟨-, rfl⟩ := poke_ok h
    exact textKept_of_eq rfl
  · intro c u c' h
    obtain rfl := push_ok h
    exact textKept_of_eq rfl

variable (inArg : Text)

theorem parentOfLoop_text : ∀ (s : Text) (i nput ix : Nat), OkRel (TextKept S) (parentOfLoop inArg s i nput ix) := by
  intro s
  induction s with
  | nil => exact fun _ _ _ => .pure textKept_refl _
  | cons ch s ih =>
    intro i nput ix
    refine .ite ?_ (ih _ _ _)
    have hsep : (if nput = 0 then "?".toList else ", ?".toList) ∈ fragments := by split <;> decide
    exact .bind textKept_trans (catWhere_fragment hsep) fun _ =>
      .bind textKept_trans (copyBind_text _ _ _ _) fun _ => ih _ _ _

theorem quotedLoop_text {b : Buffer} {next : Text} (hnext : next ∈ fragments) {saveIx : Nat → CondM Unit}
    (hsave : ∀ ix, OkRel (TextKept S) (saveIx ix)) (inArg : Text) :
    ∀ (s : Text) (i : Nat) (startIx : Option Nat) (nput ix : Nat),
      OkRel (TextKept S) (quotedLoop b next saveIx inArg s i startIx nput ix) := by
  intro s
  induction s with
  | nil => exact fun _ _ _ _ => .pure textKept_refl _
  | cons ch s ih =>
    intro i startIx nput ix
    refine .ite ?_ (ih _ _ _ _)
    cases startIx with
    | none => exact ih _ _ _ _
    | some startIx =>
      have hsep : (if nput = 0 then "?".toList else next) ∈ fragments := by
        split
        · decide
        · exact hnext
      exact .bind textKept_trans (catWhere_fragment hsep) fun _ =>
        .bind textKept_trans (copyBind_text _ _ _ _) fun _ =>
          .bind textKept_trans (hsave _) fun _ => ih _ _ _ _

theorem addInClauseToWhereForParentOf_text : OkRel (TextKept S) (addInClauseToWhereForParentOf inArg) := by
  unfold addInClauseToWhereForParentOf
  exact .bind textKept_trans (catWhere_fragment (by decide)) fun _ =>
    .bind textKept_trans (parentOfLoop_text _ _ _ _ _) fun _ => catWhere_fragment (by decide)

theorem addInClauseToWhereForIn_text : OkRel (TextKept S) (addInClauseToWhereForIn inArg) := by
  unfold addInClauseToWhereForIn
  refine .bind textKept_trans (catWhere_fragment (by decide)) fun _ =>
    .bind textKept_trans (.get textKept_refl) fun _ => ?_
  refine .bind textKept_trans (quotedLoop_text (by decide) ?_ _ _ _ _ _ _) fun _ => ?_
  · exact fun _ => .modify fun _ => textKept_of_eq rfl
  · exact .bind textKept_trans (catWhere_fragment (by decide)) fun _ =>
      .ite (.throw _) (.pure textKept_refl _)

theorem addBetweenClauseToWhere_text : OkRel (TextKept S) (addBetweenClauseToWhere inArg) := by
  unfold addBetweenClauseToWhere
  refine .bind textKept_trans (catWhere_fragment (by decide)) fun _ => ?_
  refine .bind textKept_trans (quotedLoop_text (by decide) ?_ _ _ _ _ _ _) fun _ => ?_
  · exact fun _ => .pure textKept_refl _
  · exact .ite (.throw _) (.pure textKept_refl _)

theorem lastWord_text (h : WhereText S c) : lastWord c.whereSQL ∈ SqlText S := by
  obtain ⟨text, htext, heq⟩ := h
  have hblank : c.whereSQL = "where".toList ++ ' ' :: text := heq
  rw [hblank, lastWord_behind]
  exact SqlText.lastWord htext

/-- An operator that does not pass the check is refused on every way. -/
theorem addComparison_checked {tmpStr literal : Text} (h : addComparison tmpStr literal c = .ok u c') :
    checkCondition tmpStr = true := by
  by_contra hcheck
  rw [Bool.not_eq_true] at hcheck
  unfold addComparison at h
  simp only [hcheck, if_true] at h
  refine OkRel.apply (R := fun _ _ => False) (.ite ?_ (.ite ?_ ?_)) h
  · exact .bind_never fun _ => .bind_never fun _ => .bind_never fun _ => .bind_never fun _ =>
      .bind_never fun _ => .bind_never fun _ => .bind_never fun _ => .throw _
  · exact .bind_never fun _ => .bind_never fun _ => .throw _
  · exact .bind_never fun _ => .throw _

theorem addComparison_text (tmpStr literal : Text) : OkRel (TextKept S) (addComparison tmpStr literal) := by
  intro c u c' h hc
  have hcheck := addComparison_checked h
  unfold addComparison at h
  simp only [hcheck, Bool.true_eq_false, if_false] at h
  have hend : OkRel (TextKept S) (pure () : CondM Unit) := .pure textKept_refl _
  split at h
  · -- the column is the last word of the text so far
    rw [bind_ok] at h
    obtain ⟨c₀, c₁, hget, h⟩ := h
    obtain ⟨rfl, rfl⟩ := get_ok.mp hget
    have hcolumn := lastWord_text hc
    refine OkRel.apply (R := TextKept S) ?_ h hc
    exact .bind textKept_trans (catWhere_fragment (by decide)) fun _ =>
      .bind textKept_trans (catWhere_text hcolumn) fun _ =>
        .bind textKept_trans (catWhere_fragment (by decide)) fun _ =>
          .bind textKept_trans (catWhere_fragment (by decide)) fun _ =>
            .bind textKept_trans (catWhere_text hcolumn) fun _ =>
              .bind textKept_trans (catWhere_fragment (by decide)) fun _ => hend
  split at h
  · refine OkRel.apply (R := TextKept S) ?_ h hc
    exact .bind textKept_trans (.modify fun _ => textKept_of_eq rfl) fun _ =>
      .bind textKept_trans (addInClauseToWhereForParentOf_text _) fun _ => hend
  · rename_i hbegin hparent
    rw [Bool.not_eq_true] at hbegin hparent
    have hoperator : tmpStr ∈ SqlText S := operators_sqlText (checkCondition_operators hcheck hbegin hparent)
    refine OkRel.apply (R := TextKept S) ?_ h hc
    exact .bind textKept_trans (catWhere_text (SqlText.append hoperator (.fragment (by decide)))) fun _ => hend

theorem insertWhere_text (condition : Text) : OkRel (TextKept S) (insertWhere condition) := by
  intro c u c' h
  have hrun := h
  unfold insertWhere at h
  split at h
  · exact (addInClauseToWhereForIn_text _).apply h
  split at h
  · exact (addBetweenClauseToWhere_text _).apply h
  split at h
  · rename_i hnull
    have hfragment : condition ∈ fragments := by obtain rfl | rfl := hnull <;> decide
    refine OkRel.apply (R := TextKept S) ?_ h
    exact .bind textKept_trans (catWhere_fragment (by decide)) fun _ =>
      .bind textKept_trans (catWhere_fragment hfragment) fun _ => catWhere_fragment (by decide)
  · rename_i hin hbetween hnull
    rw [not_or] at hnull
    obtain ⟨first, second, c₁, -, hbind, hadd⟩ :=
      insertWhere_steps ⟨Bool.eq_false_iff.mpr hin, Bool.eq_false_iff.mpr hbetween, hnull⟩ hrun
    obtain ⟨-, -, -, hwhere⟩ := bindLiteral_ok hbind
    exact textKept_trans _ _ _ (textKept_of_eq hwhere) ((addComparison_text _ _).apply hadd)

/-! ## Compound conditions -/

theorem nextOperator_fragment {condPart1 operator : Text} {n : Nat}
    (h : nextOperator condPart1 = some (n, operator)) : operator ∈ fragments := by
  unfold nextOperator at h
  split at h
  · cases h
    decide
  · obtain ⟨_, -, heq⟩ := Option.map_eq_some_iff.mp h
    cases heq
    decide

theorem compoundLoop_text {tabAndColumn : Text} (htab : tabAndColumn ∈ SqlText S) : ∀ (fuel : Nat)
    (condPart1 : Text), OkRel (TextKept S) (compoundLoop tabAndColumn fuel condPart1) := by
  intro fuel
  induction fuel with
  | zero => exact fun _ => .throw _
  | succ fuel ih =>
    intro condPart1
    unfold compoundLoop copyForBind
    split
    · exact .throw _
    · rename_i n operator hnext
      refine .bind textKept_trans (catWhere_text htab) fun _ => ?_
      refine .bind textKept_trans (.bind textKept_trans (.get textKept_refl) fun _ => ?_) fun _ => ?_
      · exact .ite (.throw _) (.pure textKept_refl _)
      refine .bind textKept_trans (insertWhere_text _) fun _ => ?_
      refine .bind textKept_trans (.modify fun _ => textKept_of_eq rfl) fun _ => ?_
      refine .bind textKept_trans (catWhere_fragment (nextOperator_fragment hnext)) fun _ => .ite (ih _) ?_
      exact .bind textKept_trans (catWhere_text htab) fun _ => insertWhere_text _

/-- A text that may be cut behind an AND it begins with. -/
def CutsWell (S : Schema) (text : Text) : Prop :=
  text ∈ SqlText S ∧ ∀ n q, text = leadingAnd n ++ q → leadingAnd n ∈ SqlText S ∧ q ∈ SqlText S

theorem CutsWell.nil : CutsWell S [] :=
  ⟨.nil, fun n q h => by simp [leadingAnd] at h⟩

theorem CutsWell.cons {ch : Char} (h : ch :: text ∈ SqlText S) (hblank : ch ≠ ' ') (hand : ch ≠ 'A') :
    CutsWell S (ch :: text) := by
  refine ⟨h, fun n q heq => ?_⟩
  cases n with
  | zero => exact absurd (List.cons.inj heq).1 hand
  | succ n => exact absurd (List.cons.inj heq).1 hblank

theorem CutsWell.and (h : text ∈ SqlText S) : CutsWell S (" AND ".toList ++ text) := by
  have hand : SqlWord S " AND ".toList := .fragment (by decide)
  refine ⟨SqlText.append (.word hand) h, fun n q heq => ?_⟩
  match n with
  | 0 => exact absurd (List.cons.inj heq).1 (by decide)
  | 1 =>
    obtain rfl : ' ' :: text = q := List.append_cancel_left
      (show leadingAnd 1 ++ ' ' :: text = leadingAnd 1 ++ q from heq)
    exact ⟨.piece ⟨_, hand, .tillAnd (n := 1) (q := [' ']) .whole⟩,
      SqlText.append (.piece ⟨_, hand, .behindAnd (n := 1) .whole⟩) h⟩
  | n + 2 => exact absurd (List.cons.inj (List.cons.inj heq).2).1 (by decide)

/-- Behind a table name comes a point, which is no part of an AND. -/
theorem CutsWell.tableName {table : Table} (htable : table ∈ S.tables) (h : text ∈ SqlText S)
    (hpoint : text = [] ∨ ∃ r, text = '.' :: r) : CutsWell S (table.tableName ++ text) := by
  have hname : SqlWord S table.tableName := .tableName htable
  refine ⟨SqlText.append (.word hname) h, fun n q heq => ?_⟩
  have hprefix : leadingAnd n <+: table.tableName := by
    have hall : leadingAnd n <+: table.tableName ++ text := ⟨q, heq.symm⟩
    obtain rfl | ⟨r, rfl⟩ := hpoint
    · rwa [append_nil] at hall
    · exact (prefix_sep (by simp [leadingAnd])).mp hall
  obtain ⟨r, hr⟩ := hprefix
  rw [← hr, append_assoc] at heq
  obtain rfl := List.append_cancel_left heq
  rw [← hr] at hname
  exact ⟨.piece ⟨_, hname, .tillAnd .whole⟩, SqlText.append (.piece ⟨_, hname, .behindAnd .whole⟩) h⟩

end Cond

/-! ## The column of a condition -/

open RuleQuery (appendAll appendAll_append appendAll_nil catWhere_bind)

variable {S : Schema}

theorem appendAll_text : ∀ {pieces : List Text}, (∀ p ∈ pieces, p ∈ SqlText S) → ∀ whereSQL : Text,
    ∃ text ∈ SqlText S, appendAll whereSQL pieces = whereSQL ++ text
  | [], _, whereSQL => ⟨[], .nil, (append_nil _).symm⟩
  | piece :: pieces, hall, whereSQL => by
    obtain ⟨hpiece, hrest⟩ := forall_mem_cons.mp hall
    have hstep : appendAll whereSQL (piece :: pieces) = appendAll (rstrcat whereSQL piece maxSQL) pieces := rfl
    rw [hstep, rstrcat]
    split
    · exact appendAll_text hrest _
    · obtain ⟨text, htext, heq⟩ := appendAll_text hrest (whereSQL ++ piece)
      exact ⟨piece ++ text, SqlText.append hpiece htext, by rw [heq, append_assoc]⟩

theorem appendAll_full {whereSQL : Text} (h : whereSQL.length + 1 ≥ maxSQL) : ∀ pieces : List Text,
    appendAll whereSQL pieces = whereSQL
  | [] => rfl
  | piece :: pieces => by
    have hstep : rstrcat whereSQL piece maxSQL = whereSQL := by
      unfold rstrcat
      split
      · rfl
      · obtain rfl : piece = [] := List.length_eq_zero_iff.mp (by omega)
        exact append_nil _
    have hrest := appendAll_full h pieces
    unfold appendAll at hrest ⊢
    rw [List.foldl_cons, hstep, hrest]

/-- What comes in front of the name of the column. -/
def columnFront (addAnd cast upper : Bool) : List Text :=
  (if addAnd then [" AND ".toList] else []) ++ (if cast then ["cast (".toList] else []) ++
    (if upper then ["upper (".toList] else [])

/-- What comes behind it. -/
def columnBack (cast upper : Bool) : List Text :=
  (if upper then [" )".toList] else []) ++ (if cast then [" as decimal)".toList] else [])

theorem catWhere_run (src : Text) (c : Cond) :
    Cond.catWhere src c = .ok () { c with whereSQL := appendAll c.whereSQL [src] } := rfl

theorem addWhereField_appends (table : Table) (column : Column) (cast : Bool) (q : Query) :
    Query.addWhereField table column cast q = .ok () { q with cond := { q.cond with
      whereSQL := appendAll q.cond.whereSQL (columnFront (decide (q.cond.whereSQL.length > 6)) cast q.doUpperCase ++
        ([table.tableName] ++ [".".toList] ++ [column.columnName] ++ columnBack cast q.doUpperCase)) } } := by
  unfold Query.addWhereField columnFront columnBack
  refine (get_bind _ q).trans ?_
  refine Query.onCond_ok.mpr ⟨_, ?_, rfl⟩
  refine (get_bind _ q.cond).trans ?_
  simp only [appendAll_append]
  by_cases hlen : q.cond.whereSQL.length > 6 <;> cases hup : q.doUpperCase <;> cases cast
  all_goals
    simp only [hlen, catWhere_bind, catWhere_run, appendAll_nil, Bool.false_eq_true, if_false, if_true,
      decide_true, decide_false]
    try rfl

/-- Whatever of the column fits, the text can be cut behind the AND it begins with. -/
theorem appendAll_front {rest : List Text}
    (hrest : ∀ whereSQL, ∃ text, appendAll whereSQL rest = whereSQL ++ text ∧ Cond.CutsWell S text) :
    ∀ {front : List Text}, (∀ p ∈ front, p = " AND ".toList ∨
      p ∈ fragments ∧ ∃ ch text, p = ch :: text ∧ ch ≠ ' ' ∧ ch ≠ 'A') → ∀ whereSQL : Text,
      ∃ text, appendAll whereSQL (front ++ rest) = whereSQL ++ text ∧ Cond.CutsWell S text
  | [], _, whereSQL => hrest whereSQL
  | piece :: front, hall, whereSQL => by
    obtain ⟨hpiece, hfront⟩ := forall_mem_cons.mp hall
    have hstep : appendAll whereSQL (piece :: front ++ rest) =
        appendAll (rstrcat whereSQL piece maxSQL) (front ++ rest) := rfl
    rw [hstep, rstrcat]
    split
    · exact appendAll_front hrest hfront whereSQL
    · obtain ⟨text, heq, htext⟩ := appendAll_front hrest hfront (whereSQL ++ piece)
      refine ⟨piece ++ text, by rw [heq, append_assoc], ?_⟩
      obtain rfl | ⟨hfragment, ch, tail, rfl, hblank, hand⟩ := hpiece
      · exact .and htext.1
      · exact .cons (SqlText.append (.fragment hfragment) htext.1) hblank hand

theorem columnFront_cuts (addAnd cast upper : Bool) : ∀ p ∈ columnFront addAnd cast upper,
    p = " AND ".toList ∨ p ∈ fragments ∧ ∃ ch text, p = ch :: text ∧ ch ≠ ' ' ∧ ch ≠ 'A' := by
  have hcases : ∀ p ∈ columnFront addAnd cast upper,
      p = " AND ".toList ∨ p = "cast (".toList ∨ p = "upper (".toList := by
    cases addAnd <;> cases cast <;> cases upper <;> decide
  intro p hp
  obtain rfl | rfl | rfl := hcases p hp
  · exact .inl rfl
  · exact .inr ⟨by decide, 'c', _, rfl, by decide, by decide⟩
  · exact .inr ⟨by decide, 'u', _, rfl, by decide, by decide⟩

theorem columnBack_text (cast upper : Bool) : ∀ p ∈ columnBack cast upper, p ∈ SqlText S := by
  have hmem : ∀ p ∈ columnBack cast upper, p ∈ fragments := by cases cast <;> cases upper <;> decide
  exact fun p hp => .fragment (hmem p hp)

variable {column : Column}

theorem appendAll_name {table : Table} (htable : table ∈ S.tables) (hcolumn : column ∈ S.columns) (cast upper : Bool)
    (whereSQL : Text) : ∃ text,
    appendAll whereSQL ([table.tableName] ++ [".".toList] ++ [column.columnName] ++ columnBack cast upper) =
      whereSQL ++ text ∧ Cond.CutsWell S text := by
  -- once the point does not fit, nothing else does
  have hpoint : ∀ w : Text, ∃ text ∈ SqlText S, (text = [] ∨ ∃ r, text = '.' :: r) ∧
      appendAll w (".".toList :: column.columnName :: columnBack cast upper) = w ++ text := by
    intro w
    by_cases hfull : w.length + 1 ≥ maxSQL
    · exact ⟨[], .nil, .inl rfl, by rw [appendAll_full hfull, append_nil]⟩
    · have hfits : appendAll w (".".toList :: column.columnName :: columnBack cast upper) =
          appendAll (w ++ ['.']) (column.columnName :: columnBack cast upper) := by
        show appendAll (rstrcat w ['.'] maxSQL) _ = _
        rw [rstrcat, if_neg (by simpa [Nat.add_comm] using hfull)]
      have hback : ∀ p ∈ column.columnName :: columnBack cast upper, p ∈ SqlText S :=
        forall_mem_cons.mpr ⟨.word (.columnName hcolumn), columnBack_text cast upper⟩
      obtain ⟨text, htext, heq⟩ := appendAll_text hback (w ++ ['.'])
      refine ⟨'.' :: text, SqlText.append (s := ['.']) (.fragment (by decide)) htext, .inr ⟨text, rfl⟩, ?_⟩
      rw [hfits, heq, append_assoc]
      rfl
  have hstep : appendAll whereSQL ([table.tableName] ++ [".".toList] ++ [column.columnName] ++ columnBack cast upper) =
      appendAll (rstrcat whereSQL table.tableName maxSQL)
        (".".toList :: column.columnName :: columnBack cast upper) := rfl
  rw [hstep, rstrcat]
  split
  · obtain ⟨text, htext, hbegins, heq⟩ := hpoint whereSQL
    refine ⟨text, heq, ?_⟩
    obtain rfl | ⟨r, rfl⟩ := hbegins
    · exact .nil
    · exact .cons htext (by decide) (by decide)
  · obtain ⟨text, htext, hbegins, heq⟩ := hpoint (whereSQL ++ table.tableName)
    exact ⟨table.tableName ++ text, by rw [heq, append_assoc], .tableName htable htext hbegins⟩

/-! ## One condition -/

namespace Cond

/-- One blank is skipped, if there is one. -/
theorem skipBlank (front text : Text) : ∃ n rest, text = List.replicate n ' ' ++ rest ∧
    (if (front ++ text).getD front.length '\x00' = ' ' then front.length + 1 else front.length) =
      (front ++ List.replicate n ' ').length := by
  rw [List.getD_append_right _ _ _ _ (le_refl _), Nat.sub_self]
  cases text with
  | nil => exact ⟨0, [], rfl, by simp⟩
  | cons ch text =>
    rw [List.getD_cons_zero]
    split
    · rename_i hblank
      subst hblank
      exact ⟨1, text, rfl, by simp⟩
    · exact ⟨0, ch :: text, rfl, by simp⟩

theorem begins_and (ha : text.getD 0 '\x00' = 'A') (hn : text.getD 1 '\x00' = 'N') (hd : text.getD 2 '\x00' = 'D') :
    ∃ rest, text = "AND".toList ++ rest := by
  match text with
  | [] => exact absurd ha (by decide)
  | [_] => exact absurd (show '\x00' = 'N' from hn) (by decide)
  | [_, _] => exact absurd (show '\x00' = 'D' from hd) (by decide)
  | _ :: _ :: _ :: rest =>
    obtain rfl : _ = 'A' := ha
    obtain rfl : _ = 'N' := hn
    obtain rfl : _ = 'D' := hd
    exact ⟨rest, rfl⟩

/-- Where a compound condition cuts the text that was appended for it. -/
theorem skipAnd_cases (front text : Text) : skipAnd (front ++ text) front.length = front.length ∨
    ∃ n rest, text = leadingAnd n ++ rest ∧
      skipAnd (front ++ text) front.length = (front ++ leadingAnd n).length := by
  obtain ⟨n₁, rest₁, rfl, hskip₁⟩ := skipBlank front text
  obtain ⟨n₂, rest₂, rfl, hskip₂⟩ := skipBlank (front ++ List.replicate n₁ ' ') rest₁
  have hat : ∀ (w t : Text) (i : Nat), (w ++ t).getD (w.length + i) '\x00' = t.getD i '\x00' := by
    intro w t i
    rw [List.getD_append_right _ _ _ _ (Nat.le_add_right _ _), Nat.add_sub_cancel_left]
  unfold skipAnd
  dsimp only
  rw [hskip₁, ← append_assoc, hskip₂]
  split
  · rename_i hand
    obtain ⟨ha, hn, hd⟩ := hand
    rw [← append_assoc] at ha hn hd
    rw [hat] at hn hd
    obtain ⟨rest, rfl⟩ := begins_and ((hat _ _ 0).symm.trans ha) hn hd
    refine .inr ⟨n₁ + n₂, rest, ?_, ?_⟩
    · rw [leadingAnd, ← List.replicate_append_replicate, append_assoc, append_assoc]
    · simp only [leadingAnd, List.length_append, List.length_replicate]
      show _ = _ + (_ + 3)
      omega
  · exact .inl rfl

variable {front condition : Text}

theorem handleCompoundCondition_text (hfront : front ∈ SqlText S) (htext : CutsWell S text)
    (hc : c.whereSQL = "where ".toList ++ front ++ text)
    (h : handleCompoundCondition condition ("where ".toList ++ front).length c = .ok u c') : WhereText S c' := by
  unfold handleCompoundCondition at h
  rw [bind_ok] at h
  obtain ⟨c₀, c₁, hget, h⟩ := h
  obtain ⟨rfl, rfl⟩ := get_ok.mp hget
  rw [bind_ok] at h
  obtain ⟨_, c₂, hset, h⟩ := h
  obtain rfl := set_ok.mp hset
  rw [hc] at h
  have hloop : ∀ {tabAndColumn : Text}, tabAndColumn ∈ SqlText S → OkRel (TextKept S)
      (catWhere " ( ".toList >>= fun _ => compoundLoop tabAndColumn (condition.length + 1) condition >>= fun _ =>
        catWhere " ) ".toList) := fun htab =>
    .bind textKept_trans (catWhere_fragment (by decide)) fun _ =>
      .bind textKept_trans (compoundLoop_text htab _ _) fun _ => catWhere_fragment (by decide)
  obtain hskip | ⟨n, rest, rfl, hskip⟩ := skipAnd_cases ("where ".toList ++ front) text
  · rw [hskip, List.take_left, drop_left] at h
    exact (hloop htext.1).apply h ⟨front, hfront, rfl⟩
  · obtain ⟨hand, hrest⟩ := htext.2 n rest rfl
    rw [hskip, ← append_assoc, List.take_left, drop_left] at h
    exact (hloop hrest).apply h ⟨front ++ leadingAnd n, SqlText.append hfront hand, append_assoc _ _ _⟩

theorem insertCondition_text (hfront : front ∈ SqlText S) (htext : CutsWell S text)
    (hc : c.whereSQL = "where ".toList ++ front ++ text)
    (h : insertCondition condition ("where ".toList ++ front).length c = .ok u c') : WhereText S c' := by
  unfold insertCondition at h
  rw [bind_ok] at h
  obtain ⟨compound, c₁, hspec, h⟩ := h
  obtain ⟨rfl, -⟩ := Query.compoundConditionSpecified_ok hspec
  split at h
  · exact handleCompoundCondition_text hfront htext hc h
  · refine (insertWhere_text condition).apply h ⟨front ++ text, SqlText.append hfront htext.1, ?_⟩
    rw [hc, append_assoc]

end Cond

namespace Query

variable {session : Session}

variable {inx : Int}

theorem lookup_mem {i : Nat} (h : lookup S inx = some (column, i)) : column ∈ S.columns ∧ S.table i ∈ S.tables := by
  unfold lookup at h
  split at h
  · cases h
  · rename_i found hfound
    obtain ⟨j, hj, heq⟩ := Option.map_eq_some_iff.mp h
    obtain ⟨rfl, rfl⟩ := Prod.mk.inj heq
    refine ⟨List.mem_reverse.mp (List.mem_of_find?_eq_some hfound), ?_⟩
    obtain ⟨hlt, -⟩ := List.findIdx?_eq_some_iff_getElem.mp hj
    rw [Schema.table, List.getD_eq_getElem _ _ hlt]
    exact List.getElem_mem hlt

/-- A condition goes on with the WHERE part, and changes no other text of the statement. -/
theorem addCondition_text {start st : Nat} {value : Text} {q q' : Query} (hq : WhereText S q.cond)
    (h : addCondition S session start inx value q = .ok st q') :
    WhereText S q'.cond ∧ q' = { q with flag := q'.flag, nToFind := q'.nToFind, cond := q'.cond } := by
  rw [addCondition_eq, bind_ok] at h
  obtain ⟨q₀, q₁, hget, h⟩ := h
  obtain ⟨rfl, rfl⟩ := get_ok.mp hget
  obtain ⟨t, q₂, hset, h⟩ := bind_ok.mp h
  obtain ⟨_, q₃, hcond, h⟩ := bind_ok.mp h
  obtain ⟨_, q₄, haudit, h⟩ := bind_ok.mp h
  obtain ⟨-, rfl⟩ := pure_ok.mp h
  obtain rfl := checkAudit_ok haudit
  unfold setTable at hset
  cases hlookup : lookup S inx with
  | none =>
    simp only [hlookup] at hset
    exact absurd hset not_throw_ok
  | some found =>
    obtain ⟨hcolumn, htable⟩ := lookup_mem hlookup
    simp only [hlookup] at hset
    obtain ⟨_, q₅, hrequest, hset⟩ := bind_ok.mp hset
    obtain rfl := modify_ok.mp hrequest
    simp only [Bool.false_eq_true, if_false] at hset
    obtain ⟨_, q₆, hfield, hset⟩ := bind_ok.mp hset
    rw [addWhereField_appends] at hfield
    obtain ⟨-, rfl⟩ := pure_ok.mp hset
    obtain ⟨c, hc, rfl⟩ := onCond_ok.mp hcond
    cases hfield
    obtain ⟨front, hfront, hwhere⟩ := hq
    obtain ⟨text, heq, htext⟩ := appendAll_front (appendAll_name htable hcolumn (castOption value).1 q₁.doUpperCase)
      (columnFront_cuts (decide (q₁.cond.whereSQL.length > 6)) (castOption value).1 q₁.doUpperCase) q₁.cond.whereSQL
    refine ⟨?_, rfl⟩
    rw [hwhere] at heq hc
    exact Cond.insertCondition_text hfront htext heq hc

theorem addConditions_text : ∀ {conds : List (Int × Text)} {start st : Nat} {q q' : Query},
    WhereText S q.cond → addConditions S session start conds q = .ok st q' →
    WhereText S q'.cond ∧ q' = { q with flag := q'.flag, nToFind := q'.nToFind, cond := q'.cond }
  | [], _, _, _, _, hq, h => by
    obtain ⟨-, rfl⟩ := pure_ok.mp h
    exact ⟨hq, rfl⟩
  | (inx, value) :: conds, _, _, _, _, hq, h => by
    rw [addConditions, bind_ok] at h
    obtain ⟨st₁, q₁, hcond, h⟩ := h
    obtain ⟨hq₁, hsame₁⟩ := addCondition_text hq hcond
    obtain ⟨hq₂, hsame₂⟩ := addConditions_text hq₁ h
    refine ⟨hq₂, hsame₂.trans ?_⟩
    rw [hsame₁]

/-! ## The whole query -/

/-- The same request with empty conditions. -/
def withoutText (inp : GenQueryInp) : GenQueryInp :=
  { inp with sqlCondInp := inp.sqlCondInp.map fun cond => (cond.1, []) }

/-- What `generateSQL` does behind the conditions. -/
def afterConditions (S : Schema) (session : Session) (inp : GenQueryInp) (startingTable : Nat) : QueryM Text := do
  linkTables S startingTable
  handleMultiConditions inp
  combine S session inp

/-- It only looks at the columns of the conditions. -/
theorem afterConditions_withoutText (S : Schema) (session : Session) (inp : GenQueryInp) (startingTable : Nat) :
    afterConditions S session (withoutText inp) startingTable = afterConditions S session inp startingTable := by
  have hcount : ∀ column, countConditions (withoutText inp) column = countConditions inp column := by
    intro column
    unfold countConditions withoutText
    rw [List.countP_map]
    rfl
  have hmulti : handleMultiConditions (withoutText inp) = handleMultiConditions inp := by
    unfold handleMultiConditions
    simp only [hcount]
  unfold afterConditions
  rw [hmulti]
  rfl

/-- The conditions of an accepted query add such a text to the WHERE part and change no other
text, and the statement is put together from there without them. -/
theorem conditions_contribute {inp : GenQueryInp} {q₀ q' : Query} {sql : Text}
    (h : generateSQL S session inp q₀ = .ok sql q') :
    ∃ st₁ q₁ st₂ q₂ text, selectColumns S session 0 inp.selectInp (start inp q₀) = .ok st₁ q₁ ∧
      addConditions S session st₁ inp.sqlCondInp q₁ = .ok st₂ q₂ ∧
      q₁.cond.whereSQL = "where ".toList ∧
      q₂.cond.whereSQL = "where ".toList ++ text ∧ text ∈ SqlText S ∧
      q₂ = { q₁ with flag := q₂.flag, nToFind := q₂.nToFind, cond := q₂.cond } ∧
      afterConditions S session (withoutText inp) st₂ q₂ = .ok sql q' := by
  unfold generateSQL at h
  obtain ⟨_, q, hstart, h⟩ := bind_ok.mp h
  obtain rfl := modify_ok.mp hstart
  obtain ⟨st₂, q₂, hrequest, hrest⟩ := bind_ok.mp h
  unfold requestColumns at hrequest
  obtain ⟨st₁, q₁, hselect, hconds⟩ := bind_ok.mp hrequest
  have hcond : q₁.cond = (start inp q₀).cond := (selectColumns_sameCond S session _ _).ok hselect
  have hwhere : q₁.cond.whereSQL = "where ".toList := by
    rw [hcond]
    rfl
  obtain ⟨⟨text, htext, heq⟩, hsame⟩ := addConditions_text ⟨[], .nil, by rw [hwhere, append_nil]⟩ hconds
  refine ⟨st₁, q₁, st₂, q₂, text, hselect, hconds, hwhere, heq, htext, hsame, ?_⟩
  rw [afterConditions_withoutText]
  exact hrest

end Query

end GenQuery
