-- SUMMARY: The pattern of the like operator and its translation.
import Irods.Base.CString
import Irods.Base.Regex

/-!
# The like operator

`wildCardToRegex` quotes each character of the pattern, except for `*`, which stands for any string. A
bracket or a caret is quoted by a backslash, everything else by brackets.
-/

namespace Like

open Regex

variable {p s e : Text} {c : Char}

/-! ## The code -/

/-- The buffer of `malloc`, as far as it is written. -/
structure Buffer where
  size : Nat
  written : Text

/-- `*(p++) = c` for each character; behind the buffer is undefined. -/
def Buffer.put (b : Buffer) (cs : Text) : Option Buffer :=
  if b.written.length + cs.length ≤ b.size then some { b with written := b.written ++ cs } else none

/-- The `switch` over a character of the pattern. -/
def quoted (c : Char) : Text :=
  if c = '*' then ['.', c]
  else if c = ']' ∨ c = '[' ∨ c = '^' then ['\\', c]
  else ['[', c, ']']

/-- The expression with its terminator. -/
def wildCardToRegex (buf : Text) : Option Text := do
  let b ← (Buffer.mk (buf.length * 3 + 2 + 1) []).put ['^']
  let b ← buf.foldlM (fun b c => b.put (quoted c)) b
  let b ← b.put ['$']
  let b ← b.put ['\x00']
  return b.written

/-! ## Patterns -/

/-- The string is the pattern with a string in the place of each `*`. -/
inductive Obtained : Text → Text → Prop
  | nil : Obtained [] []
  | star {p s : Text} (x : Text) : Obtained p s → Obtained ('*' :: p) (x ++ s)
  | char {p s : Text} {c : Char} : c ≠ '*' → Obtained p s → Obtained (c :: p) (c :: s)

/-! ## The buffer -/

def quotedAll (p : Text) : Text := p.flatMap quoted

theorem length_quoted_le (c : Char) : (quoted c).length ≤ 3 := by
  unfold quoted
  split
  · exact Nat.le_succ 2
  · split
    · exact Nat.le_succ 2
    · exact Nat.le_refl 3

variable {size : Nat}

theorem put_fits {written cs : Text} (h : written.length + cs.length ≤ size) :
    (Buffer.mk size written).put cs = some ⟨size, written ++ cs⟩ := if_pos h

/-- Three characters for each one of the pattern are enough. -/
theorem put_quoted : ∀ {p written : Text}, written.length + p.length * 3 ≤ size →
    p.foldlM (fun b c => Buffer.put b (quoted c)) (Buffer.mk size written) = some ⟨size, written ++ quotedAll p⟩ := by
  intro p
  induction p with
  | nil =>
    intro written _
    simp [quotedAll]
  | cons c p ih =>
    intro written h
    have hle := length_quoted_le c
    rw [List.length_cons] at h
    rw [List.foldlM_cons, put_fits (by omega), Option.bind_eq_bind, Option.bind_some,
      ih (by rw [List.length_append]; omega), List.append_assoc]
    rfl

theorem length_quotedAll_le (p : Text) : (quotedAll p).length ≤ p.length * 3 := by
  induction p with
  | nil => exact Nat.le_refl 0
  | cons c p ih =>
    have hle := length_quoted_le c
    rw [quotedAll, List.flatMap_cons, List.length_append, List.length_cons]
    rw [quotedAll] at ih
    omega

theorem wildCardToRegex_eq (p : Text) : wildCardToRegex p = some ('^' :: (quotedAll p ++ ['$']) ++ ['\x00']) := by
  have hlen := length_quotedAll_le p
  simp only [wildCardToRegex, Option.bind_eq_bind, Option.pure_def]
  rw [put_fits (by simp), Option.bind_some, put_quoted (by simp; omega), Option.bind_some, put_fits (by simp; omega),
    Option.bind_some, put_fits (by simp; omega), Option.bind_some]
  simp

theorem nul_not_mem_quotedAll (hp : '\x00' ∉ p) : '\x00' ∉ quotedAll p := by
  rw [quotedAll, List.mem_flatMap]
  rintro ⟨c, hc, hmem⟩
  have hne : '\x00' ≠ c := fun h => hp (h ▸ hc)
  unfold quoted at hmem
  split at hmem
  · simp [hne] at hmem
  · split at hmem <;> simp [hne] at hmem

/-! ## How the expression is read -/

/-- What a character of the pattern is read as. -/
def itemOf (c : Char) : Item := if c = '*' then .many none else .once (some c)

def tokensOf (c : Char) : List Token := if c = '*' then [.any, .star] else [.char c]

theorem tokens_quoted (c : Char) (e : Text) : tokens (quoted c ++ e) = (tokens e).map (tokensOf c ++ ·) := by
  unfold quoted tokensOf
  split
  · subst_vars
    simp [tokens, Function.comp_def]
  · split
    case isTrue h =>
      rcases h with rfl | rfl | rfl <;> simp [tokens]
    case isFalse h =>
      rw [not_or, not_or] at h
      simp [tokens, h.1, h.2.2]

theorem tokens_quotedAll (p e : Text) : tokens (quotedAll p ++ e) = (tokens e).map (p.flatMap tokensOf ++ ·) := by
  induction p with
  | nil => simp [quotedAll]
  | cons c p ih =>
    rw [quotedAll, List.flatMap_cons, List.append_assoc, tokens_quoted, ← quotedAll, ih, Option.map_map]
    simp [Function.comp_def]

theorem items_tokensOf (p : Text) : items (p.flatMap tokensOf ++ [.stop]) = some ⟨false, p.map itemOf, true⟩ := by
  -- no quoted character starts with a star
  have hhead (p : Text) (ts : List Token) : p.flatMap tokensOf ++ [.stop] ≠ .star :: ts := by
    cases p with
    | nil => simp
    | cons c p =>
      rw [List.flatMap_cons, tokensOf]
      split <;> simp
  induction p with
  | nil => rfl
  | cons c p ih =>
    rw [List.flatMap_cons, List.map_cons, tokensOf, itemOf]
    split
    · simp only [List.cons_append, List.nil_append, items, ih]
      rfl
    · rw [List.append_assoc, List.singleton_append]
      cases hrest : p.flatMap tokensOf ++ [.stop] with
      | nil => simp at hrest
      | cons t ts =>
        have ht : t ≠ .star := fun ht => hhead p ts (by rw [hrest, ht])
        have hstep : items (.char c :: t :: ts) = (items (t :: ts)).map (.cons (.once (some c))) := by
          rw [items]
          intro ts' hts
          exact ht (List.cons.inj hts).1
        rw [hstep, ← hrest, ih]
        rfl

theorem regcomp_quotedAll (p : Text) : regcomp ('^' :: (quotedAll p ++ ['$'])) = some ⟨true, p.map itemOf, true⟩ := by
  have htokens : tokens ('^' :: (quotedAll p ++ ['$'])) = some (.start :: (p.flatMap tokensOf ++ [.stop])) := by
    rw [tokens, tokens_quotedAll]
    rfl
  rw [regcomp, htokens]
  simp only [items_tokensOf, Option.map_some]

/-- The items match the strings that are obtained from the pattern. -/
theorem mem_items_iff (p s : Text) : s ∈ itemsLang (p.map itemOf) ↔ Obtained p s := by
  induction p generalizing s with
  | nil =>
    constructor
    · rintro rfl
      exact .nil
    · rintro ⟨⟩
      rfl
  | cons c p ih =>
    rw [List.map_cons, itemOf]
    split
    case isTrue hc =>
      subst hc
      rw [mem_many]
      constructor
      · rintro ⟨x, y, rfl, hy⟩
        exact .star x ((ih y).mp hy)
      · intro h
        cases h with
        | star x h => exact ⟨x, _, rfl, (ih _).mpr h⟩
        | char hne h => exact absurd rfl hne
    case isFalse hc =>
      rw [mem_once]
      constructor
      · rintro ⟨y, rfl, hy⟩
        exact .char hc ((ih y).mp hy)
      · intro h
        cases h with
        | star x h => exact absurd rfl hc
        | char _ h => exact ⟨_, rfl, (ih _).mpr h⟩

/-- The expression fits its buffer, and it matches what is obtained from the pattern. -/
theorem wildCardToRegex_exact (p : Text) :
    ∃ e, wildCardToRegex p = some (e ++ ['\x00']) ∧ ('\x00' ∉ p → '\x00' ∉ e) ∧ ∀ s, Matches e s ↔ Obtained p s := by
  refine ⟨_, wildCardToRegex_eq p, fun hp => ?_, fun s => ?_⟩
  · simpa using nul_not_mem_quotedAll hp
  · rw [Matches, regcomp_quotedAll]
    simp only [Option.some.injEq, exists_eq_left', mem_anchored, mem_items_iff]

end Like
