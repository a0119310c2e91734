-- SUMMARY: Queues addressed by a hash of the key.
import Mathlib.Data.List.Basic
import Mathlib.Logic.Function.Basic

/-!
# Hashed queues

A table holds one queue per hash slot; a record with key `k` is queued in slot
`slot k`. Records are appended at the bottom, looked up and removed from the top,
and expire from the top. What a user of key `k` can see of the table is
`entries k`: the records with that key in their slot, in queue order. Each
operation below is described by what it does to `entries`.
-/

namespace HashQueues

open Function (update update_of_ne update_self)

variable {ι κ α : Type*} [DecidableEq ι] [DecidableEq κ]
variable (key : α → κ) (slot : κ → ι)

/-- The records with key `k`, from the top of their queue. -/
def entries (q : ι → List α) (k : κ) : List α := (q (slot k)).filter fun a => key a = k

/-- The first record with key `k`. -/
def find (q : ι → List α) (k : κ) : Option α := (q (slot k)).find? fun a => key a = k

/-- Queue a record at the bottom of its slot. -/
def push (q : ι → List α) (a : α) : ι → List α :=
  update q (slot (key a)) (q (slot (key a)) ++ [a])

/-- Take the first record with key `k` out of its queue. -/
def remove (q : ι → List α) (k : κ) : ι → List α :=
  update q (slot k) ((q (slot k)).eraseP fun a => key a = k)

/-- Change the first record that satisfies `p`. -/
def modifyFirst (p : α → Bool) (f : α → α) : List α → List α
  | [] => []
  | a :: as => if p a then f a :: as else a :: modifyFirst p f as

/-- Change the first record with key `k` in place. -/
def modify (q : ι → List α) (k : κ) (f : α → α) : ι → List α :=
  update q (slot k) (modifyFirst (fun a => key a = k) f (q (slot k)))

/-- Drop the expired records at the top of one slot. -/
def expire (old : α → Bool) (q : ι → List α) (i : ι) : ι → List α :=
  update q i ((q i).dropWhile old)

variable {key slot}

omit [DecidableEq ι] in
theorem mem_entries {q : ι → List α} {k : κ} {a : α} :
    a ∈ entries key slot q k ↔ a ∈ q (slot k) ∧ key a = k := by
  simp [entries]

omit [DecidableEq ι] in
theorem find_eq_head? (q : ι → List α) (k : κ) :
    find key slot q k = (entries key slot q k).head? := by
  simp [find, entries, List.head?_filter]

theorem entries_push (q : ι → List α) (a : α) (k : κ) :
    entries key slot (push key slot q a) k =
      if key a = k then entries key slot q k ++ [a] else entries key slot q k := by
  unfold entries push
  by_cases hk : key a = k
  · subst hk
    simp
  · rw [if_neg hk]
    by_cases hs : slot k = slot (key a)
    · simp [hs, hk]
    · rw [update_of_ne hs]

private theorem filter_eraseP_self (p : α → Bool) (l : List α) :
    (l.eraseP p).filter p = (l.filter p).tail := by
  induction l with
  | nil => rfl
  | cons a l ih =>
    by_cases h : p a = true
    · simp [h]
    · simp [h, ih]

variable {p r : α → Bool}

private theorem filter_eraseP_of_disjoint (h : ∀ a, p a = true → r a = false) (l : List α) :
    (l.eraseP p).filter r = l.filter r := by
  induction l with
  | nil => rfl
  | cons a l ih =>
    by_cases hp : p a = true
    · simp [hp, h a hp]
    · rw [List.eraseP_cons_of_neg hp, List.filter_cons, List.filter_cons, ih]

theorem entries_remove (q : ι → List α) (k k' : κ) :
    entries key slot (remove key slot q k) k' =
      if k' = k then (entries key slot q k).tail else entries key slot q k' := by
  unfold entries remove
  by_cases hk : k' = k
  · subst hk
    simp [filter_eraseP_self]
  · rw [if_neg hk]
    by_cases hs : slot k' = slot k
    · rw [hs, update_self]
      apply filter_eraseP_of_disjoint
      intro a ha
      have : key a = k := by simpa using ha
      simp [this, Ne.symm hk]
    · rw [update_of_ne hs]

variable {l : List α} {old : α → Bool}

private theorem filter_dropWhile_of_fresh (h : ∀ a ∈ l, p a = true → old a = false) :
    (l.dropWhile old).filter p = l.filter p := by
  induction l with
  | nil => rfl
  | cons a l ih =>
    have ih' := ih fun b hb => h b (List.mem_cons_of_mem a hb)
    by_cases ho : old a = true
    · have hp : p a = false := by
        by_contra hp
        have := h a List.mem_cons_self (by simpa using hp)
        simp [ho] at this
      simp [ho, hp, ih']
    · simp [ho]

/-- Expiry only takes records away, from the top. -/
theorem entries_expire_suffix (old : α → Bool) (q : ι → List α) (i : ι) (k : κ) :
    entries key slot (expire old q i) k <:+ entries key slot q k := by
  unfold entries expire
  by_cases hs : slot k = i
  · subst hs
    rw [update_self]
    exact (List.dropWhile_suffix old).filter _
  · rewrite [update_of_ne hs]
    exact List.suffix_rfl

variable {q : ι → List α}

/-- Expiry leaves a key alone whose records are all fresh. -/
theorem entries_expire_of_fresh {k : κ} (h : ∀ a ∈ entries key slot q k, old a = false) (i : ι) :
    entries key slot (expire old q i) k = entries key slot q k := by
  unfold entries expire
  by_cases hs : slot k = i
  · subst hs
    rw [update_self]
    apply filter_dropWhile_of_fresh
    intro a ha hp
    exact h a (mem_entries.mpr ⟨ha, by simpa using hp⟩)
  · rw [update_of_ne hs]

variable {f : α → α}

private theorem filter_modifyFirst_self (hf : ∀ a, p (f a) = p a) (l : List α) :
    (modifyFirst p f l).filter p = (l.filter p).modifyHead f := by
  induction l with
  | nil => rfl
  | cons a l ih =>
    by_cases h : p a = true
    · simp [modifyFirst, h, hf]
    · simp [modifyFirst, h, ih]

private theorem filter_modifyFirst_of_disjoint (hr : ∀ a, p a = true → r a = false) (hf : ∀ a, r (f a) = r a)
    (l : List α) : (modifyFirst p f l).filter r = l.filter r := by
  induction l with
  | nil => rfl
  | cons a l ih =>
    by_cases h : p a = true
    · simp [modifyFirst, h, hf, hr a h]
    · rw [modifyFirst, if_neg h, List.filter_cons, List.filter_cons, ih]

theorem entries_modify (q : ι → List α) (k k' : κ) {f : α → α} (hf : ∀ a, key (f a) = key a) :
    entries key slot (modify key slot q k f) k' =
      if k' = k then (entries key slot q k).modifyHead f else entries key slot q k' := by
  unfold entries modify
  by_cases hk : k' = k
  · subst hk
    rw [if_pos rfl, update_self]
    exact filter_modifyFirst_self (by simp [hf]) _
  · rw [if_neg hk]
    by_cases hs : slot k' = slot k
    · rw [hs, update_self]
      apply filter_modifyFirst_of_disjoint
      · intro a ha
        have : key a = k := by simpa using ha
        simp [this, Ne.symm hk]
      · simp [hf]
    · rw [update_of_ne hs]

/-! ## What a queue can hold afterwards -/

omit [DecidableEq κ] in
theorem mem_push {q : ι → List α} {a b : α} {i : ι} (h : b ∈ push key slot q a i) :
    b ∈ q i ∨ b = a ∧ i = slot (key a) := by
  unfold push at h
  by_cases hi : i = slot (key a)
  · subst hi
    simpa using h
  · rw [update_of_ne hi] at h
    exact .inl h

theorem mem_remove {q : ι → List α} {k : κ} {b : α} {i : ι} (h : b ∈ remove key slot q k i) : b ∈ q i := by
  unfold remove at h
  by_cases hi : i = slot k
  · subst hi
    rw [update_self] at h
    exact List.mem_of_mem_eraseP h
  · rwa [update_of_ne hi] at h

variable {b : α}

theorem mem_expire {i j : ι} (h : b ∈ expire old q j i) : b ∈ q i := by
  unfold expire at h
  by_cases hi : i = j
  · subst hi
    rw [update_self] at h
    exact (List.dropWhile_suffix old).subset h
  · rwa [update_of_ne hi] at h

private theorem mem_modifyFirst (h : b ∈ modifyFirst p f l) : b ∈ l ∨ ∃ a ∈ l, p a = true ∧ b = f a := by
  induction l with
  | nil => exact .inl h
  | cons a l ih =>
    unfold modifyFirst at h
    split at h
    · rename_i hp
      obtain rfl | hmem := List.mem_cons.mp h
      · exact .inr ⟨a, List.mem_cons_self, hp, rfl⟩
      · exact .inl (List.mem_cons_of_mem a hmem)
    · obtain rfl | hmem := List.mem_cons.mp h
      · exact .inl List.mem_cons_self
      · obtain hl | ⟨a', ha', hp, hb⟩ := ih hmem
        · exact .inl (List.mem_cons_of_mem a hl)
        · exact .inr ⟨a', List.mem_cons_of_mem a ha', hp, hb⟩

theorem mem_modify {q : ι → List α} {k : κ} {f : α → α} {b : α} {i : ι}
    (h : b ∈ modify key slot q k f i) :
    b ∈ q i ∨ i = slot k ∧ ∃ a ∈ q i, key a = k ∧ b = f a := by
  unfold modify at h
  by_cases hi : i = slot k
  · subst hi
    rw [update_self] at h
    obtain hl | ⟨a, ha, hp, hb⟩ := mem_modifyFirst h
    · exact .inl hl
    · exact .inr ⟨rfl, a, ha, by simpa using hp, hb⟩
  · rw [update_of_ne hi] at h
    exact .inl h

end HashQueues
