-- SUMMARY: Doubly linked queues in a heap.
import Irods.Base.Chain

/-!
# Doubly linked queues

The nodes of all queues share two link fields; a queue is its head and its tail. A queue
holds a list when the links lead through the list in both directions. Pushing at either
end and unlinking a member change the links of the node and of its neighbours only, so
that queues without common nodes do not see each other.
-/

universe u

namespace LinkedQueue

open Function (update update_of_ne)
open List (append_of_mem nodup_append nodup_cons)
open Option (or_none)

/-- The link fields of the nodes, and the two ends of one queue. -/
structure Queue (α : Type u) where
  next : α → Option α
  prev : α → Option α
  head : Option α
  tail : Option α

variable {α : Type u}

/-- The links in both directions along a list, from its neighbour before to the one after. -/
def Linked (next prev : α → Option α) : Option α → List α → Option α → Prop
  | _, [], _ => True
  | b, x :: xs, a => prev x = b ∧ next x = xs.head?.or a ∧ Linked next prev (some x) xs a

/-- The queue holds the list. -/
structure Queue.Holds (q : Queue α) (l : List α) : Prop where
  nodup : l.Nodup
  head : q.head = l.head?
  tail : q.tail = l.getLast?
  linked : Linked q.next q.prev none l none

/-! ## Operations -/

section Operations

variable [DecidableEq α]

/-- A new node goes to the top. -/
def Queue.pushFront (q : Queue α) (x : α) : Queue α :=
  let q := { q with next := update q.next x none, prev := update q.prev x none }
  match q.head with
  | none => { q with head := some x, tail := some x }
  | some h =>
    { q with
      prev := update q.prev h (some x)
      next := update q.next x (some h)
      head := some x }

/-- A new node goes to the end; `none` when the tail of a queue that has a head is null. -/
def Queue.pushBack (q : Queue α) (x : α) : Option (Queue α) :=
  match q.head with
  | none =>
    some
      { head := some x
        tail := some x
        next := update q.next x none
        prev := update q.prev x none }
  | some _ =>
    q.tail.map fun t =>
      { q with
        next := update (update q.next t (some x)) x none
        prev := update q.prev x (some t)
        tail := some x }

/-- Takes a node out. -/
def Queue.unlink (q : Queue α) (x : α) : Queue α :=
  let q := match q.prev x with
    | none => { q with head := q.next x }
    | some p => { q with next := update q.next p (q.next x) }
  let q := match q.next x with
    | none => { q with tail := q.prev x }
    | some n => { q with prev := update q.prev n (q.prev x) }
  { q with next := update q.next x none, prev := update q.prev x none }

/-- Takes the first node, `x`, off the top. -/
def Queue.popFront (q : Queue α) (x : α) : Queue α :=
  match q.next x with
  | none => { q with head := none, tail := none }
  | some y => { q with head := some y, prev := update q.prev y none }

end Operations

/-! ## Links along a list -/

variable {next prev next' prev' : α → Option α} {b a b' a' : Option α} {l l₁ l₂ : List α}

theorem linked_nil : Linked next prev b [] a := trivial

theorem linked_append : Linked next prev b (l₁ ++ l₂) a ↔
    Linked next prev b l₁ (l₂.head?.or a) ∧ Linked next prev (l₁.getLast?.or b) l₂ a := by
  induction l₁ generalizing b with
  | nil => simp [Linked]
  | cons x xs ih =>
    have hlast : ((x :: xs).getLast?).or b = xs.getLast?.or (some x) := by
      cases xs with
      | nil => rfl
      | cons y ys => simp [List.getLast?_cons]
    have hhead : ((xs ++ l₂).head?).or a = xs.head?.or (l₂.head?.or a) := by
      cases xs <;> simp
    rw [List.cons_append, Linked, Linked, ih, hlast, hhead]
    tauto

theorem Linked.congr (h : Linked next prev b l a) (hnext : ∀ x ∈ l, next' x = next x)
    (hprev : ∀ x ∈ l, prev' x = prev x) : Linked next' prev' b l a := by
  induction l generalizing b with
  | nil => trivial
  | cons x xs ih =>
    obtain ⟨hb, ha, hrest⟩ := h
    exact ⟨(hprev x (by simp)).trans hb, (hnext x (by simp)).trans ha,
      ih hrest (fun y hy => hnext y (List.mem_cons_of_mem x hy))
        (fun y hy => hprev y (List.mem_cons_of_mem x hy))⟩

theorem Linked.path (h : Linked next prev b l none) : Chain.Path next l.head? l none := by
  induction l generalizing b with
  | nil => rfl
  | cons x xs ih =>
    obtain ⟨-, hnext, hrest⟩ := h
    refine ⟨rfl, ?_⟩
    rw [hnext, or_none]
    exact ih hrest

/-- The link back is the inverse of the link forth. -/
theorem Linked.prev_iff (h : Linked next prev none l none) (hnodup : l.Nodup) {x y : α}
    (hx : x ∈ l) (hy : y ∈ l) : prev y = some x ↔ next x = some y := by
  obtain ⟨l₁, l₂, rfl⟩ := append_of_mem hx
  obtain ⟨h₁, hprevx, hnextx, h₂⟩ := linked_append.1 h
  constructor
  · intro hprev
    rcases List.mem_append.mp hy with hy₁ | hy₂
    · -- a node before `x` points back to one before itself
      obtain ⟨k₁, k₂, rfl⟩ := append_of_mem hy₁
      obtain ⟨-, hprevy, -⟩ := linked_append.1 h₁
      rw [hprevy, or_none] at hprev
      have hmem : x ∈ k₁ := List.mem_of_getLast? hprev
      simp only [List.append_assoc, List.cons_append, nodup_append] at hnodup
      exact absurd rfl (hnodup.2.2 x hmem x (by simp))
    · rcases List.mem_cons.mp hy₂ with rfl | hy₂
      · rw [hprevx, or_none] at hprev
        have hmem : y ∈ l₁ := List.mem_of_getLast? hprev
        exact absurd rfl ((nodup_append.mp hnodup).2.2 y hmem y (by simp))
      · obtain ⟨k₁, k₂, rfl⟩ := append_of_mem hy₂
        obtain ⟨-, hprevy, -⟩ := linked_append.1 h₂
        rw [hprevy] at hprev
        cases hk : k₁.getLast? with
        | none =>
          obtain rfl := List.getLast?_eq_none_iff.mp hk
          exact hnextx
        | some z =>
          rw [hk, Option.some_or, Option.some.injEq] at hprev
          subst hprev
          have hmem : z ∈ k₁ := List.mem_of_getLast? hk
          have := (nodup_append.mp hnodup).2.1
          simp [hmem] at this
  · intro hnext
    rw [hnextx] at hnext
    cases l₂ with
    | nil => simp at hnext
    | cons z zs =>
      obtain rfl : z = y := by simpa using hnext
      exact h₂.1

variable [DecidableEq α]

theorem Linked.set_after {z : α} (h : Linked next prev b (l ++ [z]) a) (a' : Option α) (hz : z ∉ l) :
    Linked (update next z a') prev b (l ++ [z]) a' := by
  obtain ⟨hl, hprev, -, -⟩ := linked_append.1 h
  refine linked_append.2 ⟨hl.congr (fun x hx => ?_) (fun _ _ => rfl), hprev, by simp, trivial⟩
  exact update_of_ne (ne_of_mem_of_not_mem hx hz) _ _

theorem Linked.set_before {z : α} (h : Linked next prev b (z :: l) a) (hz : z ∉ l) :
    Linked next (update prev z b') b' (z :: l) a := by
  obtain ⟨-, hnext, hrest⟩ := h
  refine ⟨by simp, hnext, hrest.congr (fun _ _ => rfl) (fun x hx => ?_)⟩
  exact update_of_ne (ne_of_mem_of_not_mem hx hz) _ _

/-! ## What the operations hold -/

namespace Queue

variable {q q' : Queue α} {x : α}

omit [DecidableEq α] in
theorem Holds.path (h : q.Holds l) : Chain.Path q.next q.head l none := by
  rw [h.head]
  exact h.linked.path

omit [DecidableEq α] in
/-- A queue whose nodes keep their links holds what it held. -/
theorem Holds.congr (h : q.Holds l) (hhead : q'.head = q.head) (htail : q'.tail = q.tail)
    (hnext : ∀ y ∈ l, q'.next y = q.next y) (hprev : ∀ y ∈ l, q'.prev y = q.prev y) :
    q'.Holds l :=
  ⟨h.nodup, hhead.trans h.head, htail.trans h.tail, h.linked.congr hnext hprev⟩

/-- The links of the other nodes are the same. -/
def SameOff (l : List α) (q q' : Queue α) : Prop :=
  ∀ y, y ∉ l → q'.next y = q.next y ∧ q'.prev y = q.prev y

omit [DecidableEq α] in
/-- A queue with the links of another one. -/
theorem Holds.disjoint {head tail : Option α} {l' : List α}
    (h : Holds ⟨q.next, q.prev, head, tail⟩ l') (hsame : SameOff l q q')
    (hdisj : l'.Disjoint l) : Holds ⟨q'.next, q'.prev, head, tail⟩ l' :=
  h.congr rfl rfl (fun y hy => (hsame y (hdisj hy)).1) (fun y hy => (hsame y (hdisj hy)).2)

theorem Holds.pushFront (h : q.Holds l) (hx : x ∉ l) : (q.pushFront x).Holds (x :: l) := by
  have hnodup : (x :: l).Nodup := nodup_cons.mpr ⟨hx, h.nodup⟩
  cases l with
  | nil =>
    have hhead : q.head = none := h.head
    simp only [Queue.pushFront, hhead]
    exact ⟨hnodup, rfl, rfl, by simp [Linked]⟩
  | cons y ys =>
    have hhead : q.head = some y := h.head
    have hne : y ≠ x := fun heq => hx (by simp [heq])
    have hys : y ∉ ys := (nodup_cons.mp h.nodup).1
    simp only [Queue.pushFront, hhead]
    refine ⟨hnodup, rfl, ?_, ?_⟩
    · rw [h.tail, List.getLast?_cons_cons]
    · refine ⟨by simp [hne.symm], by simp, ?_⟩
      have hold : Linked q.next q.prev none (y :: ys) none := h.linked
      refine (hold.set_before hys).congr (fun z hz => ?_) (fun z hz => ?_)
      · have hzx : z ≠ x := ne_of_mem_of_not_mem hz hx
        simp [hzx]
      · have hzx : z ≠ x := ne_of_mem_of_not_mem hz hx
        by_cases hzy : z = y
        · simp [hzy]
        · simp [hzy, hzx]

theorem sameOff_pushFront (h : q.Holds l) : SameOff (x :: l) q (q.pushFront x) := by
  intro y hy
  obtain ⟨hyx, hyl⟩ : y ≠ x ∧ y ∉ l := by simpa [not_or] using hy
  cases l with
  | nil =>
    have hhead : q.head = none := h.head
    simp [Queue.pushFront, hhead, hyx]
  | cons z zs =>
    have hhead : q.head = some z := h.head
    have hyz : y ≠ z := fun heq => hyl (by simp [heq])
    simp [Queue.pushFront, hhead, hyx, hyz]

theorem Holds.pushBack (h : q.Holds l) (hx : x ∉ l) :
    ∃ q', q.pushBack x = some q' ∧ q'.Holds (l ++ [x]) ∧ SameOff (l ++ [x]) q q' := by
  have hnodup : (l ++ [x]).Nodup := by
    rw [nodup_append]
    exact ⟨h.nodup, by simp, fun y hy z hz => by
      obtain rfl : z = x := by simpa using hz
      exact ne_of_mem_of_not_mem hy hx⟩
  rcases List.eq_nil_or_concat' l with rfl | ⟨ys, y, rfl⟩
  · have hhead : q.head = none := h.head
    have hrun : q.pushBack x = some
        { head := some x
          tail := some x
          next := update q.next x none
          prev := update q.prev x none } := by
      simp only [Queue.pushBack, hhead]
    refine ⟨_, hrun, ⟨hnodup, rfl, rfl, by simp [Linked]⟩, ?_⟩
    intro y hy
    have hyx : y ≠ x := by simpa using hy
    simp [hyx]
  · obtain ⟨top, hhead⟩ : ∃ top, q.head = some top := by
      rw [h.head]
      cases ys <;> simp
    have htail : q.tail = some y := by rw [h.tail]; simp
    have hyys : y ∉ ys := by
      have := h.nodup
      simp only [nodup_append, List.mem_singleton] at this
      exact fun hy => this.2.2 y hy y rfl rfl
    have hrun : q.pushBack x = some
        { q with
          next := update (update q.next y (some x)) x none
          prev := update q.prev x (some y)
          tail := some x } := by
      simp only [Queue.pushBack, hhead, htail, Option.map_some]
    refine ⟨_, hrun, ⟨hnodup, ?_, ?_, ?_⟩, ?_⟩
    · rw [h.head]
      cases ys <;> simp
    · simp
    · refine linked_append.2 ⟨?_, by simp, by simp, trivial⟩
      refine (h.linked.set_after (some x) hyys).congr (fun z hz => ?_) (fun z hz => ?_)
      · have hzx : z ≠ x := ne_of_mem_of_not_mem hz hx
        simp [hzx]
      · have hzx : z ≠ x := ne_of_mem_of_not_mem hz hx
        simp [hzx]
    · intro z hz
      have hzx : z ≠ x := fun heq => hz (by simp [heq])
      have hzy : z ≠ y := fun heq => hz (by simp [heq])
      simp [hzx, hzy]

theorem Holds.popFront (h : q.Holds (x :: l)) : (q.popFront x).Holds l ∧ SameOff l q (q.popFront x) := by
  obtain ⟨-, hnext, hlinked⟩ := h.linked
  have hnodup := (nodup_cons.mp h.nodup).2
  cases l with
  | nil =>
    have hnone : q.next x = none := hnext
    simp only [Queue.popFront, hnone]
    exact ⟨⟨hnodup, rfl, rfl, linked_nil⟩, fun _ _ => ⟨rfl, rfl⟩⟩
  | cons y ys =>
    have hsome : q.next x = some y := hnext
    simp only [Queue.popFront, hsome]
    refine ⟨⟨hnodup, rfl, ?_, hlinked.set_before (nodup_cons.mp hnodup).1⟩, fun z hz => ⟨rfl, ?_⟩⟩
    · rw [h.tail, List.getLast?_cons_cons]
    · exact update_of_ne (fun heq : z = y => hz (by simp [heq])) _ _

/-- The first half of `unlink`: the node before links past `x`. -/
theorem Holds.skip_next (h : q.Holds (l₁ ++ x :: l₂)) :
    ∃ next', (match q.prev x with
        | none => { q with head := q.next x }
        | some p => { q with next := update q.next p (q.next x) }) =
          { q with head := (l₁ ++ l₂).head?, next := next' } ∧
      Linked next' q.prev none l₁ l₂.head? ∧ ∀ y, y ∉ l₁ → next' y = q.next y := by
  obtain ⟨hl₁, hprev, hnext, -⟩ := linked_append.1 h.linked
  rw [or_none] at hprev hnext
  rcases List.eq_nil_or_concat' l₁ with rfl | ⟨ys, y, rfl⟩
  · have hnone : q.prev x = none := hprev
    refine ⟨q.next, ?_, linked_nil, fun _ _ => rfl⟩
    simp only [hnone, hnext, List.nil_append]
  · have hsome : q.prev x = some y := by rw [hprev]; simp
    have hhead : q.head = (ys ++ [y] ++ l₂).head? := by
      rw [h.head]
      cases ys <;> simp
    have hyys : y ∉ ys := by
      have := (nodup_append.mp (nodup_append.mp h.nodup).1).2.2
      exact fun hy => this y hy y (by simp) rfl
    refine ⟨update q.next y l₂.head?, ?_, hl₁.set_after _ hyys, fun z hz => ?_⟩
    · simp only [hsome, hnext, ← hhead]
    · exact update_of_ne (fun heq => hz (by simp [heq])) _ _

/-- The second half: the node after `x` links back past it. -/
theorem Holds.skip_prev (h : q.Holds (l₁ ++ x :: l₂)) (head' : Option α) (hx : next' x = q.next x) :
    ∃ prev', (match next' x with
        | none => { q with next := next', head := head', tail := q.prev x }
        | some n =>
          { q with next := next', head := head', prev := update q.prev n (q.prev x) }) =
          { next := next', head := head', prev := prev', tail := (l₁ ++ l₂).getLast? } ∧
      Linked q.next prev' l₁.getLast? l₂ none ∧ ∀ y, y ∉ l₂ → prev' y = q.prev y := by
  obtain ⟨-, hprev, hnext, hl₂⟩ := linked_append.1 h.linked
  rw [or_none] at hprev hnext
  cases l₂ with
  | nil =>
    have hnone : next' x = none := hx.trans hnext
    refine ⟨q.prev, ?_, linked_nil, fun _ _ => rfl⟩
    simp only [hnone, hprev, List.append_nil]
  | cons y ys =>
    have hsome : next' x = some y := hx.trans hnext
    have htail : q.tail = (l₁ ++ y :: ys).getLast? := by
      rw [h.tail]
      simp [List.getLast?_append, List.getLast?_cons_cons]
    have hyys : y ∉ ys := by
      have := (nodup_append.mp h.nodup).2.1
      simp only [nodup_cons] at this
      exact this.2.1
    refine ⟨update q.prev y l₁.getLast?, ?_, hl₂.set_before hyys, fun z hz => ?_⟩
    · simp only [hsome, hprev, ← htail]
    · exact update_of_ne (fun heq => hz (by simp [heq])) _ _

theorem Holds.unlink (h : q.Holds (l₁ ++ x :: l₂)) :
    (q.unlink x).Holds (l₁ ++ l₂) ∧ SameOff (l₁ ++ x :: l₂) q (q.unlink x) := by
  have hx₁ : x ∉ l₁ := fun hx => (nodup_append.mp h.nodup).2.2 x hx x (by simp) rfl
  have hx₂ : x ∉ l₂ := (nodup_cons.mp (nodup_append.mp h.nodup).2.1).1
  have hdisj : ∀ y ∈ l₁, y ∉ l₂ := fun y hy hy' =>
    (nodup_append.mp h.nodup).2.2 y hy y (List.mem_cons_of_mem x hy') rfl
  obtain ⟨next', hhalf₁, hlinked₁, hsame₁⟩ := h.skip_next
  obtain ⟨prev', hhalf₂, hlinked₂, hsame₂⟩ := h.skip_prev (l₁ ++ l₂).head? (hsame₁ x hx₁)
  have hrun : q.unlink x =
      { next := update next' x none
        prev := update prev' x none
        head := (l₁ ++ l₂).head?
        tail := (l₁ ++ l₂).getLast? } := by
    simp only [Queue.unlink]
    rw [hhalf₁]
    rw [hhalf₂]
  rw [hrun]
  refine ⟨⟨?_, rfl, rfl, linked_append.2 ⟨?_, ?_⟩⟩, fun y hy => ?_⟩
  · have hsub : (l₁ ++ l₂).Sublist (l₁ ++ x :: l₂) :=
      List.Sublist.append_left (List.sublist_cons_self x l₂) l₁
    exact h.nodup.sublist hsub
  · rw [or_none]
    refine hlinked₁.congr (fun y hy => ?_) (fun y hy => ?_)
    · exact update_of_ne (ne_of_mem_of_not_mem hy hx₁) _ _
    · exact (update_of_ne (ne_of_mem_of_not_mem hy hx₁) _ _).trans
        (hsame₂ y (hdisj y hy))
  · rw [or_none]
    refine hlinked₂.congr (fun y hy => ?_) (fun y hy => ?_)
    · exact (update_of_ne (ne_of_mem_of_not_mem hy hx₂) _ _).trans
        (hsame₁ y fun hy' => hdisj y hy' hy)
    · exact update_of_ne (ne_of_mem_of_not_mem hy hx₂) _ _
  · simp only [List.mem_append, List.mem_cons, not_or] at hy
    obtain ⟨hy₁, hyx, hy₂⟩ := hy
    simp only [update_of_ne hyx]
    exact ⟨hsame₁ y hy₁, hsame₂ y hy₂⟩

theorem Holds.unlink_mem (h : q.Holds l) (hx : x ∈ l) :
    (q.unlink x).Holds (l.erase x) ∧ SameOff l q (q.unlink x) := by
  obtain ⟨l₁, l₂, rfl⟩ := append_of_mem hx
  have hx₁ : x ∉ l₁ := fun hx => (nodup_append.mp h.nodup).2.2 x hx x (by simp) rfl
  rw [List.erase_append_right _ hx₁, List.erase_cons_head]
  exact h.unlink

end Queue

end LinkedQueue
