-- SUMMARY: When received lists can be extended in place.
import Irods.Core.PairList
import Irods.Core.StrArray
import Irods.Pack.ListShapes

/-!
# Received lists

What the add functions find in memory: an array of pointers has room up to the next multiple of
`PTR_ARRAY_MALLOC_LEN`, while numbers, and strings that have a size, have a block of exactly their length.
Lengths and sizes are taken to be small enough for the block to have its length in an `int`. An operation has
no result where the code would read or write outside of an array.
-/

namespace Pack

open CString CBuffer EStateM
open List (append_nil foldlM_cons forall_mem_cons length_append length_map mem_cons_self)

def KeyValPair_PI : Text := "int ssLen; str *keyWord[ssLen]; str *svalue[ssLen];".toList

def InxIvalPair_PI : Text := "int iiLen; int *inx(iiLen); int *ivalue(iiLen);".toList

def InxValPair_PI : Text := "int isLen; int *inx(isLen); str *svalue[isLen];".toList

def StrArray_PI : Text := "int len; int size; str *value(len)(size);".toList

/-! ## Lists in memory -/

/-- The number of cells of an array of pointers, at the boundary of `PTR_ARRAY_MALLOC_LEN`. -/
def allocLen (numPointer : Nat) : Nat :=
  let myModu := numPointer % PTR_ARRAY_MALLOC_LEN
  if myModu = 0 then numPointer else numPointer + PTR_ARRAY_MALLOC_LEN - myModu

/-- The number of characters for strings with a size. The input is read only for those without. -/
def getAllocLenForStr (numStr maxStrLen : Nat) : Nat := if numStr ≤ 1 then maxStrLen else numStr * maxStrLen

/-- A block of numbers. -/
def numbersOf (numElement : Nat) : Cell → Cells Int
  | .pointer [.ints values] => values.map some
  | .pointer _ => Cells.alloc numElement
  | _ => []

def stringOf : Option (List Cell) → Option Text
  | some [.strs [s]] => some s
  | _ => none

/-- An array of pointers to strings. -/
def stringsOf (_ : Nat) : Cell → Cells Text
  | .pointers targets => targets.map stringOf ++ Cells.alloc (allocLen targets.length - targets.length)
  | _ => []

/-- The strings one after the other, each at the next multiple of its size. -/
def laidOut (maxStrLen : Nat) : List Text → Nat → Text → Option Text
  | [], _, mem => some mem
  | s :: strings, outPtr, mem => do
    laidOut maxStrLen strings (outPtr + maxStrLen) (← CBuffer.store mem outPtr (s ++ [nul]))

/-- A block of strings, with what `malloc` left behind each of them. -/
def blockOf (malloc : Nat → Text) (numStr maxStrLen : Nat) : Cell → Option Text
  | .pointer [.strs strings] => laidOut maxStrLen strings 0 (malloc (getAllocLenForStr numStr maxStrLen))
  | _ => some []

/-- The length of a list, which is not negative. -/
def lengthOf : Cell → Option Nat
  | .ints [len] => if 0 ≤ len then some len.toNat else none
  | _ => none

section Memory

variable {α β : Type}

def receivedPairs (keysOf : Nat → Cell → Cells α) (valuesOf : Nat → Cell → Cells β) : List Cell → Option (PairList α β)
  | [len, key, value] => (lengthOf len).map fun len => ⟨len, keysOf len key, valuesOf len value⟩
  | _ => none

def receivedStrs (malloc : Nat → Text) : List Cell → Option StrArray
  | [len, .ints [size], value] => do
    let len ← lengthOf len
    return ⟨len, size, ← blockOf malloc len size.toNat value⟩
  | _ => none

/-- The pairs can be read from the first cells on. -/
structure Lists (l : PairList α β) (ps : List (α × β)) : Prop where
  len : l.len = ps.length
  key : Cells.Holds l.key (ps.map Prod.fst)
  value : Cells.Holds l.value (ps.map Prod.snd)

/-- The strings can be read at the multiples of the size. -/
structure ListsStrs (a : StrArray) (xs : List Text) : Prop where
  len : a.len = xs.length
  text : ∀ i (hi : i < xs.length), textAt a.value (i * a.size.toNat) = some xs[i]

def addKeyVals (l : KeyValPair) (added : List (Text × Text)) : Option KeyValPair :=
  added.foldlM (fun l p => KeyValPair.addKeyVal l p.1 p.2) l

/-- The received pairs can be read, and all pairs after the others were added. -/
def PairsExtend (addAll : PairList α β → List (α × β) → Option (PairList α β))
    (extended : List (α × β) → List (α × β) → List (α × β)) (received : Option (PairList α β)) (added : List (α × β)) :
    Prop :=
  ∃ l ps l', received = some l ∧ Lists l ps ∧ addAll l added = some l' ∧ Lists l' (extended ps added)

def StrsExtend (cells : List Cell) (added : List Text) : Prop :=
  ∃ xs, ∀ malloc : Nat → Text, (∀ n, (malloc n).length = n) → ∃ a a', receivedStrs malloc cells = some a ∧
    ListsStrs a xs ∧ StrArray.run (added.map .addStrArray) a = some a' ∧ ListsStrs a' (xs ++ added)

end Memory

/-! ## Additions -/

/-- A sequence of additions to one list. -/
inductive Additions where
  | addKeyVal (pairs : List (Text × Text))
  | addInxIval (pairs : List (Int × Int))
  | addInxVal (pairs : List (Int × Text))
  | addStrArray (values : List Text)
  deriving DecidableEq

namespace Additions

def packInstName : Additions → Text
  | addKeyVal _   => "KeyValPair_PI".toList
  | addInxIval _  => "InxIvalPair_PI".toList
  | addInxVal _   => "InxValPair_PI".toList
  | addStrArray _ => "StrArray_PI".toList

def packInstruct : Additions → Text
  | addKeyVal _ => KeyValPair_PI
  | addInxIval _ => InxIvalPair_PI
  | addInxVal _ => InxValPair_PI
  | addStrArray _ => StrArray_PI

/-- The strings that are laid out in a block are C strings. -/
def Ended : Additions → Prop
  | addStrArray values => ∀ s ∈ values, nul ∉ s
  | _ => True

/-- The list is extended in place. `addKeyVal` replaces the value of a key that is there. -/
def Extend (cells : List Cell) : Additions → Prop
  | addKeyVal pairs =>
    PairsExtend addKeyVals (fun ps added => added.foldl (fun ps p => KeyValPair.insertPair p.1 p.2 ps) ps)
      (receivedPairs stringsOf stringsOf cells) pairs
  | addInxIval pairs => PairsExtend PairList.appendAll (· ++ ·) (receivedPairs numbersOf numbersOf cells) pairs
  | addInxVal pairs => PairsExtend PairList.appendAll (· ++ ·) (receivedPairs numbersOf stringsOf cells) pairs
  | addStrArray values => StrsExtend cells values

end Additions

/-- There is memory behind the pointer, and all of it was set. -/
def Present : Cell → Prop
  | .null | .pointer [.unset] => False
  | _ => True

/-- A length that is not negative, with the arrays for it. -/
structure Whole (len : Int) (arrays : List Cell) : Prop where
  nonneg : 0 ≤ len
  present : 0 < len → ∀ cell ∈ arrays, Present cell

def sentKeys : Cell → List Text
  | .pointers targets => targets.filterMap stringOf
  | _ => []

/-- No key is empty when a new one is added: its cell would be taken for the new one. -/
def NoUnused (sent : List Text) (added : List (Text × Text)) : Prop :=
  ∀ front p back, added = front ++ p :: back →
    p.1 ∈ sent ++ KeyValPair.keys front ∨ [] ∉ sent ++ KeyValPair.keys front

/-- Where the arrays are full, nothing is added to them; a longer string has the block laid out anew. -/
def Additions.Safe : List Cell → Additions → Prop
  | [.ints [len], keyWord, svalue], .addKeyVal pairs => Whole len [keyWord, svalue] ∧ NoUnused (sentKeys keyWord) pairs
  | [.ints [len], inx, ivalue], .addInxIval pairs =>
    Whole len [inx, ivalue] ∧ (pairs = [] ∨ len % PTR_ARRAY_MALLOC_LEN = 0)
  | [.ints [len], inx, svalue], .addInxVal pairs =>
    Whole len [inx, svalue] ∧ (pairs = [] ∨ len % PTR_ARRAY_MALLOC_LEN = 0)
  | [.ints [len], .ints [size], value], .addStrArray values =>
    Whole len [value] ∧ ∀ s ∈ values.head?, len % PTR_ARRAY_MALLOC_LEN = 0 ∨ size ≤ s.length
  | _, _ => False

/-! ## Runs of additions -/

section Runs

variable {α β : Type} {l : PairList α β} {ps added : List (α × β)}

theorem Lists.of_shows (h : PairList.Shows l ps) : Lists l ps := ⟨h.len, h.key.holds, h.value.holds⟩

theorem appendAll_extends_iff (h : Lists l ps) (hfull : l.key.length = l.len)
    (hkept : PTR_ARRAY_MALLOC_LEN ∣ l.len → PairList.Shows l ps) :
    (∃ l', PairList.appendAll l added = some l' ∧ Lists l' (ps ++ added)) ↔
    added = [] ∨ PTR_ARRAY_MALLOC_LEN ∣ l.len := by
  constructor
  · rintro ⟨l', hrun, -⟩
    by_contra hno
    obtain ⟨hne, hmod⟩ := not_or.mp hno
    obtain ⟨p, rest, rfl⟩ := List.exists_cons_of_ne_nil hne
    rw [PairList.appendAll, foldlM_cons, PairList.append_full hfull hmod] at hrun
    cases hrun
  · rintro (rfl | hmod)
    · exact ⟨l, rfl, by rwa [append_nil]⟩
    · obtain ⟨l', hrun, hshows⟩ := PairList.appendAll_spec (hkept hmod) added
      exact ⟨l', hrun, .of_shows hshows⟩

end Runs

section KeyValRuns

open KeyValPair (addKeyVal insertPair keys)

variable {l l' : KeyValPair} {ps added : List (Text × Text)} {k v c : Text} {i : Nat}

/-- The keys stay where they are, and a new one goes behind them. -/
theorem keys_insertPair (k v : Text) (ps : List (Text × Text)) :
    keys (insertPair k v ps) = if k ∈ keys ps then keys ps else keys ps ++ [k] := by
  split
  · rename_i hmem
    obtain habsent | ⟨front, v', back, rfl, hfront⟩ := KeyValPair.absent_or_present k ps
    · exact absurd hmem habsent
    · rw [KeyValPair.insertPair_present hfront, KeyValPair.keys_append_cons, KeyValPair.keys_append_cons]
  · rename_i habsent
    rw [KeyValPair.insertPair_absent habsent, keys, List.map_append]
    rfl

theorem mem_keys_insertPair : c ∈ keys (insertPair k v ps) ↔ c ∈ keys ps ∨ c = k := by
  rw [keys_insertPair]
  split
  · rename_i hmem
    exact ⟨.inl, fun h => h.elim id fun heq => heq ▸ hmem⟩
  · rw [List.mem_append, List.mem_singleton]

theorem keys_insertPair_getElem? (h : (keys ps)[i]? = some c) : (keys (insertPair k v ps))[i]? = some c := by
  rw [keys_insertPair]
  split
  · exact h
  · rwa [List.getElem?_append_left (List.getElem?_eq_some_iff.mp h).1]

theorem keys_extended_getElem? (h : (keys ps)[i]? = some c) (added : List (Text × Text)) :
    (keys (added.foldl (fun ps p => insertPair p.1 p.2 ps) ps))[i]? = some c := by
  induction added generalizing ps with
  | nil => exact h
  | cons p added ih => exact ih (keys_insertPair_getElem? h)

theorem addKeyVal_outcome (h : PairList.Shows l ps) (k v : Text) :
    ∃ l' ps', addKeyVal l k v = some l' ∧ PairList.Shows l' ps' ∧
      (ps' = insertPair k v ps ∨ ∃ i, k ∉ keys ps ∧ (keys ps)[i]? = some [] ∧ ps' = ps.set i (k, v)) := by
  by_cases hk : k ∈ keys ps ∨ [] ∉ keys ps
  · obtain ⟨l', hadd, hshows⟩ := KeyValPair.addKeyVal_insertPair h hk v
    exact ⟨l', _, hadd, hshows, .inl rfl⟩
  · obtain ⟨habsent, hempty⟩ := not_or.mp hk
    obtain ⟨l', i, hadd, hi, hshows⟩ := KeyValPair.addKeyVal_unused h habsent (not_not.mp hempty) v
    exact ⟨l', _, hadd, hshows, .inr ⟨i, habsent, hi, rfl⟩⟩

/-- A key that is not empty stays in its cell. -/
theorem addKeyVals_getElem? (h : PairList.Shows l ps) (hi : (keys ps)[i]? = some c) (hc : c ≠ [])
    (hrun : addKeyVals l added = some l') : ∃ ps', PairList.Shows l' ps' ∧ (keys ps')[i]? = some c := by
  induction added generalizing l ps with
  | nil =>
    cases hrun
    exact ⟨ps, h, hi⟩
  | cons p added ih =>
    obtain ⟨l₁, ps₁, hadd, hshows, hps₁⟩ := addKeyVal_outcome h p.1 p.2
    rw [addKeyVals, foldlM_cons, hadd] at hrun
    refine ih hshows ?_ hrun
    obtain rfl | ⟨j, -, hj, rfl⟩ := hps₁
    · exact keys_insertPair_getElem? hi
    · have hne : j ≠ i := by
        rintro rfl
        rw [hi] at hj
        exact hc (Option.some.inj hj)
      rwa [keys, List.map_set, List.getElem?_set_ne hne]

theorem noUnused_cons {sent : List Text} {p : Text × Text} :
    NoUnused sent (p :: added) ↔ (p.1 ∈ sent ∨ [] ∉ sent) ∧ NoUnused (sent ++ [p.1]) added := by
  have hkeys (front : List (Text × Text)) : sent ++ keys (p :: front) = sent ++ [p.1] ++ keys front := by
    rw [List.append_assoc]
    rfl
  constructor
  · refine fun h => ⟨?_, fun front q back hadded => ?_⟩
    · simpa [keys] using h [] p added rfl
    · rw [← hkeys]
      exact h (p :: front) q back (congrArg (p :: ·) hadded)
  · rintro ⟨hfirst, hrest⟩ front q back hadded
    cases front with
    | nil =>
      obtain ⟨rfl, -⟩ := List.cons.inj hadded
      simpa [keys] using hfirst
    | cons r front =>
      obtain ⟨rfl, htail⟩ := List.cons.inj hadded
      rw [hkeys]
      exact hrest front q back htail

theorem addKeyVals_extends_iff {sent : List Text} (h : PairList.Shows l ps) (hsent : ∀ c, c ∈ sent ↔ c ∈ keys ps) :
    (∃ l', addKeyVals l added = some l' ∧ Lists l' (added.foldl (fun ps p => insertPair p.1 p.2 ps) ps)) ↔
      NoUnused sent added := by
  induction added generalizing l ps sent with
  | nil => exact ⟨fun _ front _ _ hnil => absurd hnil (by simp), fun _ => ⟨l, rfl, .of_shows h⟩⟩
  | cons p added ih =>
    rw [noUnused_cons, hsent, hsent]
    by_cases hk : p.1 ∈ keys ps ∨ [] ∉ keys ps
    · obtain ⟨l₁, hadd, hshows⟩ := KeyValPair.addKeyVal_insertPair h hk p.2
      have hsent' (c : Text) : c ∈ sent ++ [p.1] ↔ c ∈ keys (insertPair p.1 p.2 ps) := by
        rw [mem_keys_insertPair, List.mem_append, List.mem_singleton, hsent]
      have hstep : addKeyVals l (p :: added) = addKeyVals l₁ added := by
        rw [addKeyVals, foldlM_cons, hadd]
        rfl
      rw [hstep, and_iff_right hk, ← ih hshows hsent', List.foldl_cons]
    · refine iff_of_false ?_ fun h => hk h.1
      rintro ⟨l', hrun, hlists⟩
      obtain ⟨habsent, hempty⟩ := not_or.mp hk
      have hempty := not_not.mp hempty
      obtain ⟨l₁, i, hadd, hi, hshows⟩ := KeyValPair.addKeyVal_unused h habsent hempty p.2
      rw [addKeyVals, foldlM_cons, hadd] at hrun
      -- the new key stays in the cell that the empty one should have
      have hlt : i < ps.length := by simpa [keys] using (List.getElem?_eq_some_iff.mp hi).1
      have hnew : (keys (ps.set i (p.1, p.2)))[i]? = some p.1 := by
        rw [keys, List.map_set, List.getElem?_set_self (by rwa [length_map])]
      obtain ⟨ps', hshows', hcell⟩ := addKeyVals_getElem? hshows hnew (fun heq => habsent (heq ▸ hempty)) hrun
      have hwanted := keys_extended_getElem? hi (p :: added)
      obtain ⟨hlt', hcell⟩ := List.getElem?_eq_some_iff.mp hcell
      obtain ⟨hlt'', hwanted⟩ := List.getElem?_eq_some_iff.mp hwanted
      have hsame := (hshows'.key.holds.getElem? hlt').symm.trans (hlists.key.getElem? hlt'')
      have hclash : p.1 = [] := hcell.symm.trans ((Option.some.inj (Option.some.inj hsame)).trans hwanted)
      exact habsent (hclash ▸ hempty)

end KeyValRuns

/-! ## Arrays -/

section Arrays

variable {cell : Cell} {n : Nat}

/-- Numbers that are all there fill their block. -/
theorem NumbersAt.outcome (h : NumbersAt n cell) :
    (∃ xs : List Int, xs.length = n ∧ numbersOf n cell = xs.map some ∧ (0 < n → Present cell)) ∨
      0 < n ∧ ¬ Present cell ∧ ∀ xs, xs.length = n → ¬ Cells.Holds (numbersOf n cell) xs := by
  obtain rfl | hpos := Nat.eq_zero_or_pos n
  · refine .inl ⟨[], rfl, ?_, fun hpos => absurd hpos (Nat.lt_irrefl 0)⟩
    cases h with
    | null | unset => rfl
    | ints hlen => rw [List.length_eq_zero_iff.mp hlen]; rfl
  · cases h with
    | null =>
      refine .inr ⟨hpos, id, fun xs hlen hholds => ?_⟩
      have := hholds.length_le
      rw [hlen] at this
      exact absurd (hpos.trans_le this) (Nat.lt_irrefl 0)
    | unset =>
      refine .inr ⟨hpos, id, fun xs hlen hholds => ?_⟩
      have hfirst := hholds.getElem? (hlen ▸ hpos)
      simp [numbersOf, Cells.alloc, hpos] at hfirst
    | @ints values hlen => exact .inl ⟨values, hlen, rfl, fun _ => trivial⟩

theorem allocLen_spec (n : Nat) : ∃ k, n ≤ PTR_ARRAY_MALLOC_LEN * k ∧ PTR_ARRAY_MALLOC_LEN * k = allocLen n := by
  have hdiv := Nat.div_add_mod n PTR_ARRAY_MALLOC_LEN
  have hlt := Nat.mod_lt n (show 0 < PTR_ARRAY_MALLOC_LEN by decide)
  dsimp only [allocLen]
  split
  · exact ⟨n / PTR_ARRAY_MALLOC_LEN, by omega, by omega⟩
  · refine ⟨n / PTR_ARRAY_MALLOC_LEN + 1, ?_, ?_⟩
    · rw [Nat.mul_succ]
      omega
    · rw [Nat.mul_succ]
      omega

/-- An array of strings reaches up to a boundary. -/
theorem StringsAt.outcome (h : StringsAt n cell) :
    (∃ xs, xs.length = n ∧ Cells.Kept PTR_ARRAY_MALLOC_LEN (stringsOf n cell) xs ∧ sentKeys cell = xs ∧
        (0 < n → Present cell)) ∨
      0 < n ∧ ¬ Present cell ∧ ∀ xs, xs.length = n → ¬ Cells.Holds (stringsOf n cell) xs := by
  cases h with
  | null =>
    obtain rfl | hpos := Nat.eq_zero_or_pos n
    · exact .inl ⟨[], rfl, .nil, rfl, fun hpos => absurd hpos (Nat.lt_irrefl 0)⟩
    · refine .inr ⟨hpos, id, fun xs hlen hholds => ?_⟩
      have := hholds.length_le
      rw [hlen] at this
      exact absurd (hpos.trans_le this) (Nat.lt_irrefl 0)
  | @strs strings hlen =>
    have hstrings : (strings.map fun s => some [Cell.strs [s]]).map stringOf = strings.map some := by
      simp [stringOf]
    refine .inl ⟨strings, hlen, ⟨?_, ?_⟩, ?_, fun _ => trivial⟩
    · rw [stringsOf, hstrings]
      exact List.prefix_append _ _
    · obtain ⟨k, hle, hk⟩ := allocLen_spec n
      refine ⟨k, hlen ▸ hle, ?_⟩
      rw [stringsOf, hstrings, length_append, length_map, length_map, Cells.alloc, List.length_replicate,
        hlen]
      omega
    · rw [sentKeys, List.filterMap_map]
      exact List.filterMap_some

/-- All that the code relies on when it reads an array is that it came. -/
def Readable {α : Type} (cells : Cells α) (n : Nat) (cell : Cell) : Prop :=
  (0 < n → Present cell) ↔ ∃ xs, xs.length = n ∧ Cells.Holds cells xs

theorem NumbersAt.readable (h : NumbersAt n cell) : Readable (numbersOf n cell) n cell := by
  obtain ⟨xs, hlen, hcells, hpresent⟩ | ⟨hpos, habsent, hnone⟩ := h.outcome
  · refine iff_of_true hpresent ⟨xs, hlen, ?_⟩
    rw [hcells]
    exact List.prefix_rfl
  · exact iff_of_false (fun h => habsent (h hpos)) fun ⟨xs, hlen, hholds⟩ => hnone xs hlen hholds

theorem NumbersAt.full (h : NumbersAt n cell) (hpresent : 0 < n → Present cell) : (numbersOf n cell).length = n := by
  obtain ⟨xs, hlen, hcells, -⟩ | ⟨hpos, habsent, -⟩ := h.outcome
  · rw [hcells, length_map, hlen]
  · exact absurd (hpresent hpos) habsent

theorem StringsAt.readable (h : StringsAt n cell) : Readable (stringsOf n cell) n cell := by
  obtain ⟨xs, hlen, hkept, -, hpresent⟩ | ⟨hpos, habsent, hnone⟩ := h.outcome
  · exact iff_of_true hpresent ⟨xs, hlen, hkept.holds⟩
  · exact iff_of_false (fun h => habsent (h hpos)) fun ⟨xs, hlen, hholds⟩ => hnone xs hlen hholds

theorem StringsAt.kept (h : StringsAt n cell) {xs : List Text} (hlen : xs.length = n)
    (hholds : Cells.Holds (stringsOf n cell) xs) :
    Cells.Kept PTR_ARRAY_MALLOC_LEN (stringsOf n cell) xs ∧ sentKeys cell = xs := by
  obtain ⟨ys, hlen', hkept, hkeys, -⟩ | ⟨-, -, hnone⟩ := h.outcome
  · obtain rfl := hholds.unique hkept.holds (hlen.trans hlen'.symm)
    exact ⟨hkept, hkeys⟩
  · exact absurd hholds (hnone xs hlen)

end Arrays

section Pairs

variable {α β : Type} {keys : Nat → Cell → Cells α} {values : Nat → Cell → Cells β} {len : Int} {key value : Cell}

theorem whole_iff (hlen : 0 ≤ len) (hkey : Readable (keys len.toNat key) len.toNat key)
    (hvalue : Readable (values len.toNat value) len.toNat value) :
    Whole len [key, value] ↔ ∃ ps, Lists ⟨len.toNat, keys len.toNat key, values len.toNat value⟩ ps := by
  constructor
  · intro h
    obtain ⟨xs, hxs, hkeys⟩ := hkey.mp fun hpos => h.present (by omega) _ mem_cons_self
    obtain ⟨ys, hys, hvalues⟩ := hvalue.mp fun hpos => h.present (by omega) _ (List.mem_cons_of_mem _ mem_cons_self)
    have hfst : (xs.zip ys).map Prod.fst = xs := List.map_fst_zip (by omega)
    have hsnd : (xs.zip ys).map Prod.snd = ys := List.map_snd_zip (by omega)
    refine ⟨xs.zip ys, ?_, by rwa [hfst], by rwa [hsnd]⟩
    rw [List.length_zip, hxs, hys, Nat.min_self]
  · rintro ⟨ps, hps⟩
    refine ⟨hlen, fun hpos => ?_⟩
    have hkey := hkey.mpr ⟨_, by rw [length_map]; exact hps.len.symm, hps.key⟩
    have hvalue := hvalue.mpr ⟨_, by rw [length_map]; exact hps.len.symm, hps.value⟩
    simpa using ⟨hkey (by omega), hvalue (by omega)⟩

theorem receivedPairs_eq (keys : Nat → Cell → Cells α) (values : Nat → Cell → Cells β)
    (hlen : 0 ≤ len) (key value : Cell) :
    receivedPairs keys values [.ints [len], key, value] =
    some ⟨len.toNat, keys len.toNat key, values len.toNat value⟩ := by
  rw [receivedPairs, lengthOf, if_pos hlen]
  rfl

/-- The received list is extended where it came whole and all its lists of pairs are. -/
theorem pairsExtend_iff {addAll : PairList α β → List (α × β) → Option (PairList α β)}
    {extended : List (α × β) → List (α × β) → List (α × β)} {added : List (α × β)} {C : Prop}
    (hkey : Readable (keys len.toNat key) len.toNat key) (hvalue : Readable (values len.toNat value) len.toNat value)
    (hruns : ∀ ps, 0 ≤ len → Whole len [key, value] → Lists ⟨len.toNat, keys len.toNat key, values len.toNat value⟩ ps →
      ((∃ l', addAll ⟨len.toNat, keys len.toNat key, values len.toNat value⟩ added = some l' ∧
        Lists l' (extended ps added)) ↔ C)) :
    PairsExtend addAll extended (receivedPairs keys values [.ints [len], key, value]) added ↔
      Whole len [key, value] ∧ C := by
  constructor
  · rintro ⟨l, ps, l', hreceived, hlists, hrun, hlists'⟩
    have hlen : 0 ≤ len := by
      by_contra hneg
      rw [receivedPairs, lengthOf, if_neg hneg] at hreceived
      cases hreceived
    rw [receivedPairs_eq keys values hlen] at hreceived
    obtain rfl := Option.some.inj hreceived
    have hwhole := (whole_iff hlen hkey hvalue).mpr ⟨ps, hlists⟩
    exact ⟨hwhole, (hruns ps hlen hwhole hlists).mp ⟨l', hrun, hlists'⟩⟩
  · rintro ⟨hwhole, hC⟩
    obtain ⟨ps, hlists⟩ := (whole_iff hwhole.nonneg hkey hvalue).mp hwhole
    obtain ⟨l', hrun, hlists'⟩ := (hruns ps hwhole.nonneg hwhole hlists).mpr hC
    exact ⟨_, ps, l', receivedPairs_eq keys values hwhole.nonneg key value, hlists, hrun, hlists'⟩

theorem emod_iff_dvd (hlen : 0 ≤ len) : len % PTR_ARRAY_MALLOC_LEN = 0 ↔ PTR_ARRAY_MALLOC_LEN ∣ len.toNat := by
  rw [← Int.natCast_dvd_natCast, Int.toNat_of_nonneg hlen, Int.dvd_iff_emod_eq_zero]

/-- A list with a block of numbers for its keys. -/
theorem appendAll_pairsExtend_iff (hkey : NumbersAt len.toNat key)
    (hvalue : Readable (values len.toNat value) len.toNat value)
    (hroom : Whole len [key, value] → PTR_ARRAY_MALLOC_LEN ∣ len.toNat → ∀ ys : List β, ys.length = len.toNat →
      Cells.Holds (values len.toNat value) ys → Cells.Kept PTR_ARRAY_MALLOC_LEN (values len.toNat value) ys)
    (added : List (Int × β)) :
    PairsExtend PairList.appendAll (· ++ ·) (receivedPairs numbersOf values [.ints [len], key, value]) added ↔
      Whole len [key, value] ∧ (added = [] ∨ len % PTR_ARRAY_MALLOC_LEN = 0) := by
  refine pairsExtend_iff hkey.readable hvalue fun ps hlen hwhole hlists => ?_
  have hfull := hkey.full fun hpos => hwhole.present (by omega) _ mem_cons_self
  have hps : len.toNat = ps.length := hlists.len
  rw [emod_iff_dvd hlen]
  refine appendAll_extends_iff hlists hfull fun hdvd => ⟨hlists.len, ?_, ?_⟩
  · exact (Cells.kept_full hlists.key (by rw [length_map, hfull, hps])).mpr (by rwa [length_map, ← hps])
  · exact hroom hwhole hdvd _ (by rw [length_map, hps]) hlists.value

theorem addKeyVals_pairsExtend_iff (hkey : StringsAt len.toNat key) (hvalue : StringsAt len.toNat value)
    (added : List (Text × Text)) :
    PairsExtend addKeyVals (fun ps added => added.foldl (fun ps p => KeyValPair.insertPair p.1 p.2 ps) ps)
        (receivedPairs stringsOf stringsOf [.ints [len], key, value]) added ↔
      Whole len [key, value] ∧ NoUnused (sentKeys key) added := by
  refine pairsExtend_iff hkey.readable hvalue.readable fun ps hlen hwhole hlists => ?_
  have hps : len.toNat = ps.length := hlists.len
  obtain ⟨hkept, hsent⟩ := hkey.kept (by rw [length_map, hps]) hlists.key
  obtain ⟨hkept', -⟩ := hvalue.kept (by rw [length_map, hps]) hlists.value
  exact addKeyVals_extends_iff ⟨hlists.len, hkept, hkept'⟩ fun c => by rw [hsent]; rfl

end Pairs

/-! ## Blocks of strings -/

section Blocks

variable {mem : Text} {front strings xs added : List Text} {maxStrLen n : Nat} {len size : Int}
    {value : Cell} {a : StrArray}

/-- The strings are where an array of strings has them. -/
theorem laidOut_spec (h : Laid maxStrLen mem front) (hstrings : ∀ s ∈ strings, nul ∉ s ∧ s.length < maxStrLen)
    (hroom : (front.length + strings.length) * maxStrLen ≤ mem.length) :
    ∃ mem', laidOut maxStrLen strings (front.length * maxStrLen) mem = some mem' ∧
    Laid maxStrLen mem' (front ++ strings) ∧
      mem'.length = mem.length := by
  induction strings generalizing mem front with
  | nil => exact ⟨mem, rfl, by rwa [append_nil], rfl⟩
  | cons s strings ih =>
    obtain ⟨⟨hended, hshort⟩, hstrings⟩ := forall_mem_cons.mp hstrings
    have hmul : (front.length + 1) * maxStrLen ≤ (front.length + (s :: strings).length) * maxStrLen :=
      Nat.mul_le_mul_right maxStrLen (by rw [List.length_cons]; omega)
    rw [Nat.add_mul, Nat.one_mul] at hmul
    have hstore := @store_eq mem (s ++ nul :: []) (front.length * maxStrLen)
      (by rw [length_append, List.length_singleton]; omega)
    obtain ⟨mem', hrest, hlaid, hlen⟩ := ih (h.push (w := []) hstore hended hshort) hstrings
      (by rw [length_store hstore, length_append, List.length_singleton, Nat.add_assoc, Nat.add_comm 1]; exact hroom)
    refine ⟨mem', ?_, by rwa [List.append_assoc] at hlaid, hlen.trans (length_store hstore)⟩
    rw [length_append, List.length_singleton, Nat.add_mul, Nat.one_mul] at hrest
    rw [laidOut, hstore]
    exact hrest

theorem getAllocLenForStr_eq (hpos : 0 < n) (maxStrLen : Nat) : getAllocLenForStr n maxStrLen = n * maxStrLen := by
  unfold getAllocLenForStr
  split
  · rw [show n = 1 by omega, Nat.one_mul]
  · rfl

theorem ListsStrs.of_shows (h : StrArray.Shows a xs) : ListsStrs a xs := ⟨h.len, fun _ hi => h.laid.textAt hi⟩

theorem strArray_run (h : StrArray.Shows a xs) (hended : ∀ s ∈ added, nul ∉ s) :
    ∃ a', StrArray.run (added.map .addStrArray) a = some a' ∧ ListsStrs a' (xs ++ added) := by
  have hops : ∀ op ∈ added.map StrArray.Op.addStrArray, op.Ended := by simpa [StrArray.Op.Ended] using hended
  have hstrings : (added.map StrArray.Op.addStrArray).flatMap StrArray.Op.strings = added := by
    simp [List.flatMap_map, StrArray.Op.strings]
  obtain ⟨a', hrun, hshows⟩ := StrArray.run_spec h hops
  rw [hstrings] at hshows
  exact ⟨a', hrun, .of_shows hshows⟩

/-- The first string is added, and the others behind it. -/
theorem strArray_run_cons {s : Text} {a₁ : StrArray} (hadd : StrArray.addStrArray a s = some (0, a₁))
    (h : StrArray.Shows a₁ (xs ++ [s])) (hended : ∀ s ∈ added, nul ∉ s) :
    ∃ a', StrArray.run ((s :: added).map .addStrArray) a = some a' ∧ ListsStrs a' (xs ++ s :: added) := by
  obtain ⟨a', hrun, hlists⟩ := strArray_run h hended
  refine ⟨a', ?_, by simpa using hlists⟩
  rw [StrArray.run, List.map_cons, foldlM_cons, StrArray.step, hadd]
  exact hrun

/-- An array without strings takes strings whatever its size is. -/
theorem strArray_run_empty (hlen : a.len = 0) (hended : ∀ s ∈ added, nul ∉ s) :
    ∃ a', StrArray.run (added.map .addStrArray) a = some a' ∧ ListsStrs a' added := by
  obtain ⟨len, size, value⟩ := a
  obtain rfl : len = 0 := hlen
  have hshows {size : Int} (hsize : 0 ≤ size) : StrArray.Shows ⟨0, size, value⟩ [] :=
    ⟨rfl, hsize, .nil, 0, Nat.le_refl 0, by simp⟩
  cases added with
  | nil => exact ⟨_, rfl, rfl, nofun⟩
  | cons s added =>
    obtain ⟨hs, hended⟩ := forall_mem_cons.mp hended
    by_cases hsize : 0 ≤ size
    · exact strArray_run (hshows hsize) (forall_mem_cons.mpr ⟨hs, hended⟩)
    · obtain ⟨a₁, hadd, hshows₁⟩ := StrArray.addStrArray_spec (hshows (Int.le_refl 0)) hs
      have hsame : StrArray.addStrArray ⟨0, size, value⟩ s = StrArray.addStrArray ⟨0, 0, value⟩ s := by
        simp only [StrArray.addStrArray, ne_eq, not_true_eq_false, and_false, if_false, Int.le_refl, if_true,
          if_pos (show size ≤ 0 by omega)]
      exact strArray_run_cons (hsame.trans hadd) hshows₁ hended

/-- What is in memory for a block of at least one string. -/
theorem receivedStrs_block (hpos : 0 < len) (hlength : strings.length = len.toNat)
    (hstrings : ∀ s ∈ strings, nul ∉ s ∧ s.length < size.toNat) {malloc : Nat → Text}
    (hmalloc : ∀ n, (malloc n).length = n) :
    ∃ mem, receivedStrs malloc [.ints [len], .ints [size], .pointer [.strs strings]] = some ⟨len.toNat, size, mem⟩ ∧
      Laid size.toNat mem strings ∧ mem.length = len.toNat * size.toNat := by
  have halloc : (malloc (getAllocLenForStr len.toNat size.toNat)).length = len.toNat * size.toNat := by
    rw [hmalloc, getAllocLenForStr_eq (by omega)]
  obtain ⟨mem, hrun, hlaid, hmem⟩ := @laidOut_spec _ [] strings size.toNat .nil hstrings
    (by rw [halloc, List.length_nil, Nat.zero_add, hlength])
  refine ⟨mem, ?_, hlaid, hmem.trans halloc⟩
  rw [List.length_nil, Nat.zero_mul] at hrun
  rw [receivedStrs, lengthOf, if_pos (by omega)]
  simp only [Option.bind_eq_bind, Option.bind_some, blockOf, hrun]
  rfl

theorem receivedStrs_empty (malloc : Nat → Text) (h : BlockAt 0 n value) (size : Int) :
    ∃ mem, receivedStrs malloc [.ints [0], .ints [size], value] = some ⟨0, size, mem⟩ := by
  cases h with
  | null => exact ⟨_, rfl⟩
  | strs hlen =>
    rw [List.length_eq_zero_iff.mp hlen]
    exact ⟨_, rfl⟩

theorem textAt_nil (pos : Nat) : textAt [] pos = none := by
  rw [textAt, List.drop_nil]
  rfl

/-- There is room for one more string only where the block is laid out anew. -/
theorem strsExtend_iff (h : BlockAt len.toNat size.toNat value) (hended : ∀ s ∈ added, nul ∉ s) :
    StrsExtend [.ints [len], .ints [size], value] added ↔
      Whole len [value] ∧ ∀ s ∈ added.head?, len % PTR_ARRAY_MALLOC_LEN = 0 ∨ size ≤ s.length := by
  have hcleared (n : Nat) : (cleared n).length = n := List.length_replicate
  obtain hneg | rfl | hpos := Int.lt_trichotomy len 0
  · refine iff_of_false ?_ fun h => absurd h.1.nonneg (by omega)
    rintro ⟨xs, hruns⟩
    obtain ⟨a, a', hreceived, -⟩ := hruns cleared hcleared
    rw [receivedStrs, lengthOf, if_neg (by omega)] at hreceived
    cases hreceived
  · refine iff_of_true ⟨[], fun malloc hmalloc => ?_⟩ ⟨⟨Int.le_refl 0, nofun⟩, fun _ _ => .inl rfl⟩
    obtain ⟨mem, hreceived⟩ := receivedStrs_empty malloc h size
    obtain ⟨a', hrun, hlists⟩ := strArray_run_empty (show (⟨0, size, mem⟩ : StrArray).len = 0 from rfl) hended
    exact ⟨_, a', hreceived, ⟨rfl, nofun⟩, hrun, hlists⟩
  · cases h with
    | null =>
      refine iff_of_false ?_ fun h => h.1.present hpos _ mem_cons_self
      rintro ⟨xs, hruns⟩
      obtain ⟨a, a', hreceived, hlists, -⟩ := hruns cleared hcleared
      rw [receivedStrs, lengthOf, if_pos (by omega)] at hreceived
      obtain rfl := Option.some.inj hreceived
      have htext := hlists.text 0 (by rw [← hlists.len]; exact (by omega : 0 < len.toNat))
      rw [textAt_nil] at htext
      cases htext
    | @strs strings hlength hstrings =>
      have hwhole : Whole len [.pointer [.strs strings]] := ⟨by omega, fun _ => by simp [Present]⟩
      have hsize : 0 < size := by
        obtain ⟨s, hs⟩ := List.exists_mem_of_length_pos (show 0 < strings.length by omega)
        have := (hstrings s hs).2
        omega
      rw [and_iff_right hwhole]
      constructor
      · rintro ⟨xs, hruns⟩ s hs
        obtain ⟨a, a', hreceived, -, hrun, -⟩ := hruns cleared hcleared
        obtain ⟨mem, hblock, -, hmem⟩ := receivedStrs_block hpos hlength hstrings hcleared
        obtain rfl := Option.some.inj (hblock.symm.trans hreceived)
        by_contra hno
        obtain ⟨hmod, hshort⟩ := not_or.mp hno
        obtain ⟨rest, rfl⟩ := List.head?_eq_some_iff.mp hs
        have hmod : len.toNat % PTR_ARRAY_MALLOC_LEN ≠ 0 := fun hzero =>
          hmod ((emod_iff_dvd (by omega)).mpr (Nat.dvd_of_mod_eq_zero hzero))
        have hnone := @StrArray.addStrArray_full ⟨len.toNat, size, mem⟩ s (Nat.le_of_eq hmem) hmod
          (by simpa using hshort)
        rw [StrArray.run, List.map_cons, foldlM_cons, StrArray.step, hnone] at hrun
        cases hrun
      · refine fun hfirst => ⟨strings, fun malloc hmalloc => ?_⟩
        obtain ⟨mem, hblock, hlaid, hmem⟩ := receivedStrs_block hpos hlength hstrings hmalloc
        refine ⟨⟨len.toNat, size, mem⟩, ?_⟩
        have hlists : ListsStrs ⟨len.toNat, size, mem⟩ strings := ⟨hlength.symm, fun _ hi => hlaid.textAt hi⟩
        cases added with
        | nil => exact ⟨_, hblock, hlists, rfl, by rwa [append_nil]⟩
        | cons s added =>
          obtain ⟨hs, hended⟩ := forall_mem_cons.mp hended
          obtain hmod | hlong := hfirst s rfl
          · obtain ⟨k, hk⟩ := (emod_iff_dvd (by omega)).mp hmod
            have hshows : StrArray.Shows ⟨len.toNat, size, mem⟩ strings :=
              ⟨hlength.symm, Int.le_of_lt hsize, hlaid, k, by rw [hlength, hk], by rw [hmem, hk]⟩
            obtain ⟨a', hrun, hlists'⟩ := strArray_run hshows (forall_mem_cons.mpr ⟨hs, hended⟩)
            exact ⟨a', hblock, hlists, hrun, hlists'⟩
          · obtain ⟨a₁, hadd, hshows₁⟩ :=
              @StrArray.addStrArray_longer ⟨len.toNat, size, mem⟩ strings s hlength.symm hsize hlaid hlong hs
            obtain ⟨a', hrun, hlists'⟩ := strArray_run_cons hadd hshows₁ hended
            exact ⟨a', hblock, hlists, hrun, hlists'⟩

end Blocks

/-! ## Unpacked lists -/

/-- `int count; int *key(count);` or an array of pointers instead, and the same for the values. -/
def pairItems (count : Text) (key value : PackItem) : List PackItem := [{ typeInx := .int, name := count }, key, value]

def blockItem (base count : Text) : PackItem :=
  { typeInx := .int, name := base ++ '(' :: (count ++ [')']), pointerType := .aPointer }

def arrayItem (base count : Text) : PackItem :=
  { typeInx := .str, name := base ++ '[' :: (count ++ [']']), pointerType := .aPointer }

section Unpacked

variable {tables : Tables} {prot : IrodsProt} {depth : Nat} {packInstName packInstruct inPackedStr rest : Text}
  {out : PackedOutput Cell}

/-- The two arrays are unpacked with the count in front of them. -/
theorem unpackStruct_pairs {count base : Text} {key value : PackItem} {K V : Nat → Cell → Prop}
    (htable : matchPackInstruct tables packInstName = some packInstruct)
    (hparse : parsePackInstruct packInstruct = .ok (pairItems count key value))
    (hcount : Unbracketed count) (hdigits : ¬ count.all Char.isDigit) (hbase : base ≠ count)
    (hkey : ∀ child links inPtr n, resolveIntInItem tables links count = (n : Nat) →
      Yields PackedOutput.buf
        (fun r cells => ∃ cell, cells = [cell] ∧ K n cell ∧ ∃ item, item.name = base ∧ r.1 = links.next item)
        (unpackItem child tables prot links key inPtr))
    (hvalue : ∀ child links inPtr n, resolveIntInItem tables links count = (n : Nat) →
      Yields PackedOutput.buf (fun _ cells => ∃ cell, cells = [cell] ∧ V n cell)
        (unpackItem child tables prot links value inPtr))
    (hrun : unpackStruct tables prot depth packInstName inPackedStr = .ok rest out) :
    ∃ c k v, out.buf = [c, k, v] ∧ K (countOf c) k ∧ V (countOf c) v := by
  refine unpackStruct_fields (P := fun cells => ∃ c k v, cells = [c, k, v] ∧ K (countOf c) k ∧ V (countOf c) v)
    htable hparse hrun fun child inPtr _ => ?_
  refine .bind (unpackItem_count child hcount inPtr) fun r cells h => ?_
  obtain ⟨links, rest⟩ := r
  obtain ⟨c, rfl, rfl, -⟩ := h
  have hfound := @resolveIntInItem_next tables (Links.child {} { name := packInstName }) count hdigits
    { typeInx := .int, name := count, intValue := countOf c } rfl rfl
  refine .bind (hkey child _ rest _ hfound) fun r cells h => ?_
  obtain ⟨links, rest⟩ := r
  obtain ⟨k, rfl, hk, item, hname, rfl⟩ := h
  have hstill := (@resolveIntInItem_skip tables _ count item (hname ▸ hbase) (List.cons_ne_nil _ _)).trans hfound
  refine .bind (hvalue child _ rest _ hstill) fun r cells h => ?_
  obtain ⟨v, rfl, hv⟩ := h
  exact .pure ⟨c, k, v, rfl, hk, hv⟩

section Fields

variable {links : Links} {base count : Text} {n : Nat} (hbase : Unbracketed base) (hcount : Unbracketed count)
  (hne : count ≠ []) (hn : resolveIntInItem tables links count = n)
include hbase hcount hne hn

variable (child : ChildUnpacker) (inPtr : Text)

theorem blockItem_cell : Yields PackedOutput.buf (fun _ cells => ∃ cell, cells = [cell] ∧ NumbersAt n cell)
      (unpackItem child tables prot links (blockItem base count) inPtr) :=
  (unpackItem_numbers hbase hcount hne hn child inPtr).mono fun _ _ ⟨cell, h, hcell, _⟩ => ⟨cell, h, hcell⟩

theorem arrayItem_cell : Yields PackedOutput.buf (fun _ cells => ∃ cell, cells = [cell] ∧ StringsAt n cell)
      (unpackItem child tables prot links (arrayItem base count) inPtr) :=
  (unpackItem_strings hbase hcount hne hn child inPtr).mono fun _ _ ⟨cell, h, hcell, _⟩ => ⟨cell, h, hcell⟩

end Fields

theorem keyValPair_fields (htable : matchPackInstruct tables packInstName = some KeyValPair_PI)
    (hrun : unpackStruct tables prot depth packInstName inPackedStr = .ok rest out) :
    ∃ c k v, out.buf = [c, k, v] ∧ StringsAt (countOf c) k ∧ StringsAt (countOf c) v := by
  have hparse : parsePackInstruct KeyValPair_PI =
      .ok (pairItems "ssLen".toList (arrayItem "keyWord".toList "ssLen".toList)
        (arrayItem "svalue".toList "ssLen".toList)) := rfl
  exact unpackStruct_pairs htable hparse (by decide) (by decide) (show "keyWord".toList ≠ "ssLen".toList by decide)
    (fun child _ inPtr _ hn => unpackItem_strings (by decide) (by decide) (by decide) hn child inPtr)
    (fun child _ inPtr _ hn => arrayItem_cell (by decide) (by decide) (by decide) hn child inPtr) hrun

theorem inxIvalPair_fields (htable : matchPackInstruct tables packInstName = some InxIvalPair_PI)
    (hrun : unpackStruct tables prot depth packInstName inPackedStr = .ok rest out) :
    ∃ c k v, out.buf = [c, k, v] ∧ NumbersAt (countOf c) k ∧ NumbersAt (countOf c) v := by
  have hparse : parsePackInstruct InxIvalPair_PI =
      .ok (pairItems "iiLen".toList (blockItem "inx".toList "iiLen".toList)
        (blockItem "ivalue".toList "iiLen".toList)) := rfl
  exact unpackStruct_pairs htable hparse (by decide) (by decide) (show "inx".toList ≠ "iiLen".toList by decide)
    (fun child _ inPtr _ hn => unpackItem_numbers (by decide) (by decide) (by decide) hn child inPtr)
    (fun child _ inPtr _ hn => blockItem_cell (by decide) (by decide) (by decide) hn child inPtr) hrun

theorem inxValPair_fields (htable : matchPackInstruct tables packInstName = some InxValPair_PI)
    (hrun : unpackStruct tables prot depth packInstName inPackedStr = .ok rest out) :
    ∃ c k v, out.buf = [c, k, v] ∧ NumbersAt (countOf c) k ∧ StringsAt (countOf c) v := by
  have hparse : parsePackInstruct InxValPair_PI =
      .ok (pairItems "isLen".toList (blockItem "inx".toList "isLen".toList)
        (arrayItem "svalue".toList "isLen".toList)) := rfl
  exact unpackStruct_pairs htable hparse (by decide) (by decide) (show "inx".toList ≠ "isLen".toList by decide)
    (fun child _ inPtr _ hn => unpackItem_numbers (by decide) (by decide) (by decide) hn child inPtr)
    (fun child _ inPtr _ hn => arrayItem_cell (by decide) (by decide) (by decide) hn child inPtr) hrun

theorem strArray_fields (htable : matchPackInstruct tables packInstName = some StrArray_PI)
    (hrun : unpackStruct tables prot depth packInstName inPackedStr = .ok rest out) :
    ∃ c m v, out.buf = [c, m, v] ∧ BlockAt (countOf c) (countOf m) v := by
  have hparse : parsePackInstruct StrArray_PI =
      .ok [{ typeInx := .int, name := "len".toList }, { typeInx := .int, name := "size".toList },
        { typeInx := .str, name := "value(len)(size)".toList, pointerType := .aPointer }] := rfl
  refine unpackStruct_fields (P := fun cells => ∃ c m v, cells = [c, m, v] ∧ BlockAt (countOf c) (countOf m) v)
    htable hparse hrun fun child inPtr hinPtr => ?_
  refine .bind (unpackItem_count child (by decide) inPtr) fun r cells h => ?_
  obtain ⟨links, rest⟩ := r
  obtain ⟨c, rfl, rfl, hrest⟩ := h
  refine .bind (unpackItem_count child (by decide) rest) fun r cells h => ?_
  obtain ⟨links, rest'⟩ := r
  obtain ⟨m, rfl, rfl, hrest'⟩ := h
  have hlen := @resolveIntInItem_next tables (Links.child {} { name := packInstName }) "len".toList (by decide)
    { typeInx := .int, name := "len".toList, intValue := countOf c } rfl rfl
  have hlen := (@resolveIntInItem_skip tables _ "len".toList
    { typeInx := .int, name := "size".toList, intValue := countOf m } (show "size".toList ≠ "len".toList by decide)
    (List.cons_ne_nil _ _)).trans hlen
  have hsize := @resolveIntInItem_next tables (Links.next (Links.child {} { name := packInstName })
    { typeInx := .int, name := "len".toList, intValue := countOf c }) "size".toList (by decide)
    { typeInx := .int, name := "size".toList, intValue := countOf m } rfl rfl
  have hended : prot = .xml → '\x00' ∉ rest' := fun hxml hmem => hinPtr hxml (hrest.subset (hrest'.subset hmem))
  refine .bind (@unpackItem_block tables prot _ "value".toList "len".toList "size".toList _ _ (by decide) (by decide)
    (by decide) hlen (by decide) (by decide) hsize child rest' hended) fun r cells h => ?_
  obtain ⟨v, rfl, hv, -⟩ := h
  exact .pure ⟨c, m, v, rfl, hv⟩

end Unpacked

/-- A length that was not set, or that is negative, has no list. -/
theorem number_or_not (c : Cell) : (∃ len, c = .ints [len]) ∨ lengthOf c = none ∧ ∀ len, c ≠ .ints [len] := by
  by_cases h : ∃ len, c = .ints [len]
  · exact .inl h
  · have hne : ∀ len, c ≠ .ints [len] := fun len heq => h ⟨len, heq⟩
    refine .inr ⟨?_, hne⟩
    unfold lengthOf
    split
    · exact absurd rfl (hne _)
    · rfl

theorem Additions.Safe.number {additions : Additions} {c : Cell} {cells : List Cell} (h : additions.Safe (c :: cells)) :
    ∃ len, c = .ints [len] := by
  unfold Additions.Safe at h
  split at h
  case h_5 => exact h.elim
  all_goals
    rename_i heq
    exact ⟨_, (List.cons.inj heq).1⟩

theorem not_pairsExtend {α β : Type} {addAll : PairList α β → List (α × β) → Option (PairList α β)}
    {extended : List (α × β) → List (α × β) → List (α × β)} {added : List (α × β)} {c : Cell} (hc : lengthOf c = none)
    (keys : Nat → Cell → Cells α) (values : Nat → Cell → Cells β) (k v : Cell) :
    ¬ PairsExtend addAll extended (receivedPairs keys values [c, k, v]) added := by
  rintro ⟨l, ps, l', h, -⟩
  rw [receivedPairs, hc] at h
  cases h

theorem not_strsExtend {cells : List Cell} {added : List Text} (h : ∀ malloc, receivedStrs malloc cells = none) :
    ¬ StrsExtend cells added := by
  rintro ⟨xs, hruns⟩
  obtain ⟨a, -, hreceived, -⟩ := hruns cleared fun _ => List.length_replicate
  rw [h] at hreceived
  cases hreceived

/-- A received list is extended in place exactly where it came whole and what is added finds room. -/
theorem received_extend_iff {tables : Tables} {prot : IrodsProt} {depth : Nat} {inPackedStr rest : Text}
    {out : PackedOutput Cell} (additions : Additions) (hended : additions.Ended)
    (htable : matchPackInstruct tables additions.packInstName = some additions.packInstruct)
    (hrun : unpackStruct tables prot depth additions.packInstName inPackedStr = .ok rest out) :
    additions.Extend out.buf ↔ additions.Safe out.buf := by
  cases additions with
  | addKeyVal pairs =>
    obtain ⟨c, k, v, hbuf, hk, hv⟩ := keyValPair_fields htable hrun
    rw [hbuf]
    obtain ⟨len, rfl⟩ | ⟨hnone, hne⟩ := number_or_not c
    · exact addKeyVals_pairsExtend_iff hk hv pairs
    · exact iff_of_false (not_pairsExtend hnone _ _ k v) fun h => let ⟨len, heq⟩ := h.number; hne len heq
  | addInxIval pairs =>
    obtain ⟨c, k, v, hbuf, hk, hv⟩ := inxIvalPair_fields htable hrun
    rw [hbuf]
    obtain ⟨len, rfl⟩ | ⟨hnone, hne⟩ := number_or_not c
    · refine appendAll_pairsExtend_iff hk hv.readable (fun hwhole hdvd ys hlen hholds => ?_) pairs
      have hfull := hv.full fun (hpos : 0 < len.toNat) =>
        hwhole.present (by omega) _ (List.mem_cons_of_mem _ mem_cons_self)
      exact (Cells.kept_full hholds (hlen.trans hfull.symm)).mpr (by rwa [hlen])
    · exact iff_of_false (not_pairsExtend hnone _ _ k v) fun h => let ⟨len, heq⟩ := h.number; hne len heq
  | addInxVal pairs =>
    obtain ⟨c, k, v, hbuf, hk, hv⟩ := inxValPair_fields htable hrun
    rw [hbuf]
    obtain ⟨len, rfl⟩ | ⟨hnone, hne⟩ := number_or_not c
    · exact appendAll_pairsExtend_iff hk hv.readable (fun _ _ ys hlen hholds => (hv.kept hlen hholds).1) pairs
    · exact iff_of_false (not_pairsExtend hnone _ _ k v) fun h => let ⟨len, heq⟩ := h.number; hne len heq
  | addStrArray values =>
    obtain ⟨c, m, v, hbuf, hblock⟩ := strArray_fields htable hrun
    rw [hbuf]
    obtain ⟨len, rfl⟩ | ⟨hnone, hne⟩ := number_or_not c
    · obtain ⟨size, rfl⟩ | ⟨hnone, hne⟩ := number_or_not m
      · exact strsExtend_iff hblock hended
      · refine iff_of_false (not_strsExtend fun malloc => ?_) fun h => ?_
        · unfold receivedStrs
          split
          · simp_all
          · rfl
        · unfold Additions.Safe at h
          split at h <;> simp_all
    · refine iff_of_false (not_strsExtend fun malloc => ?_) fun h => let ⟨len, heq⟩ := h.number; hne len heq
      unfold receivedStrs
      split
      · simp_all
      · rfl

def listTables : Tables where
  packInstructs := [("KeyValPair_PI".toList, KeyValPair_PI), ("InxIvalPair_PI".toList, InxIvalPair_PI)]
  packConstants := []

theorem received_extend_iff_one : ∃ rest out,
    unpackStruct listTables .native 1 "KeyValPair_PI".toList "\x00\x00\x00\x01a\x00b\x00".toList = .ok rest out ∧
      ((Additions.addKeyVal [(['c'], ['d'])]).Extend out.buf ↔
        (Additions.addKeyVal [(['c'], ['d'])]).Safe out.buf) := by
  have hok : isOk (unpackStruct listTables .native 1 "KeyValPair_PI".toList
      "\x00\x00\x00\x01a\x00b\x00".toList) = true := by decide +kernel
  obtain ⟨rest, out, hrun⟩ := isOk_iff.mp hok
  exact ⟨rest, out, hrun, received_extend_iff (.addKeyVal [(['c'], ['d'])]) trivial (by decide) hrun⟩

/-- The numbers that come out of a text. -/
def receivedNumbers (inPackedStr : Text) : Option (PairList Int Int) :=
  match unpackStruct listTables .native 1 "InxIvalPair_PI".toList inPackedStr with
  | .ok _ out => receivedPairs numbersOf numbersOf out.buf
  | .error _ _ => none

/-- A list of one pair of numbers has no room for a second one. -/
theorem one_inxIval_full : ∃ rest out, unpackStruct listTables .native 1 "InxIvalPair_PI".toList
    "\x00\x00\x00\x01\x00\x00\x00\x05\x00\x00\x00\x07".toList = .ok rest out ∧
      ¬ (Additions.addInxIval [(6, 8)]).Extend out.buf := by
  have hlist : receivedNumbers "\x00\x00\x00\x01\x00\x00\x00\x05\x00\x00\x00\x07".toList =
      some ⟨1, [some 5], [some 7]⟩ := by decide +kernel
  unfold receivedNumbers at hlist
  cases hrun : unpackStruct listTables .native 1 "InxIvalPair_PI".toList
      "\x00\x00\x00\x01\x00\x00\x00\x05\x00\x00\x00\x07".toList with
  | error e out =>
    rw [hrun] at hlist
    cases hlist
  | ok rest out =>
    rw [hrun] at hlist
    refine ⟨rest, out, rfl, ?_⟩
    rintro ⟨l, ps, l', hreceived, -, happend, -⟩
    obtain rfl := Option.some.inj (hlist.symm.trans hreceived)
    cases happend

end Pack
