-- SUMMARY: Flat files: positioned reads and zero-filling positioned writes.
import Mathlib.Data.List.Basic

/-!
# Flat files

A file is the list of its bytes. `readAt` returns what is there, possibly fewer
bytes than asked for; `writeAt` overwrites in place, extends the file when it
reaches past the end, and fills a gap between the end and its offset with zeros.
A write of no bytes changes nothing, whatever its offset.
-/

abbrev Byte := UInt8

namespace ByteFile

/-- The bytes of `f` from `off` on, at most `n` of them. -/
def readAt (f : List Byte) (off n : Nat) : List Byte := (f.drop off).take n

/-- Put `d` at `off`, filling a gap before it with zeros. -/
def writeAt (f : List Byte) (off : Nat) (d : List Byte) : List Byte :=
  if d.isEmpty then f
  else f.take off ++ List.replicate (off - f.length) 0 ++ d ++ f.drop (off + d.length)

/-! ## Reading -/

variable (f : List Byte) (off n k : Nat)

theorem length_readAt : (readAt f off n).length = min n (f.length - off) := by
  simp [readAt]

theorem getElem?_readAt (off n i : Nat) : (readAt f off n)[i]? = if i < n then f[off + i]? else none := by
  simp [readAt, List.getElem?_take, List.getElem?_drop]

@[simp] theorem readAt_zero : readAt f off 0 = [] := by
  simp [readAt]

/-- Everything there is. -/
@[simp] theorem readAt_all (f : List Byte) : readAt f 0 f.length = f := by
  simp [readAt]

theorem readAt_take : (readAt f off n).take k = readAt f off (min k n) := by
  simp [readAt, List.take_take]

theorem readAt_drop : (readAt f off n).drop k = readAt f (off + k) (n - k) := by
  simp [readAt, List.drop_take, List.drop_drop]

theorem readAt_append (off k n : Nat) : readAt f off k ++ readAt f (off + k) n = readAt f off (k + n) := by
  simp only [readAt]
  rw [← List.drop_drop, List.take_add]

/-- Asking for exactly what came back gives the same. -/
theorem readAt_length_self : readAt f off (readAt f off n).length = readAt f off n := by
  simp only [readAt, List.length_take, List.length_drop]
  simp

/-! ## Writing -/

@[simp] theorem writeAt_nil : writeAt f off [] = f := rfl

variable {d f : List Byte} {off : Nat}

theorem length_writeAt (hd : d ≠ []) (f : List Byte) (off : Nat) :
    (writeAt f off d).length = max f.length (off + d.length) := by
  have hd' : d.isEmpty = false := by simpa using hd
  simp [writeAt, hd']
  omega

/-- Every byte of a file after a write: the written ones, the old ones, the zeros
of a gap, and nothing past the end. -/
theorem getElem?_writeAt (hd : d ≠ []) (f : List Byte) (off i : Nat) :
    (writeAt f off d)[i]? =
      if i < off then (if i < f.length then f[i]? else some 0)
      else if i < off + d.length then d[i - off]?
      else f[i]? := by
  have hd' : d.isEmpty = false := by simpa using hd
  simp only [writeAt, hd', Bool.false_eq_true, if_false, List.append_assoc]
  rw [List.getElem?_append]
  simp only [List.length_take]
  split
  · have h₁ : i < off := by omega
    have h₂ : i < f.length := by omega
    simp [h₁, h₂]
  · rw [List.getElem?_append]
    simp only [List.length_replicate]
    split
    · rename_i h'
      have h₁ : i < off := by omega
      have h₂ : ¬ i < f.length := by omega
      rw [List.getElem?_replicate, if_pos h', if_pos h₁, if_neg h₂]
    · have h₁ : ¬ i < off := by omega
      simp only [h₁, if_false]
      have h₂ : i - min off f.length - (off - f.length) = i - off := by omega
      rw [h₂, List.getElem?_append]
      by_cases h₃ : i < off + d.length
      · have h₄ : i - off < d.length := by omega
        simp [h₃, h₄]
      · have h₄ : ¬ i - off < d.length := by omega
        have h₅ : off + d.length + (i - off - d.length) = i := by omega
        simp [h₃, h₄, List.getElem?_drop, h₅]

/-- Two writes, the second right behind the first, are one. -/
theorem writeAt_writeAt_append (f : List Byte) (off : Nat) (d e : List Byte) :
    writeAt (writeAt f off d) (off + d.length) e = writeAt f off (d ++ e) := by
  by_cases hd : d = []
  · subst hd; simp
  by_cases he : e = []
  · subst he; simp
  have hde : d ++ e ≠ [] := by simp [hd]
  apply List.ext_getElem?
  intro i
  rw [getElem?_writeAt he, getElem?_writeAt hde, getElem?_writeAt hd, length_writeAt hd,
    List.getElem?_append, List.length_append]
  by_cases h₁ : i < off
  · have : i < off + d.length := by omega
    have h₂ : i < max f.length (off + d.length) := by omega
    simp [h₁, this, h₂]
  · by_cases h₂ : i < off + d.length
    · have h₃ : i < max f.length (off + d.length) := by omega
      have h₄ : i < off + (d.length + e.length) := by omega
      have h₅ : i - off < d.length := by omega
      simp [h₁, h₂, h₃, h₄, h₅]
    · have h₅ : ¬ i - off < d.length := by omega
      have h₆ : i - off - d.length = i - (off + d.length) := by omega
      simp [h₁, h₂, h₅, h₆, Nat.add_assoc]

/-- A write into a piece that is put at `start` is a write into the file, unless a gap
in the piece covers bytes the file has there. -/
theorem writeAt_writeAt_sub {b : List Byte} {start : Nat} (hoff : start ≤ off)
    (hgap : off ≤ start + b.length ∨ f.length ≤ start + b.length) (d : List Byte) :
    writeAt f start (writeAt b (off - start) d) = writeAt (writeAt f start b) off d := by
  by_cases hd : d = []
  · subst hd; simp
  have hdl : 0 < d.length := List.length_pos_iff.mpr hd
  have hlen := length_writeAt hd b (off - start)
  have hbd : writeAt b (off - start) d ≠ [] := by
    intro h
    rw [h, List.length_nil] at hlen
    omega
  apply List.ext_getElem?
  intro i
  rw [getElem?_writeAt hbd, getElem?_writeAt hd, hlen, getElem?_writeAt hd]
  by_cases hb : b = []
  · subst hb
    simp only [writeAt_nil, List.length_nil, Nat.not_lt_zero, if_false, List.getElem?_nil]
    grind
  · rw [getElem?_writeAt hb, length_writeAt hb]
    grind

/-- A write from the very start of an empty file is the file. -/
theorem writeAt_empty (d : List Byte) : writeAt [] 0 d = d := by
  by_cases hd : d = []
  · subst hd; rfl
  · have hd' : d.isEmpty = false := by simpa using hd
    simp [writeAt, hd']

/-- A write at the end of a file appends. -/
theorem writeAt_length (f d : List Byte) : writeAt f f.length d = f ++ d := by
  by_cases hd : d = []
  · subst hd; simp
  · have hd' : d.isEmpty = false := by simpa using hd
    simp [writeAt, hd', List.drop_of_length_le]

/-- The beginning of a file up to the end of a write that leaves no gap. -/
theorem take_writeAt (h : off ≤ f.length) (d : List Byte) :
    (writeAt f off d).take (off + d.length) = f.take off ++ d := by
  by_cases hd : d = []
  · subst hd; simp
  · have hd' : d.isEmpty = false := by simpa using hd
    have hgap : off - f.length = 0 := by omega
    have hlen : (f.take off ++ d).length = off + d.length := by simp; omega
    simp only [writeAt, hd', Bool.false_eq_true, if_false, hgap, List.replicate_zero, List.append_nil]
    rw [← hlen, List.take_left]

theorem readAt_writeAt_self (f : List Byte) (off : Nat) (d : List Byte) :
    readAt (writeAt f off d) off d.length = d := by
  by_cases hd : d = []
  · subst hd; simp
  apply List.ext_getElem?
  intro i
  rw [getElem?_readAt, getElem?_writeAt hd]
  by_cases hi : i < d.length
  · have h₁ : ¬ off + i < off := by omega
    simp [hi, h₁]
  · simp [hi]

end ByteFile
