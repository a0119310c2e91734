-- SUMMARY: An opened data object on the server: read, write and lseek at its position.
import Irods.Base.ByteFile

open ByteFile

/-!
# Opened data objects

The server side of `rcDataObjRead`, `rcDataObjWrite` and `rcDataObjLseek` on one
descriptor, when the calls succeed: a read returns as many bytes as remain up to
the length asked for, a write puts all its bytes at the current position.
-/

inductive Whence where
  | seekSet
  | seekCur
  | seekEnd
  deriving DecidableEq

/-- The content of the object and the descriptor's file position. -/
structure OpenedDataObj where
  content : List Byte
  pos : Nat
  deriving DecidableEq

namespace OpenedDataObj

def rcDataObjRead (r : OpenedDataObj) (len : Nat) : OpenedDataObj × List Byte :=
  let bs := readAt r.content r.pos len
  ({ r with pos := r.pos + bs.length }, bs)

def rcDataObjWrite (r : OpenedDataObj) (d : List Byte) : OpenedDataObj :=
  { content := writeAt r.content r.pos d, pos := r.pos + d.length }

/-- A seek to a negative position fails; past the end of the object it succeeds. -/
def rcDataObjLseek (r : OpenedDataObj) (offset : Int) (whence : Whence) : Option OpenedDataObj :=
  let target : Int :=
    match whence with
    | .seekSet => offset
    | .seekCur => r.pos + offset
    | .seekEnd => r.content.length + offset
  if target < 0 then none else some { r with pos := target.toNat }

variable (r : OpenedDataObj)

theorem rcDataObjLseek_cur_zero : r.rcDataObjLseek 0 .seekCur = some r := by
  simp [rcDataObjLseek]

/-- Seeking back over what was read restores the position. -/
theorem rcDataObjLseek_cur_neg {k : Nat} (hk : k ≤ r.pos) :
    r.rcDataObjLseek (-(k : Int)) .seekCur = some { r with pos := r.pos - k } := by
  have h : ¬ (r.pos : Int) + -(k : Int) < 0 := by omega
  have ht : ((r.pos : Int) + -(k : Int)).toNat = r.pos - k := by omega
  simp [rcDataObjLseek, h, ht]

@[simp] theorem rcDataObjWrite_nil : r.rcDataObjWrite [] = r := by
  simp [rcDataObjWrite]

end OpenedDataObj
