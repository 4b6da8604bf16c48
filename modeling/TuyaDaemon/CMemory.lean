import Mathlib.Data.List.Basic
import Mathlib.Data.List.TakeWhile

/-! C strings, the faults of a bad access, and byte buffers. A string is the list of
its bytes before the terminator; an access that C leaves undefined is a `Fault`. -/

namespace TuyaDaemon
set_option autoImplicit false

abbrev CString := List UInt8

def cstr (s : String) : CString := s.toList.map Char.toUInt8

inductive Fault where
  | nullDereference
  | outOfBounds
  deriving DecidableEq, Repr

def deref {α : Type} : Option α → Except Fault α
  | some a => .ok a
  | none => .error .nullDereference

@[simp] theorem deref_some {α : Type} (a : α) : deref (some a) = .ok a := rfl

structure HeapString where
  addr : Nat
  text : CString
  deriving DecidableEq, Repr

/-- `strcmp(a, b) == 0`, where `b` is a literal. -/
def strcmpEq (a : Option HeapString) (b : CString) : Except Fault Bool := do
  let s ← deref a
  return s.text == b

@[simp] theorem strcmpEq_some (s : HeapString) (b : CString) :
    strcmpEq (some s) b = .ok (s.text == b) := rfl

/-- The array `buf` after `bytes` were stored from index `off` on. -/
def writeAt (buf : List UInt8) (off : Nat) (bytes : List UInt8) : Except Fault (List UInt8) :=
  if off + bytes.length ≤ buf.length then
    .ok (buf.take off ++ bytes ++ buf.drop (off + bytes.length))
  else .error .outOfBounds

theorem writeAt_ok {buf bytes : List UInt8} {off : Nat} (h : off + bytes.length ≤ buf.length) :
    writeAt buf off bytes =
      .ok (buf.take off ++ bytes ++ buf.drop (off + bytes.length)) := if_pos h

theorem writeAt_end (s bytes : List UInt8) {n : Nat} (h : bytes.length ≤ n) :
    writeAt (s ++ List.replicate n 0) s.length bytes =
      .ok (s ++ bytes ++ List.replicate (n - bytes.length) 0) := by
  rw [writeAt_ok (by simpa using h)]
  simp [List.drop_append]

/-- What a C function reads that takes `buf` for a string. -/
def readCString (buf : List UInt8) : CString := buf.takeWhile (· != 0)

theorem readCString_append_nul (s rest : List UInt8) :
    readCString (s ++ 0 :: rest) = readCString s := by
  induction s with
  | nil => rfl
  | cons c s ih =>
    simp only [readCString] at ih
    by_cases hc : c = 0 <;> simp [readCString, hc, ih]

theorem readCString_append {s : List UInt8} (hs : ∀ c ∈ s, c ≠ 0) (t : List UInt8) :
    readCString (s ++ t) = s ++ readCString t := by
  apply List.takeWhile_append_of_pos
  intro c hc
  simp [hs c hc]

theorem readCString_isPrefix (s : List UInt8) : readCString s <+: s :=
  List.takeWhile_prefix _

end TuyaDaemon
