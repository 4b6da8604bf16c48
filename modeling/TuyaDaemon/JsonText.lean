import TuyaDaemon.JsonLiteral

/-!
# The grammar of JSON texts

Which sequences of bytes are JSON, as relations between a text and what is left of it. Bytes
from 0x80 on stand for themselves. Nothing is said about the value of a text: a library may
refuse a text for reasons of its own.
-/

namespace TuyaDaemon.JsonText

set_option autoImplicit false

open JsonLiteral

def IsDigit (c : UInt8) : Prop := 48 ≤ c ∧ c ≤ 57

instance (c : UInt8) : Decidable (IsDigit c) := inferInstanceAs (Decidable (_ ∧ _))

inductive Digits : List UInt8 → List UInt8 → Prop where
  | last {c : UInt8} (hc : IsDigit c) (rest : List UInt8) : Digits (c :: rest) rest
  | cons {c : UInt8} {input rest : List UInt8} (hc : IsDigit c) (tail : Digits input rest) :
      Digits (c :: input) rest

/-- Without a leading zero, but for zero itself. -/
inductive Natural : List UInt8 → List UInt8 → Prop where
  | digit {c : UInt8} (hc : IsDigit c) (rest : List UInt8) : Natural (c :: rest) rest
  | digits {c : UInt8} {input rest : List UInt8} (hc : IsDigit c) (hzero : c ≠ 48)
      (tail : Digits input rest) : Natural (c :: input) rest

inductive Fraction : List UInt8 → List UInt8 → Prop where
  | none (rest : List UInt8) : Fraction rest rest
  | some {input rest : List UInt8} (tail : Digits input rest) : Fraction (46 :: input) rest

inductive Exponent : List UInt8 → List UInt8 → Prop where
  | none (rest : List UInt8) : Exponent rest rest
  | some {e : UInt8} {input rest : List UInt8} (he : e = 69 ∨ e = 101) (tail : Digits input rest) :
      Exponent (e :: input) rest
  | signed {e sign : UInt8} {input rest : List UInt8} (he : e = 69 ∨ e = 101)
      (hsign : sign = 43 ∨ sign = 45) (tail : Digits input rest) :
      Exponent (e :: sign :: input) rest

inductive Number : List UInt8 → List UInt8 → Prop where
  | positive {input s t rest : List UInt8} (whole : Natural input s) (fraction : Fraction s t)
      (exponent : Exponent t rest) : Number input rest
  | negative {input s t rest : List UInt8} (whole : Natural input s) (fraction : Fraction s t)
      (exponent : Exponent t rest) : Number (45 :: input) rest

/-- After an opening quote. Any four digits make an escape, whether they denote a character
or half a surrogate pair. -/
inductive Quoted : List UInt8 → List UInt8 → Prop where
  | close (rest : List UInt8) : Quoted (34 :: rest) rest
  | plain {c : UInt8} {input rest : List UInt8} (hc : IsPlain c) (tail : Quoted input rest) :
      Quoted (c :: input) rest
  | escape {e : UInt8} {input rest : List UInt8} (he : (simpleEscape e).isSome = true)
      (tail : Quoted input rest) : Quoted (92 :: e :: input) rest
  | unicode {a b c d : UInt8} {input rest : List UInt8} (hn : (hex4 a b c d).isSome = true)
      (tail : Quoted input rest) : Quoted (92 :: 117 :: a :: b :: c :: d :: input) rest

/-- Any amount of white space. -/
def Skips (input rest : List UInt8) : Prop := ∃ w, Spaces w ∧ input = w ++ rest

theorem Skips.refl (input : List UInt8) : Skips input input := ⟨[], nofun, rfl⟩

mutual
inductive Value : List UInt8 → List UInt8 → Prop where
  | null (rest : List UInt8) : Value (110 :: 117 :: 108 :: 108 :: rest) rest
  | true (rest : List UInt8) : Value (116 :: 114 :: 117 :: 101 :: rest) rest
  | false (rest : List UInt8) : Value (102 :: 97 :: 108 :: 115 :: 101 :: rest) rest
  | number {input rest : List UInt8} (h : Number input rest) : Value input rest
  | string {input rest : List UInt8} (h : Quoted input rest) : Value (34 :: input) rest
  | noElements {input rest : List UInt8} (h : Skips input (93 :: rest)) : Value (91 :: input) rest
  | array {input rest : List UInt8} (h : Elements input rest) : Value (91 :: input) rest
  | noMembers {input rest : List UInt8} (h : Skips input (125 :: rest)) : Value (123 :: input) rest
  | object {input rest : List UInt8} (h : Members input rest) : Value (123 :: input) rest

/-- A value with white space around it. -/
inductive Element : List UInt8 → List UInt8 → Prop where
  | mk {input s t rest : List UInt8} (before : Skips input s) (value : Value s t)
      (after : Skips t rest) : Element input rest

inductive Elements : List UInt8 → List UInt8 → Prop where
  | last {input rest : List UInt8} (h : Element input (93 :: rest)) : Elements input rest
  | cons {input s rest : List UInt8} (h : Element input (44 :: s)) (tail : Elements s rest) :
      Elements input rest

inductive Member : List UInt8 → List UInt8 → Prop where
  | mk {input s t u rest : List UInt8} (before : Skips input (34 :: s)) (name : Quoted s t)
      (after : Skips t (58 :: u)) (value : Element u rest) : Member input rest

inductive Members : List UInt8 → List UInt8 → Prop where
  | last {input rest : List UInt8} (h : Member input (125 :: rest)) : Members input rest
  | cons {input s rest : List UInt8} (h : Member input (44 :: s)) (tail : Members s rest) :
      Members input rest
end

/-- The text is JSON, from its first byte to its last. -/
def Valid (text : List UInt8) : Prop := Element text []

theorem Element.of_value {input rest : List UInt8} (h : Value input rest) : Element input rest :=
  .mk (.refl input) h (.refl rest)

theorem Value.of_digit {c : UInt8} (hc : IsDigit c) (rest : List UInt8) :
    Value (c :: rest) rest :=
  .number (.positive (.digit hc rest) (.none rest) (.none rest))

end TuyaDaemon.JsonText
