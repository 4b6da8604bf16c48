import Mathlib.Data.List.Basic

/-!
# JSON string literals and one-member objects

The grammar of a string literal, with its value after unescaping, as a relation on bytes.
Bytes from 0x80 on belong to UTF-8 sequences and stand for themselves. A literal is never
shorter than its value, and as long only if nothing in it is escaped.
-/

namespace TuyaDaemon.JsonLiteral

set_option autoImplicit false

/-- A byte that may stand for itself: not `"`, not a backslash, not a control character. -/
def IsPlain (c : UInt8) : Prop := 32 ≤ c ∧ c ≠ 34 ∧ c ≠ 92

instance (c : UInt8) : Decidable (IsPlain c) := inferInstanceAs (Decidable (_ ∧ _ ∧ _))

theorem IsPlain.ne_zero {c : UInt8} (h : IsPlain c) : c ≠ 0 := by
  rintro rfl
  exact absurd h.1 (by decide)

def simpleEscape (e : UInt8) : Option UInt8 :=
  if e = 34 ∨ e = 92 ∨ e = 47 then some e
  else if e = 98 then some 8
  else if e = 102 then some 12
  else if e = 110 then some 10
  else if e = 114 then some 13
  else if e = 116 then some 9
  else none

def hexDigit (c : UInt8) : Option Nat :=
  if 48 ≤ c ∧ c ≤ 57 then some (c.toNat - 48)
  else if 65 ≤ c ∧ c ≤ 70 then some (c.toNat - 55)
  else if 97 ≤ c ∧ c ≤ 102 then some (c.toNat - 87)
  else none

def hex4 (a b c d : UInt8) : Option Nat := do
  return ((← hexDigit a) * 4096 + (← hexDigit b) * 256 + (← hexDigit c) * 16 + (← hexDigit d))

def utf8 (n : Nat) : List UInt8 := String.utf8EncodeChar (Char.ofNat n)

/-- `Chars input value rest`: after an opening quote, `input` is the rest of a string
literal that denotes `value`, and then `rest`. -/
inductive Chars : List UInt8 → List UInt8 → List UInt8 → Prop where
  | close (rest : List UInt8) : Chars (34 :: rest) [] rest
  | plain {c : UInt8} {input value rest : List UInt8} (hc : IsPlain c)
      (tail : Chars input value rest) : Chars (c :: input) (c :: value) rest
  | escape {e c : UInt8} {input value rest : List UInt8} (he : simpleEscape e = some c)
      (tail : Chars input value rest) : Chars (92 :: e :: input) (c :: value) rest
  | unicode {a b c d : UInt8} {n : Nat} {input value rest : List UInt8}
      (hn : hex4 a b c d = some n) (hs : n < 0xD800 ∨ 0xDFFF < n)
      (tail : Chars input value rest) :
      Chars (92 :: 117 :: a :: b :: c :: d :: input) (utf8 n ++ value) rest
  | surrogates {a b c d a' b' c' d' : UInt8} {n n' : Nat} {input value rest : List UInt8}
      (hn : hex4 a b c d = some n) (hh : 0xD800 ≤ n ∧ n ≤ 0xDBFF)
      (hn' : hex4 a' b' c' d' = some n') (hl : 0xDC00 ≤ n' ∧ n' ≤ 0xDFFF)
      (tail : Chars input value rest) :
      Chars (92 :: 117 :: a :: b :: c :: d :: 92 :: 117 :: a' :: b' :: c' :: d' :: input)
        (utf8 (0x10000 + (n - 0xD800) * 0x400 + (n' - 0xDC00)) ++ value) rest

theorem Chars.plain_inv {c : UInt8} {input value rest : List UInt8}
    (h : Chars (c :: input) value rest) (hc : IsPlain c) :
    ∃ value', value = c :: value' ∧ Chars input value' rest := by
  cases h with
  | close => exact absurd rfl hc.2.1
  | plain _ tail => exact ⟨_, rfl, tail⟩
  | escape => exact absurd rfl hc.2.2
  | unicode => exact absurd rfl hc.2.2
  | surrogates => exact absurd rfl hc.2.2

theorem Chars.close_inv {input value rest : List UInt8} (h : Chars (34 :: input) value rest) :
    value = [] ∧ rest = input := by
  cases h with
  | close => exact ⟨rfl, rfl⟩
  | plain hc => exact absurd rfl hc.2.1

theorem Chars.of_plain_inv {text input value rest : List UInt8} (hall : ∀ c ∈ text, IsPlain c)
    (h : Chars (text ++ 34 :: input) value rest) : value = text ∧ rest = input := by
  induction text generalizing value with
  | nil => exact h.close_inv
  | cons c text ih =>
    obtain ⟨value', rfl, htail⟩ := h.plain_inv (hall c List.mem_cons_self)
    obtain ⟨rfl, rfl⟩ := ih (fun d hd => hall d (List.mem_cons_of_mem c hd)) htail
    exact ⟨rfl, rfl⟩

theorem utf8_length_le (n : Nat) : (utf8 n).length ≤ 4 := by
  rw [utf8, String.length_utf8EncodeChar]
  exact Char.utf8Size_le_four _

theorem Chars.of_plain {value : List UInt8} (h : ∀ c ∈ value, IsPlain c) (rest : List UInt8) :
    Chars (value ++ 34 :: rest) value rest := by
  induction value with
  | nil => exact .close rest
  | cons c value ih =>
    exact .plain (h c List.mem_cons_self) (ih fun d hd => h d (List.mem_cons_of_mem c hd))

/-- The text of a literal, its closing quote, and how it compares with the value. -/
theorem Chars.consumed {input value rest : List UInt8} (h : Chars input value rest) :
    ∃ text, input = text ++ 34 :: rest ∧ value.length ≤ text.length ∧
      (value.length = text.length → text = value ∧ ∀ c ∈ value, IsPlain c) := by
  induction h with
  | close rest => exact ⟨[], rfl, Nat.le_refl 0, fun _ => ⟨rfl, nofun⟩⟩
  | @plain c input value rest hc _ ih =>
    obtain ⟨text, rfl, hle, heq⟩ := ih
    refine ⟨c :: text, rfl, Nat.succ_le_succ hle, ?_⟩
    intro hlen
    obtain ⟨rfl, hall⟩ := heq (Nat.succ.inj hlen)
    exact ⟨rfl, List.forall_mem_cons.mpr ⟨hc, hall⟩⟩
  | @escape e c input value rest _ _ ih =>
    obtain ⟨text, rfl, hle, _⟩ := ih
    refine ⟨92 :: e :: text, rfl, ?_, ?_⟩
    · simp only [List.length_cons]
      omega
    · simp only [List.length_cons]
      omega
  | @unicode a b c d n input value rest _ _ _ ih =>
    obtain ⟨text, rfl, hle, _⟩ := ih
    have hutf := utf8_length_le n
    refine ⟨92 :: 117 :: a :: b :: c :: d :: text, rfl, ?_, ?_⟩
    · simp only [List.length_append, List.length_cons]
      omega
    · simp only [List.length_append, List.length_cons]
      omega
  | @surrogates a b c d a' b' c' d' n n' input value rest _ _ _ _ _ ih =>
    obtain ⟨text, rfl, hle, _⟩ := ih
    have hutf := utf8_length_le (0x10000 + (n - 0xD800) * 0x400 + (n' - 0xDC00))
    refine ⟨92 :: 117 :: a :: b :: c :: d :: 92 :: 117 :: a' :: b' :: c' :: d' :: text, rfl,
      ?_, ?_⟩
    · simp only [List.length_append, List.length_cons]
      omega
    · simp only [List.length_append, List.length_cons]
      omega

def IsSpace (c : UInt8) : Prop := c = 32 ∨ c = 9 ∨ c = 10 ∨ c = 13

instance (c : UInt8) : Decidable (IsSpace c) := inferInstanceAs (Decidable (_ ∨ _ ∨ _ ∨ _))

def Spaces (s : List UInt8) : Prop := ∀ c ∈ s, IsSpace c

theorem Spaces.eq_nil {s t : List UInt8} {c : UInt8} {u : List UInt8} (hs : Spaces s)
    (hc : ¬ IsSpace c) (h : c :: u = s ++ t) : s = [] := by
  cases s with
  | nil => rfl
  | cons d s =>
    obtain ⟨rfl, _⟩ := List.cons_eq_cons.mp h
    exact absurd (hs c List.mem_cons_self) hc

/-- `text` is a JSON object with exactly one member, and that is `name` with the string `value`. -/
def OneMember (text name value : List UInt8) : Prop :=
  ∃ w₀ w₁ w₂ w₃ w₄ w₅ t₁ t₂, Spaces w₀ ∧ Spaces w₁ ∧ Spaces w₂ ∧ Spaces w₃ ∧ Spaces w₄ ∧
    Spaces w₅ ∧ text = w₀ ++ 123 :: (w₁ ++ 34 :: t₁) ∧
    Chars t₁ name (w₂ ++ 58 :: (w₃ ++ 34 :: t₂)) ∧ Chars t₂ value (w₄ ++ 125 :: w₅)

end TuyaDaemon.JsonLiteral
