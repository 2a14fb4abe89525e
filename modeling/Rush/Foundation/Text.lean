import Mathlib.Data.List.Infix
import Mathlib.Tactic.Common

/-!
# Strings as sequences of Unicode scalar values

A Rust `String` is a UTF-8 byte sequence, but it is compared, searched and cut
only at scalar-value boundaries: an index inside a character panics.  The model
therefore is the list of scalar values.  Lexicographic order on scalar values is
the byte order of their UTF-8 encodings, and byte offsets are recovered through
`utf8Len`.
-/

namespace Rush
namespace Foundation

/-- A string, as its Unicode scalar values. -/
abbrev Str := List Char

/-- The number of bytes of the UTF-8 encoding (Rust's `len`). -/
def utf8Len : Str → Nat
  | [] => 0
  | c :: s => c.utf8Size + utf8Len s

/-- Rust's `&s[n..]`: `none` is the panic for an index out of range or inside a
character. -/
def sliceFrom : Str → Nat → Option Str
  | s, 0 => some s
  | [], _ + 1 => none
  | c :: s, n + 1 =>
      if c.utf8Size ≤ n + 1 then sliceFrom s (n + 1 - c.utf8Size) else none

@[simp] theorem utf8Len_nil : utf8Len [] = 0 := rfl

@[simp] theorem utf8Len_cons (c : Char) (s : Str) :
    utf8Len (c :: s) = c.utf8Size + utf8Len s := rfl

@[simp] theorem sliceFrom_zero (s : Str) : sliceFrom s 0 = some s := by
  cases s <;> rfl

/-- Cutting the bytes of a prefix and `n` more cuts `n` bytes of the rest. -/
theorem sliceFrom_append (p s : Str) (n : Nat) :
    sliceFrom (p ++ s) (utf8Len p + n) = sliceFrom s n := by
  induction p with
  | nil => simp
  | cons c p ih =>
      have hpos : 0 < c.utf8Size := Char.utf8Size_pos c
      obtain ⟨k, hk⟩ : ∃ k, utf8Len (c :: p) + n = k + 1 :=
        ⟨utf8Len (c :: p) + n - 1, by simp only [utf8Len_cons]; omega⟩
      have hle : c.utf8Size ≤ k + 1 := by
        rw [← hk, utf8Len_cons]
        omega
      have hrest : k + 1 - c.utf8Size = utf8Len p + n := by
        rw [← hk, utf8Len_cons]
        omega
      rw [hk, List.cons_append, sliceFrom, if_pos hle, hrest, ih]

/-- Rust's `char::is_whitespace`: the Unicode `White_Space` property. -/
def isWhitespace (c : Char) : Bool :=
  let n := c.toNat
  (9 ≤ n && n ≤ 13) || n == 32 || n == 0x85 || n == 0xA0 || n == 0x1680 ||
    (0x2000 ≤ n && n ≤ 0x200A) || n == 0x2028 || n == 0x2029 || n == 0x202F ||
    n == 0x205F || n == 0x3000

/-- `s.trim().is_empty()`: only whitespace is left. -/
def isBlank (s : Str) : Bool := s.all isWhitespace

/-- The words of a text as error messages spell them. -/
def Str.text (s : Str) : String := String.ofList s

end Foundation
end Rush
