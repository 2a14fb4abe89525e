import Rush.Foundation.Text
import Mathlib.Algebra.Order.Group.Nat
import Mathlib.Tactic.Ring

/-!
# Decimal numerals of a fixed width

Zero-padded numerals of one width are ordered as strings exactly as their values
are ordered as numbers, and the parser of unsigned numbers reads them back.
-/

namespace Rush
namespace Foundation

open Nat (ofDigitChars toDigits)

/-- `format!("{:0width$}", n)`. -/
def zeroPadded (width n : Nat) : Str :=
  List.replicate (width - (toDigits 10 n).length) '0' ++ toDigits 10 n

theorem length_zeroPadded {width n : Nat} (hwidth : 0 < width)
    (hn : n < 10 ^ width) : (zeroPadded width n).length = width := by
  have hle : (toDigits 10 n).length ≤ width :=
    (Nat.length_toDigits_le_iff (by decide) hwidth).mpr hn
  simp only [zeroPadded, List.length_append, List.length_replicate]
  omega

theorem isDigit_of_mem_zeroPadded {width n : Nat} {c : Char}
    (hc : c ∈ zeroPadded width n) : c.isDigit := by
  rcases List.mem_append.mp hc with hzero | hdigit
  · rw [List.eq_of_mem_replicate hzero]
    rfl
  · exact Nat.isDigit_of_mem_toDigits (by decide) (by decide) hdigit

theorem ofDigitChars_zeroPadded (width n : Nat) :
    ofDigitChars 10 (zeroPadded width n) 0 = n := by
  unfold zeroPadded
  rw [Nat.ofDigitChars_append, Nat.ofDigitChars_replicate_zero, Nat.mul_zero,
    Nat.ofDigitChars_ten_toDigits]

theorem ofDigitChars_cons_eq (c : Char) (cs : Str) :
    ofDigitChars 10 (c :: cs) 0 =
      10 ^ cs.length * (c.toNat - '0'.toNat) + ofDigitChars 10 cs 0 := by
  rw [Nat.ofDigitChars_cons, Nat.ofDigitChars_eq_ofDigitChars_zero,
    Nat.mul_zero, Nat.zero_add]

theorem toNat_of_isDigit {c : Char} (hc : c.isDigit) :
    '0'.toNat ≤ c.toNat ∧ c.toNat ≤ '0'.toNat + 9 := by
  simp only [Char.isDigit, Bool.and_eq_true, decide_eq_true_eq] at hc
  exact ⟨hc.1, hc.2⟩

theorem ofDigitChars_lt {cs : Str} (hcs : ∀ c ∈ cs, c.isDigit) :
    ofDigitChars 10 cs 0 < 10 ^ cs.length := by
  induction cs with
  | nil => simp
  | cons c cs ih =>
      have hrest := ih fun d hd => hcs d (List.mem_cons_of_mem c hd)
      have hc := toNat_of_isDigit (hcs c List.mem_cons_self)
      have hdigit : c.toNat - '0'.toNat ≤ 9 := by omega
      calc ofDigitChars 10 (c :: cs) 0
          = 10 ^ cs.length * (c.toNat - '0'.toNat) + ofDigitChars 10 cs 0 :=
            ofDigitChars_cons_eq c cs
        _ < 10 ^ cs.length * 9 + 10 ^ cs.length :=
            Nat.add_lt_add_of_le_of_lt (Nat.mul_le_mul_left _ hdigit) hrest
        _ = 10 ^ (c :: cs).length := by
            rw [List.length_cons, Nat.pow_succ]
            ring

theorem compare_char (x y : Char) : compare x y = compare x.toNat y.toNat := by
  show compareOfLessAndEq x y = compareOfLessAndEq x.toNat y.toNat
  unfold compareOfLessAndEq
  simp only [Char.lt_def, UInt32.lt_iff_toNat_lt, Char.toNat_val,
    ← Char.toNat_inj]

theorem compare_digit {x y : Char} (hx : x.isDigit) (hy : y.isDigit) :
    compare x y = compare (x.toNat - '0'.toNat) (y.toNat - '0'.toNat) := by
  have hx' := toNat_of_isDigit hx
  have hy' := toNat_of_isDigit hy
  rw [compare_char, Nat.compare_eq_ite_lt, Nat.compare_eq_ite_lt]
  have hlt : x.toNat - '0'.toNat < y.toNat - '0'.toNat ↔ x.toNat < y.toNat := by
    omega
  have hgt : y.toNat - '0'.toNat < x.toNat - '0'.toNat ↔ y.toNat < x.toNat := by
    omega
  simp only [hlt, hgt]

/-- The greater leading digit makes the greater number. -/
theorem leading_digit_lt {width x y a b : Nat} (hxy : x < y)
    (ha : a < 10 ^ width) : 10 ^ width * x + a < 10 ^ width * y + b :=
  calc 10 ^ width * x + a
      < 10 ^ width * x + 10 ^ width := Nat.add_lt_add_left ha _
    _ = 10 ^ width * (x + 1) := by ring
    _ ≤ 10 ^ width * y := Nat.mul_le_mul_left _ hxy
    _ ≤ 10 ^ width * y + b := Nat.le_add_right _ _

/-- Numerals of one width compare as their values do. -/
theorem compare_eq_compare_ofDigitChars {xs ys : Str}
    (hxs : ∀ c ∈ xs, c.isDigit) (hys : ∀ c ∈ ys, c.isDigit)
    (hlength : xs.length = ys.length) :
    compare xs ys = compare (ofDigitChars 10 xs 0) (ofDigitChars 10 ys 0) := by
  induction xs generalizing ys with
  | nil =>
      obtain rfl : ys = [] := List.eq_nil_of_length_eq_zero hlength.symm
      rfl
  | cons x xs ih =>
      cases ys with
      | nil => simp at hlength
      | cons y ys =>
          have hlength' : xs.length = ys.length := by simpa using hlength
          have hxs' : ∀ c ∈ xs, c.isDigit :=
            fun c hc => hxs c (List.mem_cons_of_mem x hc)
          have hys' : ∀ c ∈ ys, c.isDigit :=
            fun c hc => hys c (List.mem_cons_of_mem y hc)
          have hltx := ofDigitChars_lt hxs'
          have hlty := ofDigitChars_lt hys'
          rw [← hlength'] at hlty
          rw [List.compare_cons_cons, ofDigitChars_cons_eq,
            ofDigitChars_cons_eq, ← hlength',
            compare_digit (hxs x List.mem_cons_self) (hys y List.mem_cons_self)]
          -- the leading digit decides unless the digits agree
          rcases Nat.lt_trichotomy (x.toNat - '0'.toNat) (y.toNat - '0'.toNat)
            with hlt | heq | hgt
          · rw [Nat.compare_eq_lt.mpr hlt]
            exact (Nat.compare_eq_lt.mpr (leading_digit_lt hlt hltx)).symm
          · rw [heq, Nat.compare_eq_eq.mpr rfl, ih hxs' hys' hlength']
            simp [Nat.compare_eq_ite_lt]
          · rw [Nat.compare_eq_gt.mpr hgt]
            exact (Nat.compare_eq_gt.mpr (leading_digit_lt hgt hlty)).symm

theorem compare_zeroPadded {width m n : Nat} (hwidth : 0 < width)
    (hm : m < 10 ^ width) (hn : n < 10 ^ width) :
    compare (zeroPadded width m) (zeroPadded width n) = compare m n := by
  rw [compare_eq_compare_ofDigitChars
      (fun _ hc => isDigit_of_mem_zeroPadded hc)
      (fun _ hc => isDigit_of_mem_zeroPadded hc)
      (by rw [length_zeroPadded hwidth hm, length_zeroPadded hwidth hn]),
    ofDigitChars_zeroPadded, ofDigitChars_zeroPadded]

/-- The digit loop of `u64::from_str`, with the error that stops it. -/
def parseDigits (value : Nat) : Str → Except String UInt64
  | [] => .ok (UInt64.ofNat value)
  | c :: cs =>
      if c.isDigit then
        let next := value * 10 + (c.toNat - '0'.toNat)
        if next < 2 ^ 64 then parseDigits next cs
        else .error "number too large to fit in target type"
      else .error "invalid digit found in string"

/-- `u64::from_str`; errors are the texts of `ParseIntError`. -/
def parseU64 : Str → Except String UInt64
  | [] => .error "cannot parse integer from empty string"
  | ['+'] => .error "invalid digit found in string"
  | ['-'] => .error "invalid digit found in string"
  | '+' :: digits => parseDigits 0 digits
  | digits => parseDigits 0 digits

theorem le_ofDigitChars (cs : Str) (value : Nat) :
    value ≤ ofDigitChars 10 cs value := by
  induction cs generalizing value with
  | nil => simp
  | cons c cs ih =>
      rw [Nat.ofDigitChars_cons]
      have hnext := ih (10 * value + (c.toNat - '0'.toNat))
      omega

theorem parseDigits_eq_ok {cs : Str} {value : Nat} (hcs : ∀ c ∈ cs, c.isDigit)
    (hbound : ofDigitChars 10 cs value < 2 ^ 64) :
    parseDigits value cs = .ok (UInt64.ofNat (ofDigitChars 10 cs value)) := by
  induction cs generalizing value with
  | nil => simp [parseDigits]
  | cons c cs ih =>
      rw [Nat.ofDigitChars_cons, Nat.mul_comm 10] at hbound
      have hnext := le_ofDigitChars cs (value * 10 + (c.toNat - '0'.toNat))
      rw [parseDigits, if_pos (hcs c List.mem_cons_self)]
      show (if value * 10 + (c.toNat - '0'.toNat) < 2 ^ 64 then _ else _) = _
      rw [if_pos (Nat.lt_of_le_of_lt hnext hbound),
        ih (fun d hd => hcs d (List.mem_cons_of_mem c hd)) hbound,
        Nat.ofDigitChars_cons, Nat.mul_comm 10]

/-- A nonempty string of digits is parsed to its value. -/
theorem parseU64_eq_ok {cs : Str} (hne : cs ≠ []) (hcs : ∀ c ∈ cs, c.isDigit)
    (hbound : ofDigitChars 10 cs 0 < 2 ^ 64) :
    parseU64 cs = .ok (UInt64.ofNat (ofDigitChars 10 cs 0)) := by
  cases cs with
  | nil => contradiction
  | cons c cs =>
      have hc : c.isDigit := hcs c List.mem_cons_self
      have hplus : c ≠ '+' := by
        rintro rfl
        contradiction
      have hminus : c ≠ '-' := by
        rintro rfl
        contradiction
      rw [← parseDigits_eq_ok hcs hbound]
      unfold parseU64
      split <;> simp_all

end Foundation
end Rush
