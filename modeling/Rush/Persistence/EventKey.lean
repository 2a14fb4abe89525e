import Rush.Foundation.Decimal
import Mathlib.Data.List.Basic

/-!
# Keys of the event table

The store writes event `i` under `format!("{:020}", i)`.
-/

namespace Rush
namespace Persistence

open Foundation

/-- `format!("{:020}", i)`. -/
def eventKey (i : UInt64) : Str := zeroPadded 20 i.toNat

theorem toNat_lt_ten_pow (i : UInt64) : i.toNat < 10 ^ 20 :=
  Nat.lt_trans i.toNat_lt (by decide)

theorem length_eventKey (i : UInt64) : (eventKey i).length = 20 :=
  length_zeroPadded (by decide) (toNat_lt_ten_pow i)

theorem parseU64_eventKey (i : UInt64) : parseU64 (eventKey i) = .ok i := by
  have hne : eventKey i ≠ [] := by
    intro hnil
    have hlength := length_eventKey i
    rw [hnil] at hlength
    contradiction
  have hvalue : Nat.ofDigitChars 10 (eventKey i) 0 = i.toNat :=
    ofDigitChars_zeroPadded 20 i.toNat
  rw [parseU64_eq_ok hne (fun _ hc => isDigit_of_mem_zeroPadded hc)
    (by rw [hvalue]; exact i.toNat_lt), hvalue, UInt64.ofNat_toNat]

theorem eventKey_inj {i j : UInt64} : eventKey i = eventKey j ↔ i = j := by
  constructor
  · intro h
    have hparse : Except.ok i = (Except.ok j : Except String UInt64) := by
      rw [← parseU64_eventKey i, ← parseU64_eventKey j, h]
    exact Except.ok.inj hparse
  · rintro rfl
    rfl

/-- Event keys are ordered as event numbers. -/
theorem compare_eventKey (i j : UInt64) :
    compare (eventKey i) (eventKey j) = compare i.toNat j.toNat :=
  compare_zeroPadded (by decide) (toNat_lt_ten_pow i) (toNat_lt_ten_pow j)

end Persistence
end Rush
