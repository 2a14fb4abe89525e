import Rush.Foundation.Decimal

/-!
# The byte order of texts

Databases and Rust's `Ord for str` compare the bytes of the UTF-8 encodings; the
model compares scalar values.  Both orders agree, since UTF-8 is an ordered
code: of two different scalar values the smaller one has the smaller code word,
and the words differ before one of them ends.
-/

namespace Rush
namespace Foundation

section Codes

variable {α β : Type*} [Ord α] [Ord β]

/-- Two letters in order have code words that differ in order, whatever
follows. -/
def OrderedCode (code : α → List β) : Prop :=
  ∀ a b, compare a b = .lt → ∀ x y, compare (code a ++ x) (code b ++ y) = .lt

theorem compare_append_self [Std.ReflOrd β] (w x y : List β) :
    compare (w ++ x) (w ++ y) = compare x y := by
  induction w with
  | nil => rfl
  | cons b w ih => simp [ih, Std.ReflOrd.compare_self]

/-- **An ordered code keeps the lexicographic order.** -/
theorem OrderedCode.compare_flatMap [Std.OrientedOrd α] [Std.LawfulEqOrd α]
    [Std.OrientedOrd β] {code : α → List β} (h : OrderedCode code)
    (hne : ∀ a, code a ≠ []) (s t : List α) :
    compare (s.flatMap code) (t.flatMap code) = compare s t := by
  induction s generalizing t with
  | nil =>
      cases t with
      | nil => rfl
      | cons b t =>
          obtain ⟨u, w, hcode⟩ := List.exists_cons_of_ne_nil (hne b)
          simp [hcode]
  | cons a s ih =>
      cases t with
      | nil =>
          obtain ⟨u, w, hcode⟩ := List.exists_cons_of_ne_nil (hne a)
          simp [hcode]
      | cons b t =>
          rw [List.flatMap_cons, List.flatMap_cons, List.compare_cons_cons]
          cases hab : compare a b with
          | lt => exact h a b hab _ _
          | eq =>
              obtain rfl : a = b := Std.LawfulEqOrd.eq_of_compare hab
              rw [compare_append_self, ih]
              rfl
          | gt =>
              have hba := Std.OrientedCmp.gt_iff_lt.mp hab
              exact Std.OrientedCmp.gt_iff_lt.mpr (h b a hba _ _)

end Codes

section Utf8

theorem compare_uint8 (u v : UInt8) : compare u v = compare u.toNat v.toNat := by
  show compareOfLessAndEq u v = compareOfLessAndEq u.toNat v.toNat
  unfold compareOfLessAndEq
  simp only [UInt8.lt_iff_toNat_lt, ← UInt8.toNat_inj]

/-- The first byte decides, or it is the same. -/
theorem compare_bytes_lt {m n : Nat} (hn : n < 256) {x y : List UInt8}
    (hle : m ≤ n) (hrest : m = n → compare x y = .lt) :
    compare (UInt8.ofNat m :: x) (UInt8.ofNat n :: y) = .lt := by
  have hbytes : compare (UInt8.ofNat m) (UInt8.ofNat n) = compare m n := by
    rw [compare_uint8, UInt8.toNat_ofNat', UInt8.toNat_ofNat',
      Nat.mod_eq_of_lt (Nat.lt_of_le_of_lt hle hn), Nat.mod_eq_of_lt hn]
  rw [List.compare_cons_cons, hbytes]
  rcases Nat.lt_or_eq_of_le hle with hlt | rfl
  · rw [Nat.compare_eq_lt.mpr hlt]
    rfl
  · rw [Nat.compare_eq_eq.mpr rfl, hrest rfl]
    rfl

/-- Words of different lengths begin with different bytes. -/
theorem compare_leads_lt {m n : Nat} (hn : n < 256) (hlt : m < n)
    (x y : List UInt8) :
    compare (UInt8.ofNat m :: x) (UInt8.ofNat n :: y) = .lt :=
  compare_bytes_lt hn (by omega) fun heq => absurd heq (by omega)

variable {m n : Nat} (x y : List UInt8)

/-- One continuation byte. -/
theorem compare_tail_lt (h : m % 64 < n % 64) :
    compare (UInt8.ofNat (m % 64 + 128) :: x) (UInt8.ofNat (n % 64 + 128) :: y) =
      .lt :=
  compare_leads_lt (by omega) (by omega) x y

/-- Two continuation bytes. -/
theorem compare_tails_lt (h : m % 4096 < n % 4096) :
    compare
        (UInt8.ofNat (m / 64 % 64 + 128) :: UInt8.ofNat (m % 64 + 128) :: x)
        (UInt8.ofNat (n / 64 % 64 + 128) :: UInt8.ofNat (n % 64 + 128) :: y) =
      .lt := by
  refine compare_bytes_lt (by omega) (by omega) fun heq => ?_
  exact compare_tail_lt x y (by omega)

/-- Three continuation bytes. -/
theorem compare_threeTails_lt (h : m % 262144 < n % 262144) :
    compare
        (UInt8.ofNat (m / 4096 % 64 + 128) :: UInt8.ofNat (m / 64 % 64 + 128) ::
          UInt8.ofNat (m % 64 + 128) :: x)
        (UInt8.ofNat (n / 4096 % 64 + 128) :: UInt8.ofNat (n / 64 % 64 + 128) ::
          UInt8.ofNat (n % 64 + 128) :: y) =
      .lt := by
  refine compare_bytes_lt (by omega) (by omega) fun heq => ?_
  exact compare_tails_lt x y (by omega)

theorem toNat_le_max (c : Char) : c.toNat ≤ 0x10ffff := by
  have hvalid : c.toNat < 0xd800 ∨ 0xdfff < c.toNat ∧ c.toNat < 0x110000 := c.valid
  omega

/-- The first byte tells the length of a code word; words of one length are
ordered as numerals to the base 64. -/
theorem orderedCode_utf8 : OrderedCode String.utf8EncodeChar := by
  intro c d hlt x y
  rw [compare_char, Nat.compare_eq_lt] at hlt
  have hd := toNat_le_max d
  simp only [String.utf8EncodeChar, Char.toNat_val]
  generalize c.toNat = m at hlt
  generalize d.toNat = n at hlt hd
  by_cases hone : m ≤ 0x7f
  · rw [if_pos hone]
    split_ifs <;> exact compare_leads_lt (by omega) (by omega) _ _
  rw [if_neg hone, if_neg (by omega : ¬n ≤ 0x7f)]
  by_cases htwo : m ≤ 0x7ff
  · rw [if_pos htwo]
    split_ifs with htwo'
    · refine compare_bytes_lt (by omega) (by omega) fun heq => ?_
      exact compare_tail_lt x y (by omega)
    all_goals exact compare_leads_lt (by omega) (by omega) _ _
  rw [if_neg htwo, if_neg (by omega : ¬n ≤ 0x7ff)]
  by_cases hthree : m ≤ 0xffff
  · rw [if_pos hthree]
    split_ifs with hthree'
    · refine compare_bytes_lt (by omega) (by omega) fun heq => ?_
      exact compare_tails_lt x y (by omega)
    · exact compare_leads_lt (by omega) (by omega) _ _
  rw [if_neg hthree, if_neg (by omega : ¬n ≤ 0xffff)]
  refine compare_bytes_lt (by omega) (by omega) fun heq => ?_
  exact compare_threeTails_lt x y (by omega)

end Utf8

/-- The bytes of a text. -/
def utf8Bytes (s : Str) : List UInt8 := s.flatMap String.utf8EncodeChar

/-- **Texts compare as their bytes do.** -/
theorem compare_utf8Bytes (s t : Str) :
    compare (utf8Bytes s) (utf8Bytes t) = compare s t :=
  orderedCode_utf8.compare_flatMap (fun _ => String.utf8EncodeChar_ne_nil) s t

end Foundation
end Rush
