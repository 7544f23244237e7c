import Mathlib.Tactic.Common

/-!
# UTF-8

The byte sequences of UTF-8, by the ranges of their bytes (`Utf8.IsSequence`):
the shortest form for a scalar value, no surrogates, nothing above `U+10FFFF`.
They are the encodings of the characters (`Utf8.isSequence_encode`,
`Utf8.exists_encode`).
-/

namespace Utf8

/-- A continuation byte. -/
def IsTail (b : UInt8) : Prop := 0x80 ≤ b ∧ b ≤ 0xbf

/-- The bytes of one scalar value. -/
def IsSequence : List UInt8 → Prop
  | [a] => a ≤ 0x7f
  | [a, b] => (0xc2 ≤ a ∧ a ≤ 0xdf) ∧ IsTail b
  | [a, b, c] =>
    (0xe0 ≤ a ∧ a ≤ 0xef) ∧ IsTail b ∧ IsTail c ∧ (a = 0xe0 → 0xa0 ≤ b) ∧ (a = 0xed → b ≤ 0x9f)
  | [a, b, c, d] =>
    (0xf0 ≤ a ∧ a ≤ 0xf4) ∧ IsTail b ∧ IsTail c ∧ IsTail d ∧ (a = 0xf0 → 0x90 ≤ b) ∧
      (a = 0xf4 → b ≤ 0x8f)
  | _ => False

theorem exists_char {n : Nat} (h : n.isValidChar) : ∃ c : Char, c.val.toNat = n :=
  ⟨Char.ofNatAux n h, rfl⟩

/-- The encoding of a character is one of the sequences. -/
theorem isSequence_encode (c : Char) : IsSequence (String.utf8EncodeChar c) := by
  have hvalid : c.val.toNat < 0xd800 ∨ 0xdfff < c.val.toNat ∧ c.val.toNat < 0x110000 := c.valid
  rw [String.utf8EncodeChar]
  generalize c.val.toNat = v at hvalid
  split_ifs <;> simp only [IsSequence, IsTail, UInt8.le_iff_toNat_le, ← UInt8.toNat_inj,
    UInt8.toNat_ofNat', UInt8.reduceToNat] <;> omega

/-- Six bits from each continuation byte, and the rest from the first byte, give
    a character back. -/
theorem exists_encode {u : List UInt8} (h : IsSequence u) : ∃ c, u = String.utf8EncodeChar c := by
  rcases u with _ | ⟨a, _ | ⟨b, _ | ⟨c, _ | ⟨d, _ | ⟨e, u⟩⟩⟩⟩⟩
  · exact h.elim
  · simp only [IsSequence, UInt8.le_iff_toNat_le, UInt8.reduceToNat] at h
    obtain ⟨x, hx⟩ := exists_char (n := a.toNat) (.inl (by omega))
    refine ⟨x, ?_⟩
    rw [String.utf8EncodeChar, hx, if_pos h, UInt8.ofNat_toNat]
  · simp only [IsSequence, IsTail, UInt8.le_iff_toNat_le, UInt8.reduceToNat] at h
    obtain ⟨x, hx⟩ := exists_char (n := (a.toNat - 0xc0) * 64 + (b.toNat - 0x80)) (.inl (by omega))
    refine ⟨x, ?_⟩
    rw [String.utf8EncodeChar, hx, if_neg (by omega), if_pos (by omega)]
    simp only [List.cons.injEq, ← UInt8.toNat_inj, UInt8.toNat_ofNat', and_true]
    omega
  · simp only [IsSequence, IsTail, UInt8.le_iff_toNat_le, ← UInt8.toNat_inj, UInt8.reduceToNat] at h
    obtain ⟨x, hx⟩ := exists_char (n := (a.toNat - 0xe0) * 4096 + (b.toNat - 0x80) * 64 +
      (c.toNat - 0x80)) (by rw [Nat.isValidChar]; omega)
    refine ⟨x, ?_⟩
    rw [String.utf8EncodeChar, hx, if_neg (by omega), if_neg (by omega), if_pos (by omega)]
    simp only [List.cons.injEq, ← UInt8.toNat_inj, UInt8.toNat_ofNat', and_true]
    omega
  · simp only [IsSequence, IsTail, UInt8.le_iff_toNat_le, ← UInt8.toNat_inj, UInt8.reduceToNat] at h
    obtain ⟨x, hx⟩ := exists_char (n := (a.toNat - 0xf0) * 262144 + (b.toNat - 0x80) * 4096 +
      (c.toNat - 0x80) * 64 + (d.toNat - 0x80)) (by rw [Nat.isValidChar]; omega)
    refine ⟨x, ?_⟩
    rw [String.utf8EncodeChar, hx, if_neg (by omega), if_neg (by omega), if_neg (by omega)]
    simp only [List.cons.injEq, ← UInt8.toNat_inj, UInt8.toNat_ofNat', and_true]
    omega
  · exact h.elim

/-- Only `U+0000` is encoded with a zero byte in front. -/
theorem head_encode_eq_zero {c : Char} : (String.utf8EncodeChar c).head? = some 0 ↔
    c = Char.ofNat 0 := by
  have hvalid : c.val.toNat < 0xd800 ∨ 0xdfff < c.val.toNat ∧ c.val.toNat < 0x110000 := c.valid
  have hzero : c = Char.ofNat 0 ↔ c.val.toNat = 0 := Char.toNat_inj.symm
  rw [hzero, String.utf8EncodeChar]
  generalize c.val.toNat = v at hvalid
  split_ifs <;> simp only [List.head?_cons, Option.some.injEq, ← UInt8.toNat_inj,
    UInt8.toNat_ofNat', UInt8.reduceToNat] <;> omega

end Utf8
