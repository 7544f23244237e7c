import MqttBroker.Codec.RoundTrip

/-!
# Fixed headers written and read back

The encoder of the remaining length takes four bytes, the decoder three: it
throws in its fourth round, after the byte is read. A fixed header is therefore
read back from what is written for it exactly when the remaining length is below
`2 ^ 21` and the type and the flags fit in half a byte each
(`fixedHeader_roundTrips_iff`); the constructor accepts a PUBLISH with more
flags than that.
-/

namespace MqttBroker

open Reader

/-- `fixed_header(type, flags, remaining_length)`. -/
def fixedHeader (type : PacketType) (flags : UInt8) (remainingLength : Nat) :
    Except String FixedHeader := do
  FixedHeader.checkFlags type flags
  pure { type := type, flags := flags, remainingLength := remainingLength }

/-- A fixed header is written, and read back from that and any tail of bytes,
    which is left. -/
def FixedHeader.RoundTrips (fh : FixedHeader) : Prop :=
  ∃ bytes, fh.serialize = .ok bytes ∧ ∀ tail, decodeFixedHeader (bytes ++ tail) = .ok (fh, tail)

theorem fixedHeader_eq_ok {type : PacketType} {flags : UInt8} {n : Nat} {fh : FixedHeader}
    (h : fixedHeader type flags n = .ok fh) :
    FixedHeader.checkFlags type flags = .ok () ∧ fh = ⟨type, flags, n⟩ := by
  rw [fixedHeader] at h
  rcases hc : FixedHeader.checkFlags type flags with what | ⟨⟩
  · rw [hc] at h
    cases h
  · rw [hc] at h
    cases h
    exact ⟨rfl, rfl⟩

theorem PacketType.code_ofCode (code : UInt8) : (PacketType.ofCode code).code = code := by
  fun_cases PacketType.ofCode code <;> rfl

/-- Two halves of a byte do not overlap. -/
theorem half_bytes : ∀ c < 16, ∀ f < 16,
    ((UInt8.ofNat c <<< 4) ||| UInt8.ofNat f) >>> 4 = UInt8.ofNat c ∧
      ((UInt8.ofNat c <<< 4) ||| UInt8.ofNat f) &&& 0x0f = UInt8.ofNat f := by
  decide

theorem half_bytes_of_lt {c f : UInt8} (hc : c < 16) (hf : f < 16) :
    ((c <<< 4) ||| f) >>> 4 = c ∧ ((c <<< 4) ||| f) &&& 0x0f = f := by
  have h := half_bytes c.toNat (UInt8.lt_iff_toNat_lt.1 hc) f.toNat (UInt8.lt_iff_toNat_lt.1 hf)
  rwa [UInt8.ofNat_toNat, UInt8.ofNat_toNat] at h

theorem shiftRight_four_lt (b : UInt8) : b >>> 4 < 16 := by
  rw [UInt8.lt_iff_toNat_lt, UInt8.toNat_shiftRight]
  have hb := b.toNat_lt
  simp only [UInt8.reduceToNat, Nat.reduceMod, Nat.shiftRight_eq_div_pow]
  omega

theorem and_fifteen_lt (b : UInt8) : b &&& 0x0f < 16 := by
  rw [UInt8.lt_iff_toNat_lt, UInt8.toNat_and]
  exact Nat.lt_of_le_of_lt Nat.and_le_right (by decide)

/-- What a fixed header written is read back as: the decoder takes no more than
    three bytes of length, and half a byte each of the type and the flags. -/
theorem fixedHeader_roundTrips_iff (type : PacketType) (flags : UInt8) (n : Nat) (fh : FixedHeader)
    (htype : PacketType.ofCode type.code = type)
    (h : fixedHeader type flags n = .ok fh) :
    fh.RoundTrips ↔ type.code < 16 ∧ flags < 16 ∧ n < 2 ^ 21 := by
  obtain ⟨hcheck, rfl⟩ := fixedHeader_eq_ok h
  constructor
  · rintro ⟨bytes, -, hread⟩
    obtain ⟨byte, s, -, ht, hf, -, hl⟩ := decodeFixedHeader_eq_ok (hread [])
    refine ⟨?_, ?_, (decodeRemainingLength_spec hl).2⟩
    · rw [show type = _ from ht, PacketType.code_ofCode]
      exact shiftRight_four_lt byte
    · rw [show flags = _ from hf]
      exact and_fifteen_lt byte
  · rintro ⟨hc, hf, hn⟩
    obtain ⟨hhigh, hlow⟩ := half_bytes_of_lt hc hf
    have hsound : FixedHeader.Sound ⟨type, flags, n⟩ :=
      ⟨(congrArg PacketType.ofCode hhigh).trans htype, hlow, hcheck, hn⟩
    obtain ⟨bytes, hs, -, hread⟩ := hsound.exists_serialize
    exact ⟨bytes, hs, hread⟩

/-- The longest packet that is read back, a PUBLISH with all its flags. -/
theorem fixedHeader_roundTrips_iff_publish :
    FixedHeader.RoundTrips ⟨.publish, 0x0d, 2097151⟩ ↔
      PacketType.publish.code < 16 ∧ (0x0d : UInt8) < 16 ∧ 2097151 < 2 ^ 21 :=
  fixedHeader_roundTrips_iff .publish 0x0d 2097151 _ rfl rfl

/-- A PUBLISH of `2 ^ 21` bytes is written with four bytes of length, at the last
    of which the decoder throws. -/
theorem fixedHeader_too_long : ¬∀ (type : PacketType) (flags : UInt8) (n : Nat) (fh : FixedHeader),
    n ≤ 0x0fffffff → fixedHeader type flags n = .ok fh → fh.RoundTrips := by
  intro h
  obtain ⟨bytes, hs, hread⟩ := h .publish 0 2097152 _ (by decide) rfl
  obtain rfl : [0x30, 0x80, 0x80, 0x80, 0x01] = bytes := Except.ok.inj hs
  exact absurd (hread []) (by decide)

end MqttBroker
