import MqttBroker.Packet.Layout

/-!
# Reading packets off a channel

`mqtt_codec::channel_read` on the receive buffer of a channel, the bytes not yet
consumed. Its exits (`ReadResult`) say what becomes of the buffer and of the data
object passed down to `packet_handler`: the two places that set `ctx->done(true)`
pass nothing down, while the handler of `not_enough_error` resets the buffer and
leaves the `streambuf` itself as the data.
-/

namespace MqttBroker

/-- How a call of `mqtt_codec::channel_read` ends, with the buffer it leaves. -/
inductive ReadResult
  /-- `ctx->done(true)`: nothing is passed down. -/
  | done (sb : Bytes)
  /-- The data passed down still is the `streambuf`. -/
  | handOn (sb : Bytes)
  /-- The data passed down is a packet object. -/
  | packet (p : Packet) (sb : Bytes)
  /-- A `mqtt_error` is thrown. -/
  | threw (what : String)
  deriving DecidableEq

/-- `mqtt_codec::channel_read`. -/
def channelRead (sb : Bytes) : ReadResult :=
  if 2 ≤ sb.length then
    match decodeFixedHeader sb with
    | .error .notEnough => .handOn sb
    | .error (.mqttError what) => .threw what
    | .ok (fh, body) =>
      if body.length < fh.remainingLength then .done sb
      else
        match decodeBody fh body with
        | .error .notEnough => .handOn sb
        | .error (.mqttError what) => .threw what
        | .ok (none, rest) => .handOn rest
        | .ok (some p, rest) => .packet p rest
  else .done sb

/-- A packet comes out when the header decodes, the buffer holds as many bytes
    as it announces, and the body decodes. -/
theorem channelRead_eq_packet {sb rest : Bytes} {p : Packet} :
    channelRead sb = .packet p rest ↔ 2 ≤ sb.length ∧ ∃ fh body,
      decodeFixedHeader sb = .ok (fh, body) ∧ fh.remainingLength ≤ body.length ∧
        decodeBody fh body = .ok (some p, rest) := by
  constructor
  · intro h
    rw [channelRead] at h
    split_ifs at h with h2
    refine ⟨h2, ?_⟩
    split at h
    · cases h
    · cases h
    · next fh body hfh =>
      split_ifs at h with hl
      refine ⟨fh, body, hfh, Nat.le_of_not_lt hl, ?_⟩
      split at h
      · cases h
      · cases h
      · cases h
      · next q t hq =>
        cases h
        exact hq
  · rintro ⟨h2, fh, body, hfh, hl, hb⟩
    simp only [channelRead, if_pos h2, hfh, if_neg (Nat.not_lt.2 hl), hb]

/-! ## Fixed headers -/

theorem decodeFixedHeader_eq_ok {sb body : Bytes} {fh : FixedHeader}
    (h : decodeFixedHeader sb = .ok (fh, body)) : ∃ byte s,
      sb = byte :: s ∧ fh.type = .ofCode (byte >>> 4) ∧ fh.flags = byte &&& 0x0f ∧
        FixedHeader.checkFlags fh.type fh.flags = .ok () ∧
        decodeRemainingLength s = .ok (fh.remainingLength, body) := by
  obtain ⟨byte, s, h1, h⟩ := Reader.bind_eq_ok h
  obtain ⟨hc, h⟩ := ofCheck_bind_eq_ok h
  obtain ⟨n, s', h2, h⟩ := Reader.bind_eq_ok h
  cases h
  exact ⟨byte, s, Reader.next_eq_ok h1, rfl, rfl, hc, h2⟩

theorem decodeRemainingLengthLoop_spec {fuel length shift n : Nat} {s r : Bytes}
    (hs : fuel * 7 + shift = 28) (h : decodeRemainingLengthLoop fuel length shift s = .ok (n, r)) :
    r.length ≤ s.length ∧ (0 < fuel → r.length < s.length) ∧
      (length < 2 ^ shift → n < 2 ^ 21 ∨ fuel = 0) := by
  induction fuel generalizing length shift s with
  | zero =>
    cases h
    exact ⟨Nat.le_refl _, fun h => absurd h (Nat.lt_irrefl 0), fun _ => .inr rfl⟩
  | succ fuel ih =>
    obtain ⟨b, s', h1, h⟩ := Reader.bind_eq_ok h
    obtain rfl := Reader.next_eq_ok h1
    obtain ⟨hc, h⟩ := rejectIf_bind_eq_ok h
    have hb : (b &&& 0x7f).toNat < 2 ^ 7 := by
      have := UInt8.toNat_and b 0x7f
      have hle : b.toNat &&& 127 ≤ 127 := Nat.and_le_right
      simp only [this, UInt8.reduceToNat]
      omega
    -- The seven bits of a round are put above those read so far.
    have hlen : length < 2 ^ shift →
        length + (b &&& 0x7f).toNat <<< shift < 2 ^ (shift + 7) := by
      intro hl
      rw [Nat.shiftLeft_eq, Nat.pow_add]
      have : ((b &&& 0x7f).toNat + 1) * 2 ^ shift ≤ 2 ^ 7 * 2 ^ shift :=
        Nat.mul_le_mul_right _ hb
      rw [Nat.add_mul, Nat.one_mul] at this
      rw [Nat.mul_comm (2 ^ shift)]
      omega
    split_ifs at h with hm
    · obtain ⟨h1, -, h3⟩ := ih (by omega) h
      refine ⟨by simp only [List.length_cons]; omega, fun _ => by
        simp only [List.length_cons]; omega, fun hl => ?_⟩
      rcases h3 (hlen hl) with h3 | rfl
      · exact .inl h3
      · omega
    · cases h
      refine ⟨by simp, fun _ => by simp, fun hl => .inl ?_⟩
      exact Nat.lt_of_lt_of_le (hlen hl) (Nat.pow_le_pow_right (by decide) (by omega))

/-- The remaining length takes a byte at least, and is below `2 ^ 21`. -/
theorem decodeRemainingLength_spec {n : Nat} {s r : Bytes}
    (h : decodeRemainingLength s = .ok (n, r)) : r.length < s.length ∧ n < 2 ^ 21 := by
  obtain ⟨-, h1, h2⟩ := decodeRemainingLengthLoop_spec rfl h
  exact ⟨h1 (by decide), (h2 (by decide)).resolve_right (by decide)⟩

end MqttBroker
