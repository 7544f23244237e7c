import MqttBroker.Codec.Framing

/-!
# PUBLISH packets received

The remaining length of a PUBLISH is what its sender says, and the length of the
payload is computed from it modulo `2 ^ 64`. A remaining length that is too small
gives a payload longer than any buffer, which is not there: whatever the decoder
accepts is well-formed (`publish_wellFormed`).
-/

namespace MqttBroker

open Reader

/-- A PUBLISH as MQTT has it. -/
structure MqttPublish.WellFormed (p : MqttPublish) : Prop where
  qos : p.qos ≤ 2
  dup : p.dup = true → 0 < p.qos
  nonempty : p.topicName ≠ []
  notSys : p.topicName.head? ≠ some dollar
  notWild : hash ∉ p.topicName ∧ plus ∉ p.topicName
  length : p.remainingLength =
    2 + p.topicName.length + (if 0 < p.qos then 2 else 0) + p.payload.length

/-- The variable header of a PUBLISH: its topic name, and its id if it has one. -/
def readVariableHeader (qos : Nat) : PacketReader (Bytes × UInt16) := do
  let topicName ← decodeString
  let packetId ← readIf (decide (0 < qos)) readUInt16 0
  pure (topicName, packetId)

/-- What is accepted as a PUBLISH is well-formed, whatever the fixed header announced, and
    has as its payload the bytes that follow the variable header. -/
theorem publish_wellFormed {fh : FixedHeader} {s r : Bytes} {p : MqttPublish}
    (hrl : fh.remainingLength < 2 ^ 32) (hs : s.length < 2 ^ 63)
    (h : decodePublish fh s = .ok (p, r)) :
    p.WellFormed ∧ p.toFixedHeader = fh ∧
      readVariableHeader p.qos s = .ok ((p.topicName, p.packetId), p.payload ++ r) := by
  have hp := decodedFrom_of_decodePublish h
  have hlen := decodePublish_length hrl (by omega) h
  have hqos := hp.validQos
  have hid : (p.qos = 1 ∨ p.qos = 2) ↔ 0 < p.qos := by omega
  simp only [hid] at hlen
  refine ⟨⟨by omega, fun hdup => ?_, hp.nonempty, hp.notSys, not_or.1 hp.notWild, ?_⟩,
    hp.header, ?_⟩
  · exact Nat.pos_of_ne_zero fun h0 => hp.validDup ⟨h0, hdup⟩
  · rw [hp.header, ← hlen, Nat.add_comm 2]
  · obtain ⟨t, hname, hread⟩ := hp.name
    simp only [hid] at hread
    rw [readVariableHeader, bind_apply_of_ok hname, bind_apply_of_ok hread]
    rfl

/-- A PUBLISH of the QoS 1 with an empty payload, and a byte after it. -/
theorem publish_wellFormed_empty : ∃ p, decodePublish ⟨.publish, 0x02, 5⟩
    [0x00, 0x01, 0x61, 0x00, 0x07, 0xc0] = .ok (p, [0xc0]) ∧ p.WellFormed ∧ p.payload = [] := by
  obtain ⟨p, hp, hpayload⟩ : ∃ p, decodePublish ⟨.publish, 0x02, 5⟩
      [0x00, 0x01, 0x61, 0x00, 0x07, 0xc0] = .ok (p, [0xc0]) ∧ p.payload = [] :=
    ⟨⟨⟨.publish, 0x02, 5⟩, false, 1, false, [0x61], 7, []⟩, by decide, rfl⟩
  exact ⟨p, hp, (publish_wellFormed (by decide) (by decide) hp).1, hpayload⟩

end MqttBroker
