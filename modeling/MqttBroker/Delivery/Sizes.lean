import MqttBroker.Codec.RoundTrip
import MqttBroker.Server.Frames

/-!
# Messages too large to be written

`mqtt_publish` is to reject what `serialize` could not write: a topic name whose
length does not fit in 16 bits, and a remaining length of more than 28 bits. It
counts the remaining length modulo `2 ^ 32`, and it looks at the length of the topic
name before that is assigned. So a topic name that is too long gets through unless
the count alone is too large, and it is `serialize` that throws
(`checksSuffice_iff`).
-/

namespace MqttBroker

open Prog

variable {dup retain : Bool} {qos : Nat} {topicName payload : Bytes} {packetId : UInt16}
  {p : MqttPublish}

/-- The size of the topic name and the packet id, as 32 bits count it. -/
def countedHeader (qos : Nat) (topicName : Bytes) : Nat :=
  (topicName.length + 2 + idLength qos) % 2 ^ 32

/-- There is no PUBLISH of these in MQTT. -/
def Unrepresentable (qos : Nat) (topicName payload : Bytes) : Prop :=
  0xffff < topicName.length ∨ 0x0fffffff < topicName.length + 2 + idLength qos + payload.length

/-- `mqtt_client::publish` does nothing with these, but for the packet id it takes. -/
def Withheld (qos : Nat) (retain : Bool) (topicName payload : Bytes) : Prop :=
  ∀ (w : World) (client : MqttClient) (maxQos : Nat) (packet : MqttPublish),
    min packet.qos maxQos = qos → packet.topicName = topicName → packet.payload = payload →
      ∃ next, (client.publish maxQos retain packet w).2 =
        w.modifySession client.session fun _ =>
          { w.session client.session with nextPacketId := next }

/-- What the constructor accepts is written in the size it announces, and what cannot be
    written it rejects, before a session or a channel gets it. -/
structure ChecksSuffice (dup : Bool) (qos : Nat) (retain : Bool) (topicName : Bytes)
    (packetId : UInt16) (payload : Bytes) : Prop where
  serializes : ∀ p, mqttPublish dup qos retain topicName packetId payload = .ok p →
    ∃ header body, p.toFixedHeader.serialize = .ok header ∧ p.serialize = .ok (header ++ body) ∧
      body.length = p.remainingLength
  rejects : Unrepresentable qos topicName payload →
    ∃ what, mqttPublish dup qos retain topicName packetId payload = .error what
  withholds : Unrepresentable qos topicName payload → Withheld qos retain topicName payload

/-! ## The constructor -/

/-- The constructor accepts the sizes that it counts as small enough, and announces the
    count. -/
theorem mqttPublish_cases (hq : qos < 3) (dup retain : Bool) (topicName : Bytes)
    (packetId : UInt16) (payload : Bytes) :
    (payload.length + countedHeader qos topicName ≤ 0x0fffffff ∧
      ∃ p, mqttPublish dup qos retain topicName packetId payload = .ok p ∧
        p.remainingLength = countedHeader qos topicName + payload.length) ∨
    (0x0fffffff < payload.length + countedHeader qos topicName ∧
      ∃ what, mqttPublish dup qos retain topicName packetId payload = .error what) := by
  have hcount : (if qos = 1 ∨ qos = 2 then ((topicName.length + 2) % 2 ^ 32 + 2) % 2 ^ 32
      else (topicName.length + 2) % 2 ^ 32) = countedHeader qos topicName := by
    rw [countedHeader, idLength]
    split_ifs
    · exact Nat.mod_add_mod _ _ _
    · rfl
  rw [mqttPublish]
  simp only [hcount]
  rw [if_neg (by omega), if_neg (by simp)]
  by_cases hlarge : payload.length + countedHeader qos topicName > 0x0fffffff
  · rw [if_pos hlarge]
    exact .inr ⟨hlarge, _, rfl⟩
  · rw [if_neg hlarge]
    exact .inl ⟨Nat.le_of_not_lt hlarge, _, rfl, Nat.mod_eq_of_lt (by omega)⟩

/-- What is accepted was counted. -/
theorem size_of_mqttPublish (hq : qos < 3)
    (hp : mqttPublish dup qos retain topicName packetId payload = .ok p) :
    payload.length + countedHeader qos topicName ≤ 0x0fffffff ∧
      p.remainingLength = countedHeader qos topicName + payload.length := by
  rcases mqttPublish_cases hq dup retain topicName packetId payload with
    ⟨hsmall, p', hp', hrl⟩ | ⟨-, what, herror⟩
  · obtain rfl := Except.ok.inj (hp.symm.trans hp')
    exact ⟨hsmall, hrl⟩
  · rw [hp] at herror
    cases herror

/-- What is rejected is too large as it is counted. -/
theorem mqttPublish_rejects_iff (hq : qos < 3) :
    (∃ what, mqttPublish dup qos retain topicName packetId payload = .error what) ↔
      0x0fffffff < payload.length + countedHeader qos topicName := by
  rcases mqttPublish_cases hq dup retain topicName packetId payload with
    ⟨hsmall, p, hp, -⟩ | ⟨hlarge, herror⟩
  · refine iff_of_false (fun ⟨what, herror⟩ => ?_) (Nat.not_lt.2 hsmall)
    rw [hp] at herror
    cases herror
  · exact iff_of_true herror hlarge

/-- With a topic name that fits, nothing is lost in the count. -/
theorem countedHeader_eq (h : topicName.length ≤ 0xffff) :
    countedHeader qos topicName = topicName.length + 2 + idLength qos := by
  have hid : idLength qos ≤ 2 := by
    rw [idLength]
    split_ifs <;> decide
  rw [countedHeader]
  omega

/-- What is accepted with such a topic name is written. -/
theorem serializes_of_mqttPublish (hq : qos < 3) (hname : topicName.length ≤ 0xffff)
    (hp : mqttPublish dup qos retain topicName packetId payload = .ok p) :
    ∃ header body, p.toFixedHeader.serialize = .ok header ∧ p.serialize = .ok (header ++ body) ∧
      body.length = p.remainingLength := by
  obtain ⟨-, hpqos, -, hpname, hppayload, -⟩ := mqttPublish_eq_ok hp
  obtain ⟨hsmall, hrl⟩ := size_of_mqttPublish hq hp
  obtain ⟨header, hheader⟩ : ∃ header, p.toFixedHeader.serialize = .ok header := by
    rw [FixedHeader.serialize, encodeRemainingLength, if_neg (by omega)]
    exact ⟨_, rfl⟩
  refine ⟨header, p.body, hheader, ?_, ?_⟩
  · rw [MqttPublish.serialize, hheader, encodeString, hpname, if_neg (Nat.not_lt.2 hname),
      MqttPublish.body, hpname]
    rfl
  · rw [MqttPublish.body, List.length_append, List.length_append, length_lengthPrefixed,
      p.length_idBytes, hpname, hpqos, hppayload, hrl, countedHeader_eq hname]
    omega

/-- What is rejected is not sent. -/
theorem withheld_of_rejected (h : ∀ packetId, ∃ what,
    mqttPublish false qos retain topicName packetId payload = .error what) :
    Withheld qos retain topicName payload := by
  rintro w client maxQos packet rfl rfl rfl
  rcases publish_cases client maxQos retain packet w with
    ⟨next, heq | ⟨id, publish, -, -, hp, -⟩⟩
  · exact ⟨next, heq⟩
  · obtain ⟨what, herror⟩ := h id
    rw [hp] at herror
    cases herror

/-! ## When the checks suffice -/

/-- The checks of the constructor suffice exactly for the topic names that fit, and where
    the count is too large all the same. -/
theorem checksSuffice_iff (hq : qos < 3) (dup retain : Bool) (topicName : Bytes)
    (packetId : UInt16) (payload : Bytes) :
    ChecksSuffice dup qos retain topicName packetId payload ↔
      topicName.length ≤ 0xffff ∨
        0x0fffffff < payload.length + (topicName.length + 2 + idLength qos) % 2 ^ 32 := by
  rw [← countedHeader]
  constructor
  · intro h
    refine (Nat.lt_or_ge 0xffff topicName.length).symm.imp_right fun hlong => ?_
    exact (mqttPublish_rejects_iff hq).1 (h.rejects (.inl hlong))
  · intro h
    have hreject (dup : Bool) (packetId : UInt16) (hun : Unrepresentable qos topicName payload) :
        ∃ what, mqttPublish dup qos retain topicName packetId payload = .error what := by
      refine (mqttPublish_rejects_iff hq).2 (h.elim (fun hname => ?_) id)
      -- The count is of a name that fits, and true.
      rw [countedHeader_eq hname, Nat.add_comm]
      exact hun.resolve_left (Nat.not_lt.2 hname)
    refine ⟨fun p hp => ?_, hreject dup packetId,
      fun hun => withheld_of_rejected fun packetId => hreject false packetId hun⟩
    rcases h with hname | hlarge
    · exact serializes_of_mqttPublish hq hname hp
    · exact absurd hlarge (Nat.not_lt.2 (size_of_mqttPublish hq hp).1)

/-- For a short PUBLISH they do. -/
theorem checksSuffice_short : ChecksSuffice false 1 false [0x74] 7 [0x01] :=
  (checksSuffice_iff (by decide) false false [0x74] 7 [0x01]).2 (.inl (by decide))

/-- A topic name of `2 ^ 16` bytes is accepted. -/
theorem long_topicName_accepted : ¬∀ (dup : Bool) (qos : Nat) (retain : Bool) (topicName : Bytes)
    (packetId : UInt16) (payload : Bytes), qos < 3 →
    ChecksSuffice dup qos retain topicName packetId payload := by
  intro h
  have hlen : (List.replicate 65536 (0x74 : UInt8)).length = 65536 := List.length_replicate
  have hlarge := (mqttPublish_rejects_iff (show 0 < 3 by decide)).1
    ((h false 0 false (List.replicate 65536 0x74) 7 [] (by decide)).rejects
      (.inl (by rw [hlen]; decide)))
  rw [countedHeader, hlen] at hlarge
  exact absurd hlarge (by decide)

end MqttBroker
