import MqttBroker.Codec.Framing

/-!
# What the decoders promise

What the handlers may rely on in a packet that `mqtt_codec::channel_read` hands
on (`Packet.Decoded`): a wild topic filter is told by its characters, the topic
name of a PUBLISH is checked, and everything stays so small that the broker can
send it on.
-/

namespace MqttBroker

open Reader

/-! ## Topic filters -/

/-- Whether `mqtt_subscribe::is_topic_filter_valid` finds a topic filter wild. -/
def isWildFilter (topicFilter : Bytes) : Bool := (isTopicFilterValid topicFilter).2

theorem isTopicFilterValidLoop_isWild (isWild : Bool) (prevCh : Option UInt8) (f : Bytes) :
    (isTopicFilterValidLoop isWild prevCh f).2 = true ↔ isWild = true ∨ hash ∈ f ∨ plus ∈ f := by
  induction f generalizing isWild prevCh with
  | nil => simp [isTopicFilterValidLoop]
  | cons ch rest ih =>
    rw [isTopicFilterValidLoop]
    by_cases hh : ch = hash
    · -- Whatever comes next, the filter is wild.
      subst hh
      rw [if_pos rfl]
      split_ifs
      · simp
      · simp [ih]
    · rw [if_neg hh]
      by_cases hp : ch = plus
      · subst hp
        rw [if_pos rfl]
        split_ifs
        · simp
        · simp [ih]
      · rw [if_neg hp, ih]
        simp [Ne.symm hh, Ne.symm hp]

/-- A topic filter is wild when it has a wildcard. -/
theorem isWildFilter_iff (f : Bytes) : isWildFilter f = true ↔ hash ∈ f ∨ plus ∈ f := by
  rw [isWildFilter, isTopicFilterValid, isTopicFilterValidLoop_isWild]
  simp

/-! ## Fields -/

/-- An entry of a SUBSCRIBE as it is decoded: a filter that may be granted is a
    valid one. -/
def SubscribeEntry.Decoded (entry : SubscribeEntry) : Prop :=
  entry.topicFilter ≠ [] ∧ (entry.maxQos < 3 →
    (isTopicFilterValid entry.topicFilter).1 = true ∧
      entry.isWild = isWildFilter entry.topicFilter)

/-- What a packet that was decoded satisfies. -/
def Packet.Decoded : Packet → Prop
  | .connect p => p.willQos < 3 ∧ p.willTopic.length ≤ 0xffff ∧ p.willMessage.length ≤ 0xffff
  | .publish p => p.qos < 3 ∧ p.topicName ≠ [] ∧ p.topicName.head? ≠ some dollar ∧
      p.topicName.length + p.payload.length < 2 ^ 21
  | .subscribe p => ∀ entry ∈ p.topicFilters, entry.Decoded
  | .unsubscribe p => ∀ entry ∈ p.topicFilters,
      entry.topicFilter ≠ [] ∧ entry.isWild = isWildFilter entry.topicFilter
  | _ => True

/-- What a SUBSCRIBE is decoded to, entry by entry: a valid filter has the QoS that is
    asked for, and any other is marked. -/
def SubscribeEntry.Read (entry : SubscribeEntry) : Prop :=
  entry.topicFilter ≠ [] ∧
    if (isTopicFilterValid entry.topicFilter).1 then
      entry.maxQos < 3 ∧ entry.isWild = isWildFilter entry.topicFilter
    else entry.maxQos = 0x80 ∧ entry.isWild = false

theorem SubscribeEntry.Read.decoded {entry : SubscribeEntry} (h : entry.Read) : entry.Decoded := by
  obtain ⟨hne, h⟩ := h
  refine ⟨hne, fun hq => ?_⟩
  split_ifs at h with hv
  · exact ⟨hv, h.2⟩
  · omega

theorem decodeSubscribeLoop_read {fuel : Nat} {remain : Int} {s r : Bytes}
    {es : List SubscribeEntry} (h : decodeSubscribeLoop fuel remain s = .ok (es, r)) :
    ∀ entry ∈ es, entry.Read := by
  induction fuel generalizing remain s es with
  | zero =>
    cases h
    simp
  | succ fuel ih =>
    rw [decodeSubscribeLoop] at h
    split_ifs at h with hr
    · cases h
      simp
    obtain ⟨topic, s₁, -, h⟩ := bind_eq_ok h
    obtain ⟨hne, h⟩ := rejectIf_bind_eq_ok h
    dsimp only at h
    split_ifs at h with hv
    · obtain ⟨q, s₂, -, h⟩ := bind_eq_ok h
      obtain ⟨hq, h⟩ := rejectIf_bind_eq_ok h
      obtain ⟨es', s₃, h3, h⟩ := bind_eq_ok h
      cases h
      have hentry : SubscribeEntry.Read ⟨topic, q.toNat, (isTopicFilterValid topic).2⟩ :=
        ⟨hne, (if_pos hv).mpr ⟨Nat.lt_of_not_le hq, rfl⟩⟩
      exact List.forall_mem_cons.2 ⟨hentry, ih h3⟩
    · obtain ⟨es', s₃, h3, h⟩ := bind_eq_ok h
      cases h
      have hentry : SubscribeEntry.Read ⟨topic, 0x80, false⟩ :=
        ⟨hne, (if_neg hv).mpr ⟨rfl, rfl⟩⟩
      exact List.forall_mem_cons.2 ⟨hentry, ih h3⟩

theorem decodeSubscribe_read {fh : FixedHeader} {s r : Bytes} {p : MqttSubscribe}
    (h : decodeSubscribe fh s = .ok (p, r)) : ∀ entry ∈ p.topicFilters, entry.Read := by
  obtain ⟨n, s₁, -, h⟩ := bind_eq_ok h
  obtain ⟨es, s₂, h2, h⟩ := bind_eq_ok h
  obtain ⟨-, h⟩ := rejectIf_bind_eq_ok h
  cases h
  exact decodeSubscribeLoop_read h2

theorem decodeUnsubscribeLoop_decoded {fuel : Nat} {remain : Int} {s r : Bytes}
    {es : List UnsubscribeEntry} (h : decodeUnsubscribeLoop fuel remain s = .ok (es, r)) :
    ∀ entry ∈ es, entry.topicFilter ≠ [] ∧ entry.isWild = isWildFilter entry.topicFilter := by
  induction fuel generalizing remain s es with
  | zero =>
    cases h
    simp
  | succ fuel ih =>
    rw [decodeUnsubscribeLoop] at h
    split_ifs at h with hr
    · cases h
      simp
    obtain ⟨topic, s₁, -, h⟩ := bind_eq_ok h
    obtain ⟨hne, h⟩ := rejectIf_bind_eq_ok h
    obtain ⟨es', s₃, h3, h⟩ := bind_eq_ok h
    cases h
    exact List.forall_mem_cons.2 ⟨⟨hne, rfl⟩, ih h3⟩

theorem decodeUnsubscribe_decoded {fh : FixedHeader} {s r : Bytes} {p : MqttUnsubscribe}
    (h : decodeUnsubscribe fh s = .ok (p, r)) : (Packet.unsubscribe p).Decoded := by
  obtain ⟨n, s₁, -, h⟩ := bind_eq_ok h
  obtain ⟨es, s₂, h2, h⟩ := bind_eq_ok h
  obtain ⟨-, h⟩ := rejectIf_bind_eq_ok h
  cases h
  exact decodeUnsubscribeLoop_decoded h2

/-- An optional field is no longer than its length prefix can say. -/
theorem readIf_length {flag : Bool} {m : PacketReader Bytes} {s r a : Bytes}
    (hm : ∀ {s r a : Bytes}, m s = .ok (a, r) → a.length ≤ 0xffff)
    (h : readIf flag m [] s = .ok (a, r)) : a.length ≤ 0xffff := by
  rcases readIf_spec h with ⟨-, h⟩ | ⟨-, rfl, -⟩
  · exact hm h
  · exact Nat.zero_le _

theorem decodeString_length {s r a : Bytes} (h : decodeString s = .ok (a, r)) :
    a.length ≤ 0xffff := by
  obtain ⟨u, -, hu, ha, -⟩ := decodeString_spec h
  exact Nat.le_trans ha hu

theorem decodeConnect_decoded {fh : FixedHeader} {s r : Bytes} {p : MqttConnect}
    (h : decodeConnect fh s = .ok (p, r)) : (Packet.connect p).Decoded := by
  have hp := decodedFrom_of_decodeConnect h
  obtain ⟨_, _, _, _, _, _, -, -, -, htopic, hmessage, -⟩ := hp.fields
  exact ⟨hp.validQos, readIf_length decodeString_length htopic,
    readIf_length (fun h => (decodeBinary_spec h).2) hmessage⟩

theorem decodePublish_decoded {fh : FixedHeader} (hrl : fh.remainingLength < 2 ^ 21) {s r : Bytes}
    (hs : s.length < 2 ^ 64) {p : MqttPublish} (h : decodePublish fh s = .ok (p, r)) :
    (Packet.publish p).Decoded := by
  have hp := decodedFrom_of_decodePublish h
  have hlen := decodePublish_length (by omega) hs h
  exact ⟨hp.validQos, hp.nonempty, hp.notSys, by omega⟩

/-! ## Every packet -/

theorem length_le_of_decodeFixedHeader {sb body : Bytes} {fh : FixedHeader}
    (h : decodeFixedHeader sb = .ok (fh, body)) : body.length ≤ sb.length := by
  obtain ⟨v, rfl, -⟩ := local_decodeFixedHeader sb fh body h
  rw [List.length_append]
  exact Nat.le_add_left _ _

/-- A packet that is handed on keeps the promises, where the size of the buffer
    is a 64-bit number. -/
theorem decoded_of_channelRead {sb rest : Bytes} {p : Packet} (h : channelRead sb = .packet p rest)
    (hsb : sb.length < 2 ^ 64) : p.Decoded := by
  obtain ⟨-, fh, body, hfh, -, hb⟩ := channelRead_eq_packet.1 h
  obtain ⟨_, _, -, -, -, -, hrl⟩ := decodeFixedHeader_eq_ok hfh
  have hbody := Nat.lt_of_le_of_lt (length_le_of_decodeFixedHeader hfh) hsb
  rw [decodeBody] at hb
  cases ht : fh.type <;> simp only [ht] at hb
  case connect =>
    obtain ⟨q, s₁, h1, h⟩ := bind_eq_ok hb
    cases h
    exact decodeConnect_decoded h1
  case publish =>
    obtain ⟨q, s₁, h1, h⟩ := bind_eq_ok hb
    cases h
    exact decodePublish_decoded (decodeRemainingLength_spec hrl).2 hbody h1
  case subscribe =>
    obtain ⟨q, s₁, h1, h⟩ := bind_eq_ok hb
    cases h
    exact fun entry hentry => (decodeSubscribe_read h1 entry hentry).decoded
  case unsubscribe =>
    obtain ⟨q, s₁, h1, h⟩ := bind_eq_ok hb
    cases h
    exact decodeUnsubscribe_decoded h1
  case connack | puback | pubrec | pubrel | pubcomp | suback | unsuback =>
    obtain ⟨q, s₁, -, h⟩ := bind_eq_ok hb
    cases h
    trivial
  case pingreq | pingresp | disconnect =>
    cases hb
    trivial
  case unspecified => cases hb

/-- The entries of a SUBSCRIBE that is handed on. -/
theorem read_of_channelRead {sb rest : Bytes} {p : MqttSubscribe}
    (h : channelRead sb = .packet (.subscribe p) rest) : ∀ entry ∈ p.topicFilters, entry.Read := by
  obtain ⟨-, fh, body, -, -, hb⟩ := channelRead_eq_packet.1 h
  rw [decodeBody] at hb
  cases ht : fh.type <;> simp only [ht] at hb
  case subscribe =>
    obtain ⟨q, s₁, h1, h⟩ := bind_eq_ok hb
    cases h
    exact decodeSubscribe_read h1
  case pingreq | pingresp | disconnect | unspecified => cases hb
  all_goals
    obtain ⟨q, s₁, -, h⟩ := bind_eq_ok hb
    cases h

end MqttBroker
