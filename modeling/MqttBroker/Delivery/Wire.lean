import MqttBroker.Codec.Chunking
import MqttBroker.Codec.Marks
import MqttBroker.Server.World

/-!
# Packets on the wire

A packet that the broker writes is serialized, and what comes out of the other end of
the channel is what is decoded from the bytes (`Wired`): the packet, but for the DUP
mark, which is not in the flags that are written. The exception are the notices of
`$sys/trash`, whose topic the decoder refuses. So a stream of packets is decoded as
it was written up to the first notice (`drain_wired`).
-/

namespace MqttBroker

open Reader

/-- A packet as it is decoded from its bytes: without the DUP mark. -/
def Packet.onWire : Packet → Packet
  | .publish p => .publish (p.mark false)
  | p => p

/-- A PUBLISH to `$sys/trash`. -/
def Packet.isNotice : Packet → Bool
  | .publish p => p.topicName = sysTrash
  | _ => false

/-- The text of the exception for a topic of the broker. -/
def sysTopicError : String :=
  "malformed packet received. (clients can not publish to topics starting with $)"

/-- The bytes of a packet, and what is decoded from them. -/
structure Wired (p : Packet) (b : Bytes) : Prop where
  serialize : p.serialize = .ok b
  reads : p.isNotice = false → ∀ t, channelRead (b ++ t) = .packet p.onWire t
  refuses : p.isNotice = true → ∀ t, channelRead (b ++ t) = .threw sysTopicError

/-- A string that is decoded from its bytes. -/
def Legible (name : Bytes) : Prop :=
  name.length ≤ 0xffff ∧ Reads decodeString (lengthPrefixed name) name

/-- The name of a topic that a PUBLISH may have. -/
structure TopicName (name : Bytes) : Prop where
  nonempty : name ≠ []
  notSys : name.head? ≠ some dollar
  notWild : ¬(hash ∈ name ∨ plus ∈ name)

/-- The message fits in a PUBLISH, to a topic or to `$sys/trash`. -/
structure MqttPublish.Deliverable (m : MqttPublish) : Prop where
  qos : m.qos < 3
  legible : Legible m.topicName
  small : m.topicName.length + 2 + idLength m.qos + m.payload.length < 2 ^ 21
  topic : m.topicName = sysTrash ∨ TopicName m.topicName

/-- The PUBLISH was made by the constructor, and may have been marked with `dup` since. -/
def MqttPublish.Made (p : MqttPublish) : Prop :=
  ∃ id, mqttPublish false p.qos p.retain p.topicName id p.payload = .ok (p.mark false)

variable {p : MqttPublish} {name : Bytes}

/-- A PUBLISH that is made of a message that fits is of the sizes that it announces. -/
theorem MqttPublish.Made.shape (h : p.Made) (hd : p.Deliverable) :
    p.type = .publish ∧ p.flags = publishFlags p.qos p.retain ∧
      p.remainingLength = p.topicName.length + 2 + idLength p.qos + p.payload.length ∧
      (¬(p.qos = 1 ∨ p.qos = 2) → p.packetId = 0) := by
  obtain ⟨id, h⟩ := h
  have heq := Except.ok.inj ((mqttPublish_eq hd.qos p.retain id hd.small).symm.trans h)
  refine ⟨congrArg (fun q : MqttPublish => q.type) heq.symm,
    congrArg (fun q : MqttPublish => q.flags) heq.symm,
    congrArg (fun q : MqttPublish => q.remainingLength) heq.symm, fun hid => ?_⟩
  exact (congrArg (fun q : MqttPublish => q.packetId) heq.symm).trans (if_neg hid)

/-- To a topic, it is read back. -/
theorem MqttPublish.Made.formed (h : p.Made) (hd : p.Deliverable) (ht : TopicName p.topicName) :
    (p.mark false).Formed where
  type := (h.shape hd).1
  flags := (h.shape hd).2.1
  length := (h.shape hd).2.2.1
  small := (h.shape hd).2.2.1 ▸ hd.small
  dup := rfl
  qos := hd.qos
  packetId := (h.shape hd).2.2.2
  nonempty := ht.nonempty
  notSys := ht.notSys
  notWild := ht.notWild
  short := hd.legible.1
  name := hd.legible.2

/-- The header of a PUBLISH is read back, whatever its topic. -/
theorem MqttPublish.Made.exists_serialize (h : p.Made) (hd : p.Deliverable) :
    ∃ header, p.serialize = .ok (header ++ p.body) ∧
      Reads decodeFixedHeader header p.toFixedHeader := by
  obtain ⟨htype, hflags, hlength, -⟩ := h.shape hd
  have hsound : p.toFixedHeader.Sound := by
    have hfh : p.toFixedHeader = ⟨.publish, p.flags, p.remainingLength⟩ := by rw [← htype]
    rw [hfh, hflags]
    exact (publishFlags_sound hd.qos p.retain).1.withLength (hlength ▸ hd.small)
  obtain ⟨header, hheader, -, hread⟩ := hsound.exists_serialize
  refine ⟨header, ?_, hread⟩
  rw [MqttPublish.serialize, hheader, encodeString, if_neg (Nat.not_lt.2 hd.legible.1)]
  rfl

/-- The decoder throws at the name of a notice. -/
theorem MqttPublish.Made.decodePublish_notice (h : p.Made) (hd : p.Deliverable)
    (hp : p.topicName = sysTrash) (t : Bytes) :
    decodePublish p.toFixedHeader (p.body ++ t) = .error (.mqttError sysTopicError) := by
  obtain ⟨-, hdup, hqos, -⟩ := publishFlags_sound hd.qos p.retain
  rw [← (h.shape hd).2.1] at hdup hqos
  rw [publishQos] at hqos
  have hq := hd.qos
  rw [decodePublish, rejectIf_bind_of_not (by simp [hdup]), rejectIf_bind_of_not (by omega),
    MqttPublish.body, List.append_assoc, bind_apply_of_ok (hd.legible.2 _),
    rejectIf_bind_of_not (by rw [hp]; decide)]
  refine bind_apply_of_error ?_
  rw [rejectIf, if_pos (by rw [hp]; rfl)]
  rfl

theorem MqttPublish.Made.refused (h : p.Made) (hd : p.Deliverable) (hp : p.topicName = sysTrash)
    {header : Bytes} (hread : Reads decodeFixedHeader header p.toFixedHeader) (t : Bytes) :
    channelRead (header ++ p.body ++ t) = .threw sysTopicError := by
  -- All of the body is there, so it is given to the decoder of a PUBLISH.
  have hlen : p.body.length = p.remainingLength := by
    rw [(h.shape hd).2.2.1, MqttPublish.body]
    simp only [List.length_append, length_lengthPrefixed, MqttPublish.length_idBytes]
    omega
  have htwo : 2 ≤ p.remainingLength := by
    rw [(h.shape hd).2.2.1]
    omega
  have htype : p.toFixedHeader.type = .publish := (h.shape hd).1
  rw [List.append_assoc, channelRead, if_pos (by simp only [List.length_append]; omega), hread]
  simp only [List.length_append]
  rw [if_neg (by omega), decodeBody, htype]
  simp only [bind_apply_of_error (h.decodePublish_notice hd hp t)]

/-- A PUBLISH that is made of a message that fits is written. -/
theorem MqttPublish.Made.wired (h : p.Made) (hd : p.Deliverable) : ∃ b, Wired (.publish p) b := by
  obtain ⟨header, hs, hread⟩ := h.exists_serialize hd
  refine ⟨header ++ p.body, hs, fun hn => ?_, fun hn => ?_⟩
  · obtain ⟨bytes, -, hbytes, -, -, -, hback⟩ :=
      (h.formed hd (hd.topic.resolve_left (of_decide_eq_false hn))).readsBack
    have hsame : (Packet.publish (p.mark false)).serialize = p.serialize := serialize_mark p [false]
    rw [hsame, hs] at hbytes
    obtain rfl := Except.ok.inj hbytes
    exact hback
  · exact h.refused hd (of_decide_eq_true hn) hread

/-- What is read back is written. -/
theorem Packet.ReadsBack.wired {p : Packet} (h : p.ReadsBack) (hp : ∀ m, p ≠ .publish m) :
    ∃ b, Wired p b := by
  obtain ⟨b, header, hs, -, -, -, hread⟩ := h
  have hwire : p.onWire = p ∧ p.isNotice = false := by
    cases p with
    | publish m => exact absurd rfl (hp m)
    | _ => exact ⟨rfl, rfl⟩
  refine ⟨b, hs, fun _ => ?_, fun hn => Bool.noConfusion (hwire.2.symm.trans hn)⟩
  rw [hwire.1]
  exact hread

/-! ## Streams -/

theorem exists_wired {ps : List Packet} (h : ∀ p ∈ ps, ∃ b, Wired p b) :
    ∃ bs, List.Forall₂ Wired ps bs := by
  induction ps with
  | nil => exact ⟨[], .nil⟩
  | cons p ps ih =>
    obtain ⟨⟨b, hb⟩, hps⟩ := List.forall_mem_cons.1 h
    obtain ⟨bs, hbs⟩ := ih hps
    exact ⟨b :: bs, .cons hb hbs⟩

theorem drain_of_threw {sb : Bytes} {what : String} (h : channelRead sb = .threw what) :
    drain sb = ([], none) := by
  rw [drain]
  split <;> simp_all

/-- A stream of packets is decoded as it was written up to the first notice, where the
    decoder throws. -/
theorem drain_wired {ps : List Packet} {bs : List Bytes} (h : List.Forall₂ Wired ps bs) :
    drain bs.flatten = ((ps.takeWhile fun p => !p.isNotice).map Packet.onWire,
      if ps.any Packet.isNotice then none else some []) := by
  induction h with
  | nil => exact drain_nil
  | @cons p b ps bs hp _ ih =>
    rw [List.flatten_cons, List.takeWhile_cons, List.any_cons]
    cases hn : p.isNotice with
    | true => exact drain_of_threw (hp.refuses hn _)
    | false =>
      rw [drain_of_packet (hp.reads hn _), ih]
      rfl

end MqttBroker
