import MqttBroker.Codec.Marks
import MqttBroker.Delivery.Outbound

/-!
# The DUP mark on the wire

When a session is resumed, its messages are marked with `dup(true)` and written
again. They were constructed without the mark, as every PUBLISH the broker makes
is (`World.Unmarked`), so they are written without it, too
(`dup_reaches_wire_iff`).
-/

namespace MqttBroker

open Prog Reader

/-- The PUBLISH is written with the DUP bit set. -/
def MqttPublish.MarkedOnWire (p : MqttPublish) : Prop :=
  ∃ byte bytes, p.serialize = .ok (byte :: bytes) ∧ byte &&& 0x08 ≠ 0

/-- The first byte is that of the fixed header. -/
theorem not_markedOnWire {p : MqttPublish} (h : p.toFixedHeader.byte &&& 0x08 = 0) :
    ¬p.MarkedOnWire := by
  rintro ⟨byte, bytes, hs, hbyte⟩
  rw [MqttPublish.serialize, FixedHeader.serialize] at hs
  cases hl : encodeRemainingLength p.remainingLength with
  | error what =>
    rw [hl] at hs
    cases hs
  | ok length =>
    cases ht : encodeString p.topicName with
    | error what =>
      rw [hl, ht] at hs
      cases hs
    | ok name =>
      rw [hl, ht] at hs
      cases hs
      exact hbyte h

/-- A PUBLISH that is constructed without the mark has no DUP bit. -/
theorem unmarked_of_constructed {qos : Nat} (hq : qos = 1 ∨ qos = 2) {retain : Bool}
    {name payload : Bytes} {id : UInt16} {p : MqttPublish}
    (hp : mqttPublish false qos retain name id payload = .ok p) :
    p.toFixedHeader.byte &&& 0x08 = 0 := by
  rw [(constructed_eq hq hp).1]
  show ((PacketType.publish.code <<< 4) ||| constructedFlags false qos retain) &&& 0x08 = 0
  rcases hq with rfl | rfl <;> cases retain <;> decide

/-! ## Sessions -/

/-- No message of the session has the DUP bit. -/
def Session.Unmarked (t : Session) : Prop :=
  ∀ p ∈ t.publishForAck ++ t.publishForRec, p.toFixedHeader.byte &&& 0x08 = 0

/-- No message of any session has the DUP bit. -/
def World.Unmarked (w : World) : Prop := ∀ s, (w.session s).Unmarked

theorem Session.Unmarked.of_headers {t t' : Session} (h : t.Unmarked)
    (hm : ∀ p ∈ t'.publishForAck ++ t'.publishForRec, ∃ q ∈ t.publishForAck ++ t.publishForRec,
      q.toFixedHeader = p.toFixedHeader) : t'.Unmarked := by
  intro p hp
  obtain ⟨q, hq, heq⟩ := hm p hp
  rw [← heq]
  exact h q hq

theorem Session.Unmarked.of_subset {t t' : Session} (h : t.Unmarked)
    (hack : t'.publishForAck ⊆ t.publishForAck) (hrec : t'.publishForRec ⊆ t.publishForRec) :
    t'.Unmarked := by
  refine h.of_headers fun p hp => ⟨p, ?_, rfl⟩
  rw [List.mem_append] at hp ⊢
  exact hp.imp (@hack p) (@hrec p)

theorem Session.Unmarked.served {t : Session} (h : t.Unmarked) (p : Packet) :
    (t.served p).Unmarked := by
  cases p with
  | publish m =>
    rw [Session.served]
    split_ifs
    · exact h
    · exact h
  | puback a => exact h.of_subset List.eraseP_subset (List.Subset.refl _)
  | pubrec a => exact h.of_subset (List.Subset.refl _) List.eraseP_subset
  | _ => exact h

theorem unmarked_modifySession {w : World} (h : w.Unmarked) {s : SessionRef} {f : Session → Session}
    (hf : (w.session s).Unmarked → (f (w.session s)).Unmarked) : (w.modifySession s f).Unmarked := by
  intro s'
  rw [World.session_modifySession]
  split_ifs with hs
  · subst hs
    exact hf (h s')
  · exact h s'

/-- A message without the bit is filed. -/
theorem unmarked_address {w : World} (h : w.Unmarked) {client : MqttClient} {publish : MqttPublish}
    (hadd : publish.qos = 1 ∨ publish.qos = 2 → publish.toFixedHeader.byte &&& 0x08 = 0) :
    (w.address client publish).Unmarked := by
  have hrecord : (w.record (.addressed client publish)).Unmarked := h
  refine unmarked_modifySession hrecord fun hs => ?_
  intro p hm
  split_ifs at hm with h1 h2
  · simp only [Session.addPublishForAck, List.mem_append, List.mem_singleton] at hm
    rcases hm with (hm | rfl) | hm
    · exact hs p (List.mem_append_left _ hm)
    · exact hadd (.inl h1)
    · exact hs p (List.mem_append_right _ hm)
  · simp only [Session.addPublishForRec, List.mem_append, List.mem_singleton] at hm
    rcases hm with hm | hm | rfl
    · exact hs p (List.mem_append_left _ hm)
    · exact hs p (List.mem_append_right _ hm)
    · exact hadd (.inr h2)
  · exact hs p hm

/-- `mqtt_client::publish` files a message without the bit. -/
theorem unmarked_publish {w : World} (h : w.Unmarked) (client : MqttClient) (maxQos : Nat)
    (retained : Bool) (packet : MqttPublish) :
    (client.publish maxQos retained packet w).2.Unmarked := by
  have hcount (next : UInt16) : (w.modifySession client.session fun _ =>
      { w.session client.session with nextPacketId := next }).Unmarked :=
    unmarked_modifySession h fun hs => hs
  rcases publish_cases client maxQos retained packet w with
    ⟨next, heq | ⟨id, publish, -, -, hp, heq⟩⟩
  · rw [heq]
    exact hcount next
  · rw [heq]
    have hqos := (mqttPublish_eq_ok hp).2.1
    exact unmarked_address (hcount next) fun hq => unmarked_of_constructed (hqos ▸ hq) hp

theorem unmarked_sessionFrame : SessionFrame (Frame.keeping World.Unmarked) where
  same {w w'} _ hsession h s := by
    rw [hsession]
    exact h s
  write w k p _ h := h
  note w _ _ _ h := h
  noteWill _ _ h := h
  counter s w _ h := unmarked_modifySession h id
  publish client maxQos retained packet w h := unmarked_publish h client maxQos retained packet
  subscriptions w s f hf h := unmarked_modifySession h fun hs => by
    rw [hf]
    exact hs

/-- Marking the messages of a session leaves their headers as they are. -/
theorem unmarked_redeliver {w : World} (h : w.Unmarked) (c : MqttClient) :
    (w.redeliver c).Unmarked := by
  have hmark {l : List MqttPublish} {p : MqttPublish} (hp : p ∈ l.map MqttPublish.setDup) :
      ∃ q ∈ l, q.toFixedHeader = p.toFixedHeader := by
    obtain ⟨q, hq, rfl⟩ := List.mem_map.1 hp
    exact ⟨q, hq, rfl⟩
  refine rel_redeliver (F := Frame.keeping World.Unmarked) ?_ ?_ (fun w p h => h) w h
  · refine fun w h => unmarked_modifySession h fun hs => hs.of_headers fun p hp => ?_
    rcases List.mem_append.1 hp with hp | hp
    · obtain ⟨q, hq, heq⟩ := hmark hp
      exact ⟨q, List.mem_append_left _ hq, heq⟩
    · exact ⟨p, List.mem_append_right _ hp, rfl⟩
  · refine fun w h => unmarked_modifySession h fun hs => hs.of_headers fun p hp => ?_
    rcases List.mem_append.1 hp with hp | hp
    · exact ⟨p, List.mem_append_left _ hp, rfl⟩
    · obtain ⟨q, hq, heq⟩ := hmark hp
      exact ⟨q, List.mem_append_right _ hq, heq⟩

variable {cfg : Config} {w w' : World} {e : Event}

theorem unmarked_joined (h : w.Unmarked) (j : Joining) (hk : (w.contexts j.channelId).isSome) :
    (w.joined cfg j).Unmarked := by
  obtain ⟨s, sessionPresent, v, -, -, -, -, hcases⟩ := joined_cases cfg w j hk
  rcases hcases with ⟨-, -, hsession, hw⟩ | ⟨-, -, hsession, hw⟩
  · rw [hw]
    refine unmarked_redeliver (fun s => ?_) _
    rw [World.session_resubscribe, hsession]
    exact h s
  · rw [hw]
    intro s'
    rw [hsession, Function.update_apply]
    split_ifs
    · exact fun p hp => absurd hp List.not_mem_nil
    · exact h s'

theorem unmarked_step (hst : (broker cfg).step w e = some w') (h : w.Unmarked) : w'.Unmarked := by
  refine unmarked_sessionFrame.step hst ?_
  rcases received_cases cfg w e with ⟨j, hj, hw⟩ | ⟨-, ⟨packet, -, hw⟩ | ⟨c, p, -, -, -, hw⟩ | hw⟩
  · rw [hw]
    exact unmarked_joined h j (isSome_contexts_of_joining hst hj)
  · intro s
    rw [hw, w.session_greet]
    exact h s
  · intro s
    rw [hw, w.session_served, Function.update_apply]
    split_ifs
    · exact (h c.session).served p
    · exact h s
  · rwa [hw]

/-- In no reachable state has a message of a session the DUP bit. -/
theorem unmarked_of_reachable (h : (broker cfg).Reachable w) : w.Unmarked :=
  h.invariant (fun _ _ hp => absurd hp List.not_mem_nil) fun _ _ _ hw hst => unmarked_step hst hw

/-- What is written again is written without the DUP bit. -/
theorem not_markedOnWire_outstanding (h : (broker cfg).Reachable w) {s : SessionRef}
    {m : MqttPublish} (hm : .publish m ∈ w.outstanding s) : ¬m.MarkedOnWire := by
  have hunmarked := unmarked_of_reachable h s
  have hlists := outbound_of_reachable h s
  have hheader {l l' : List MqttPublish} (hl : l.map MqttPublish.unmark = l')
      (hm : .publish m ∈ l'.map fun p => Packet.publish p.setDup) :
      ∃ q ∈ l, q.toFixedHeader = m.toFixedHeader := by
    rw [← hl, List.map_map] at hm
    obtain ⟨q, hq, heq⟩ := List.mem_map.1 hm
    exact ⟨q, hq, by rw [← Packet.publish.inj heq]; rfl⟩
  rw [World.outstanding, List.mem_append, List.mem_append] at hm
  obtain ⟨q, hq, heq⟩ : ∃ q ∈ (w.session s).publishForAck ++ (w.session s).publishForRec,
      q.toFixedHeader = m.toFixedHeader := by
    rcases hm with (hm | hm) | hm
    · obtain ⟨q, hq, heq⟩ := hheader hlists.ack hm
      exact ⟨q, List.mem_append_left _ hq, heq⟩
    · obtain ⟨q, hq, heq⟩ := hheader hlists.received hm
      exact ⟨q, List.mem_append_right _ hq, heq⟩
    · obtain ⟨_, -, heq⟩ := List.mem_map.1 hm
      cases heq
  refine not_markedOnWire ?_
  rw [← heq]
  exact hunmarked q hq

/-! ## What reaches the wire -/

/-- The mark that is decoded is the one the object was constructed with; and when
    a session is resumed, what is written again has the DUP bit only if there is
    no PUBLISH among it. -/
theorem dup_reaches_wire_iff (cfg : Config) :
    (∀ (dup : Bool) (qos : Nat) (retain : Bool) (name : Bytes) (id : UInt16) (payload : Bytes)
      (p : MqttPublish) (ds : List Bool), qos = 1 ∨ qos = 2 →
      mqttPublish dup qos retain name id payload = .ok p →
      (p.DupReadsBack ds ↔
        PublishName name ∧ name.length + 4 + payload.length < 2 ^ 21 ∧ ds.getLastD dup = dup)) ∧
    ∀ (w w' : World) (e : Event) (j : Joining) (s : SessionRef), (broker cfg).Reachable w →
      (broker cfg).step w e = some w' → w.joining cfg e = some j → w.Resumes j s →
      w.Resends j s w' ∧
        ((∀ m, .publish m ∈ w.outstanding s → m.MarkedOnWire) ↔
          ∀ m, .publish m ∉ w.outstanding s) := by
  refine ⟨fun dup qos retain name id payload p ds hq hp => dupReadsBack_iff hq hp ds,
    fun w w' e j s h hst hj hs => ⟨resends_step h hst hj hs, ?_⟩⟩
  constructor
  · exact fun hmarked m hm => not_markedOnWire_outstanding h hm (hmarked m hm)
  · exact fun hnone m hm => absurd hm (hnone m)

/-- A client with a message it did not answer comes back. -/
theorem exists_resumed : ∃ w w' j, (broker mqttdCfg).Reachable w ∧
    (broker mqttdCfg).step w (Action.read 2 (connectBytes 0x00 [0x61] [])).event = some w' ∧
    w.joining mqttdCfg (Action.read 2 (connectBytes 0x00 [0x61] [])).event = some j ∧
    w.Resumes j 1 ∧ (w.outstanding 1).any (fun p => p.toPublish.isSome) = true := by
  have hruns : runs (fun _ _ => true)
      [.accept 1, .accept 2, .read 1 (connectBytes 0x00 [0x61] []),
        .read 1 (subscribeBytes [0x74] 0x01),
        .read 1 (publishBytes 0x02 [0x74] [0x00, 0x07] [0x01]), .disconnected 1]
      (fun w => ((broker mqttdCfg).step w (Action.read 2 (connectBytes 0x00 [0x61] [])).event).any
        fun _ => (w.outstanding 1).any (fun p => p.toPublish.isSome) &&
          (w.joining mqttdCfg (Action.read 2 (connectBytes 0x00 [0x61] [])).event).any fun j =>
            j.packet.cleanSession = false && w.sessions j.packet.clientId = some 1) = true := by
    decide +kernel
  obtain ⟨l, w, w', hl, -, hst, hp⟩ := exists_run_step hruns
  obtain ⟨hout, hj⟩ := Bool.and_eq_true_iff.1 hp
  obtain ⟨j, hj, hs⟩ := Option.any_eq_true _ _ |>.1 hj
  exact ⟨w, w', j, hl.reachable, hst, hj, by simpa [World.Resumes] using hs, hout⟩

theorem dup_reaches_wire_iff_resumed :
    (∃ p, mqttPublish false 1 false [0x74] 7 [0x68] = .ok p ∧
      (p.DupReadsBack [true, false] ↔ PublishName [0x74] ∧ ([0x74] : Bytes).length + 4 +
        ([0x68] : Bytes).length < 2 ^ 21 ∧ [true, false].getLastD false = false)) ∧
    ∃ (w w' : World) (j : Joining), w.Resends j 1 w' ∧
      ((∀ m, .publish m ∈ w.outstanding 1 → m.MarkedOnWire) ↔
        ∀ m, .publish m ∉ w.outstanding 1) := by
  obtain ⟨w, w', j, h, hst, hj, hs, -⟩ := exists_resumed
  exact ⟨⟨_, rfl, (dup_reaches_wire_iff mqttdCfg).1 _ _ _ _ _ _ _ _ (.inl rfl) rfl⟩,
    w, w', j, (dup_reaches_wire_iff mqttdCfg).2 w w' _ j 1 h hst hj hs⟩

/-- The mark that `dup(true)` sets is not written, nor is it when a session is
    resumed. -/
theorem dup_is_lost :
    (¬∀ (dup : Bool) (qos : Nat) (retain : Bool) (name : Bytes) (id : UInt16) (payload : Bytes)
      (p : MqttPublish) (ds : List Bool), qos = 1 ∨ qos = 2 →
      mqttPublish dup qos retain name id payload = .ok p → p.DupReadsBack ds) ∧
    ¬∀ (w w' : World) (e : Event) (j : Joining) (s : SessionRef), (broker mqttdCfg).Reachable w →
      (broker mqttdCfg).step w e = some w' → w.joining mqttdCfg e = some j → w.Resumes j s →
      ∀ m, .publish m ∈ w.outstanding s → m.MarkedOnWire := by
  constructor
  · intro h
    obtain ⟨bytes, q, hs, hread, hq⟩ :=
      h false 1 false [0x74] 7 [0x68] _ [true] (.inl rfl) rfl
    obtain rfl : [0x32, 0x06, 0x00, 0x01, 0x74, 0x00, 0x07, 0x68] = bytes := Except.ok.inj hs
    have hdecoded : channelRead [0x32, 0x06, 0x00, 0x01, 0x74, 0x00, 0x07, 0x68] =
        .packet (.publish ⟨⟨.publish, 0x02, 6⟩, false, 1, false, [0x74], 7, [0x68]⟩) [] := by
      rfl
    cases hdecoded.symm.trans (hread [])
    exact absurd (congrArg MqttPublish.dup hq) (by decide)
  · intro h
    obtain ⟨w, w', j, hw, hst, hj, hs, hout⟩ := exists_resumed
    obtain ⟨p, hp, hpublish⟩ := List.any_eq_true.1 hout
    obtain ⟨m, hm⟩ := Option.isSome_iff_exists.1 hpublish
    obtain rfl : p = .publish m := by
      cases p <;> cases hm
      rfl
    exact not_markedOnWire_outstanding hw hp (h w w' _ j 1 hw hst hj hs m hp)

end MqttBroker
