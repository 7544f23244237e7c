import MqttBroker.Delivery.Origins
import MqttBroker.Delivery.TopicFilters
import MqttBroker.Delivery.Wire

/-!
# The streams of the channels

What the broker is sent fits in the PUBLISHes that it makes of it: the messages and the
wills that it publishes were decoded, and a will is for a topic that has been subscribed
to (`sourced_deliverable`). So whatever it writes to a channel is serialized, and is
decoded at the other end up to the first notice of `$sys/trash` (`streams_read`).
-/

namespace MqttBroker

open Reader

/-- The packets that were written to a channel, in their order. -/
def World.stream (w : World) (k : ChannelId) : List Packet :=
  (w.written.filter fun x => x.1 = k).map Prod.snd

variable {cfg : Config} {w w' : World} {e : Event} {m p : MqttPublish} {sb rest : Bytes}

/-! ## What is decoded -/

theorem legible_of_decodeString {s r name : Bytes} (h : decodeString s = .ok (name, r)) :
    Legible name := reads_of_decodeString h

/-- A PUBLISH that was decoded fits in one. -/
theorem deliverable_of_channelRead (h : channelRead sb = .packet (.publish m) rest)
    (hsb : sb.length < 2 ^ 64) : m.Deliverable ∧ TopicName m.topicName := by
  obtain ⟨-, fh, body, hfh, -, hb⟩ := channelRead_eq_packet.1 h
  obtain ⟨_, _, -, -, -, -, hrl⟩ := decodeFixedHeader_eq_ok hfh
  have hsmall := (decodeRemainingLength_spec hrl).2
  have hbody := Nat.lt_of_le_of_lt (length_le_of_decodeFixedHeader hfh) hsb
  have hdecode := decodePublish_of_decodeBody hb
  have hp := decodedFrom_of_decodePublish hdecode
  obtain ⟨t, hstr, -⟩ := hp.name
  have hlen := decodePublish_length (by omega) hbody hdecode
  have htopic : TopicName m.topicName := ⟨hp.nonempty, hp.notSys, hp.notWild⟩
  exact ⟨⟨hp.validQos, legible_of_decodeString hstr, by rw [idLength]; omega, .inr htopic⟩, htopic⟩

/-- Only a CONNECT is decoded as one. -/
theorem decodeConnect_of_decodeBody {fh : FixedHeader} {s r : Bytes} {packet : MqttConnect}
    (h : decodeBody fh s = .ok (some (.connect packet), r)) :
    decodeConnect fh s = .ok (packet, r) := by
  rw [decodeBody] at h
  cases ht : fh.type <;> simp only [ht] at h
  case connect =>
    obtain ⟨p, t, hp, h⟩ := bind_eq_ok h
    cases h
    exact hp
  case pingreq | pingresp | disconnect | unspecified => cases h
  all_goals
    obtain ⟨_, _, -, h⟩ := bind_eq_ok h
    cases h

/-- The topic of a will was decoded. -/
theorem legible_willTopic {packet : MqttConnect}
    (h : channelRead sb = .packet (.connect packet) rest) (hflag : packet.willFlag = true) :
    Legible packet.willTopic := by
  obtain ⟨-, fh, body, -, -, hb⟩ := channelRead_eq_packet.1 h
  obtain ⟨_, _, s, _, _, _, -, -, -, htopic, -⟩ :=
    (decodedFrom_of_decodeConnect (decodeConnect_of_decodeBody hb)).fields
  rw [readIf, hflag] at htopic
  exact legible_of_decodeString htopic

theorem legible_sysTrash : Legible sysTrash :=
  legible_of_decodeString (s := lengthPrefixed sysTrash) (r := []) (by decide)

theorem idLength_le {qos qos' : Nat} (h : qos ≤ qos') (hq : qos' < 3) :
    idLength qos ≤ idLength qos' := by
  rw [← Nat.min_eq_right h]
  exact idLength_min_le qos' qos hq

/-- What conveys a message that fits, fits. -/
theorem MqttPublish.Conveys.deliverable {qos : Nat} {retain : Bool} {name payload : Bytes}
    (h : p.Conveys qos retain name payload) (hq : qos < 3) (hl : Legible name)
    (hs : name.length + 2 + idLength qos + payload.length < 2 ^ 21)
    (ht : name = sysTrash ∨ TopicName name) : p.Deliverable := by
  have hle := idLength_le h.qos hq
  refine ⟨Nat.lt_of_le_of_lt h.qos hq, h.topicName ▸ hl, ?_, h.topicName ▸ ht⟩
  rw [h.topicName, h.payload]
  omega

theorem passing_deliverable :
    Passing MqttPublish.Deliverable fun p => p.Deliverable ∧ p.Made where
  publish {m p maxQos retained id} hm _ hp := by
    obtain ⟨hdup, hqos, hretain, htopic, hpayload, -⟩ := mqttPublish_eq_ok hp
    have hcopy : p.Conveys m.qos true m.topicName m.payload :=
      ⟨htopic, hpayload, hqos ▸ Nat.min_le_left _ _, fun _ => rfl⟩
    refine ⟨hcopy.deliverable hm.qos hm.legible hm.small hm.topic, id, ?_⟩
    have hmark : p.mark false = p := by rw [MqttPublish.mark, ← hdup]
    rw [hmark, hqos, hretain, htopic, hpayload]
    exact hp
  again hp := ⟨⟨hp.1.qos, hp.1.legible, hp.1.small, hp.1.topic⟩, hp.2⟩

/-- The messages of the broker fit in PUBLISHes. -/
theorem sourced_deliverable (h : (broker cfg).Reachable w) :
    w.Sourced TopicName MqttPublish.Deliverable fun p => p.Deliverable ∧ p.Made := by
  refine h.induct sourced_start fun w e w' h hw hst => ?_
  have hentered := entered_of_reachable h
  refine sourced_step passing_deliverable hst (fun f hf => ?_) (fun m hm _ => ?_)
    (fun j hj hflag htopic p hp => ?_) hw
  · -- A topic that is there was subscribed to, without a wildcard.
    obtain ⟨hne, -, hsys, hwild⟩ := hentered.topic hf
    refine ⟨hne, hsys, fun hw => ?_⟩
    exact Bool.false_ne_true (hwild.trans ((isWildFilter_iff f).2 hw))
  · -- A PUBLISH was decoded, and its name fits in a notice.
    obtain ⟨sb, rest, hact, hread⟩ := packet_eq_some hm
    have ha := ((step_eq_some cfg).1 hst).1
    rw [hact] at ha
    have hdeliverable := (deliverable_of_channelRead hread ha.2).1
    refine ⟨hdeliverable, fun p hp => hp.deliverable (by decide) legible_sysTrash ?_ (.inl rfl)⟩
    have hshort := hdeliverable.legible.1
    have hsize : sysTrash.length + 2 + idLength 1 = 14 := rfl
    omega
  · -- The topic and the message of a will are strings of a CONNECT, which are short.
    obtain ⟨hpacket, -⟩ := joining_eq_some hj
    obtain ⟨hqos, hshort, hmessage⟩ :=
      (decoded_of_admits hpacket ((step_eq_some cfg).1 hst).1).2
    obtain ⟨sb, rest, -, hread⟩ := packet_eq_some hpacket
    refine hp.deliverable hqos (legible_willTopic hread hflag) ?_ (.inr htopic)
    have hid : idLength j.packet.willQos ≤ 2 := by
      rw [idLength]
      split_ifs <;> omega
    omega

/-! ## What is answered -/

/-- Every entry of a SUBSCRIBE takes bytes. -/
theorem length_of_decodeSubscribeLoop {fuel : Nat} {remain : Int} {s r : Bytes}
    {es : List SubscribeEntry} (h : decodeSubscribeLoop fuel remain s = .ok (es, r)) :
    es.length ≤ remain.toNat := by
  induction fuel generalizing remain s es with
  | zero =>
    cases h
    exact Nat.zero_le _
  | succ fuel ih =>
    rw [decodeSubscribeLoop] at h
    split_ifs at h with hr
    · cases h
      exact Nat.zero_le _
    obtain ⟨topic, s₁, -, h⟩ := bind_eq_ok h
    obtain ⟨-, h⟩ := rejectIf_bind_eq_ok h
    split_ifs at h with hv
    · obtain ⟨q, s₂, -, h⟩ := bind_eq_ok h
      obtain ⟨-, h⟩ := rejectIf_bind_eq_ok h
      obtain ⟨es', s₃, h3, h⟩ := bind_eq_ok h
      cases h
      have := ih h3
      rw [List.length_cons]
      omega
    · obtain ⟨es', s₃, h3, h⟩ := bind_eq_ok h
      cases h
      have := ih h3
      rw [List.length_cons]
      omega

/-- A SUBSCRIBE that was decoded is for so many filters that a SUBACK can answer it. -/
theorem length_topicFilters {p : MqttSubscribe} (h : channelRead sb = .packet (.subscribe p) rest) :
    p.topicFilters.length + 2 < 2 ^ 21 := by
  obtain ⟨-, fh, body, hfh, -, hb⟩ := channelRead_eq_packet.1 h
  obtain ⟨_, _, -, -, -, -, hrl⟩ := decodeFixedHeader_eq_ok hfh
  have hsmall := (decodeRemainingLength_spec hrl).2
  rw [decodeBody] at hb
  cases ht : fh.type <;> simp only [ht] at hb
  case subscribe =>
    obtain ⟨q, s₁, h1, h⟩ := bind_eq_ok hb
    cases h
    obtain ⟨id, s₂, -, h⟩ := bind_eq_ok h1
    obtain ⟨es, s₃, hloop, h⟩ := bind_eq_ok h
    obtain ⟨-, h⟩ := rejectIf_bind_eq_ok h
    cases h
    have := length_of_decodeSubscribeLoop hloop
    dsimp only
    omega
  case pingreq | pingresp | disconnect | unspecified => cases hb
  all_goals
    obtain ⟨_, _, -, h⟩ := bind_eq_ok hb
    cases h

/-- The SUBACK is the one that the return codes are added to. -/
theorem foldlM_suback (c : MqttClient) {entries : List SubscribeEntry}
    (hcodes : ∀ entry ∈ entries, entry.returnCode c < 3 ∨ entry.returnCode c = 0x80)
    (g : Granting) : (entries.map fun entry => entry.returnCode c).foldlM
      MqttSuback.addReturnCode g.suback = .ok (entries.foldl (Granting.grant c) g).suback := by
  induction entries generalizing g with
  | nil => rfl
  | cons entry entries ih =>
    obtain ⟨hcode, hcodes⟩ := List.forall_mem_cons.1 hcodes
    have hadd : g.suback.addReturnCode (entry.returnCode c) = .ok (g.grant c entry).suback := by
      rw [MqttSuback.addReturnCode, if_neg (by omega)]
      rfl
    rw [List.map_cons, List.foldlM_cons, hadd]
    exact ih hcodes (g.grant c entry)

theorem returnCode_lt (entry : SubscribeEntry) (c : MqttClient) :
    entry.returnCode c < 3 ∨ entry.returnCode c = 0x80 := by
  rw [SubscribeEntry.returnCode]
  split_ifs with h
  · left
    rcases Bool.or_eq_true_iff.1 h with h | h
    · simp_all [SubscribeEntry.granted]
    · simp_all [SubscribeEntry.grantsTrash]
  · exact .inr rfl

/-- The SUBACK for a SUBSCRIBE that was decoded. -/
theorem readsBack_answer_subscribe {p : MqttSubscribe} (hp : p.topicFilters.length + 2 < 2 ^ 21)
    (c : MqttClient) : (Packet.suback (p.suback c)).ReadsBack := by
  have hcodes : ∀ code ∈ p.topicFilters.map fun entry => entry.returnCode c,
      code < 3 ∨ code = 0x80 := List.forall_mem_map.2 fun entry _ => returnCode_lt entry c
  obtain ⟨suback, hs, hread⟩ := readsBack_suback hcodes (by rwa [List.length_map]) p.packetId
  have hfold : (p.topicFilters.map fun entry => entry.returnCode c).foldlM
      MqttSuback.addReturnCode (mqttSuback p.packetId) = .ok (p.suback c) :=
    foldlM_suback c (fun entry _ => returnCode_lt entry c) ⟨mqttSuback p.packetId, [], []⟩
  rwa [← Except.ok.inj (hs.symm.trans hfold)]

/-- The packets with an id only that the broker writes. -/
theorem readsBack_ids (id : UInt16) : (Packet.puback (mqttPuback id)).ReadsBack ∧
    (Packet.pubrec (mqttPubrec id)).ReadsBack ∧ (Packet.pubrel (mqttPubrel id)).ReadsBack ∧
    (Packet.pubcomp (mqttPubcomp id)).ReadsBack ∧ (Packet.unsuback (mqttUnsuback id)).ReadsBack := by
  refine ⟨readsBack_idPacket .puback ?_ (fun _ => rfl) (fun _ => rfl) (fun _ => rfl) id,
    readsBack_idPacket .pubrec ?_ (fun _ => rfl) (fun _ => rfl) (fun _ => rfl) id,
    readsBack_idPacket .pubrel ?_ (fun _ => rfl) (fun _ => rfl) (fun _ => rfl) id,
    readsBack_idPacket .pubcomp ?_ (fun _ => rfl) (fun _ => rfl) (fun _ => rfl) id,
    readsBack_idPacket .unsuback ?_ (fun _ => rfl) (fun _ => rfl) (fun _ => rfl) id⟩ <;> decide

theorem refusalCode_lt (w : World) (draws : List (Nat × Nat)) (packet : MqttConnect) :
    w.refusalCode draws packet < 6 := by
  rw [World.refusalCode]
  cases hcheck : w.checkIntegrity draws packet with
  | none => decide
  | some r =>
    have hcode : r.1 ≤ 4 := by
      rw [World.checkIntegrity] at hcheck
      split_ifs at hcheck
      case neg =>
        obtain ⟨_, -, rfl⟩ := Option.map_eq_some_iff.1 hcheck
        dsimp only
        split_ifs <;> decide
      all_goals
        cases hcheck
        dsimp only
        omega
    rw [Option.elim_some]
    split_ifs <;> omega

/-- What a client is answered is read back. -/
theorem readsBack_of_mem_packet_answers {k : ChannelId} {c : MqttClient} {p q : Packet}
    (hread : channelRead sb = .packet p rest) {k' : ChannelId} (hq : (k', q) ∈ p.answers k c) :
    q.ReadsBack := by
  cases p with
  | publish m =>
    rw [Packet.answers, MqttPublish.answer] at hq
    split_ifs at hq
    · obtain ⟨-, rfl⟩ := Prod.mk.inj (List.mem_singleton.1 hq)
      exact (readsBack_ids _).1
    · obtain ⟨-, rfl⟩ := Prod.mk.inj (List.mem_singleton.1 hq)
      exact (readsBack_ids _).2.1
    · exact absurd hq List.not_mem_nil
  | pubrec a =>
    obtain ⟨-, rfl⟩ := Prod.mk.inj (List.mem_singleton.1 hq)
    exact (readsBack_ids _).2.2.1
  | pubrel a =>
    obtain ⟨-, rfl⟩ := Prod.mk.inj (List.mem_singleton.1 hq)
    exact (readsBack_ids _).2.2.2.1
  | subscribe p =>
    obtain ⟨-, rfl⟩ := Prod.mk.inj (List.mem_singleton.1 hq)
    exact readsBack_answer_subscribe (length_topicFilters hread) c
  | unsubscribe p =>
    obtain ⟨-, rfl⟩ := Prod.mk.inj (List.mem_singleton.1 hq)
    exact (readsBack_ids _).2.2.2.2
  | pingreq p =>
    obtain ⟨-, rfl⟩ := Prod.mk.inj (List.mem_singleton.1 hq)
    exact Packet.readsBack_of_body (p := .pingresp mqttPingresp) [] (by decide) rfl rfl
      (reads_pure _)
  | _ => exact absurd hq List.not_mem_nil

/-- An answer that is no PUBLISH is read back. -/
theorem readsBack_of_mem_answers {k : ChannelId} {q : Packet} (hx : (k, q) ∈ w.answers cfg e)
    (hm : ∀ m, q ≠ .publish m) : q.ReadsBack := by
  rw [World.answers] at hx
  cases hj : w.joining cfg e with
  | some j =>
    simp only [hj] at hx
    obtain ⟨p, hp, heq⟩ := List.mem_map.1 hx
    obtain ⟨-, rfl⟩ := Prod.mk.inj heq
    rw [World.welcome] at hp
    cases hs : w.storedSession j with
    | none =>
      simp only [hs, List.mem_singleton] at hp
      exact hp ▸ readsBack_connack (by decide) false
    | some s =>
      simp only [hs, List.mem_cons, List.mem_append, List.mem_map] at hp
      rcases hp with rfl | (⟨q, -, rfl⟩ | ⟨q, -, rfl⟩) | ⟨id, -, rfl⟩
      · exact readsBack_connack (by decide) true
      · exact absurd rfl (hm _)
      · exact absurd rfl (hm _)
      · exact (readsBack_ids id).2.2.1
  | none =>
    cases hp : e.packet with
    | none => simp [hj, hp] at hx
    | some p =>
      obtain ⟨sb, rest, -, hread⟩ := packet_eq_some hp
      by_cases hconnect : ∃ packet, p = .connect packet
      · obtain ⟨packet, rfl⟩ := hconnect
        simp only [hj, hp, List.mem_singleton] at hx
        obtain ⟨-, rfl⟩ := Prod.mk.inj hx
        exact readsBack_connack (refusalCode_lt w e.draws packet) false
      · have hanswers := answers_of_packet cfg (w := w) hp fun packet h => hconnect ⟨packet, h⟩
        rw [World.answers, hj] at hanswers
        rw [hj] at hx
        dsimp only at hanswers hx
        rw [hanswers] at hx
        cases hc : w.param e.action.channelId with
        | none => simp [hc] at hx
        | some c =>
          rw [hc] at hx
          exact readsBack_of_mem_packet_answers hread hx

/-! ## What is written -/

/-- Whatever is written is serialized. -/
theorem wired_of_mem_written (h : (broker cfg).Reachable w) :
    ∀ k q, (k, q) ∈ w.written → ∃ b, Wired q b := by
  have hother : ∀ k q, (k, q) ∈ w.written → (∀ m, q ≠ .publish m) → q.ReadsBack := by
    refine h.induct (I := fun w => ∀ k q, (k, q) ∈ w.written → (∀ m, q ≠ .publish m) →
      q.ReadsBack) (fun k q hq => absurd hq List.not_mem_nil) fun w e w' h ih hst k q hq hm => ?_
    obtain ⟨xs, -, hwritten, -⟩ := replied_of_step h hst
    rw [hwritten, List.mem_append, List.mem_append] at hq
    rcases hq with hq | hq | hq
    · exact ih k q hq hm
    · exact readsBack_of_mem_answers hq hm
    · obtain ⟨x, -, heq⟩ := List.mem_map.1 hq
      exact absurd (congrArg Prod.snd heq).symm (hm _)
  intro k q hq
  -- A PUBLISH was made of what fits; anything else is an answer.
  by_cases hm : ∃ m, q = .publish m
  · obtain ⟨m, rfl⟩ := hm
    obtain ⟨hdeliverable, hmade⟩ := (sourced_deliverable h).written hq
    exact hmade.wired hdeliverable
  · have hm : ∀ m, q ≠ .publish m := fun m h => hm ⟨m, h⟩
    exact (hother k q hq hm).wired hm

/-- The packets that are written to a channel are serialized, and the bytes are decoded as
    the packets, but for the DUP marks, up to the first notice; there the decoder throws. -/
theorem streams_read (h : (broker cfg).Reachable w) (k : ChannelId) :
    ∃ bs, List.Forall₂ (fun p b => p.serialize = .ok b) (w.stream k) bs ∧
      drain bs.flatten = (((w.stream k).takeWhile fun p => !p.isNotice).map Packet.onWire,
        if (w.stream k).any Packet.isNotice then none else some []) := by
  have hwired : ∀ p ∈ w.stream k, ∃ b, Wired p b := by
    intro p hp
    obtain ⟨x, hx, rfl⟩ := List.mem_map.1 hp
    exact wired_of_mem_written h x.1 x.2 (List.mem_of_mem_filter hx)
  obtain ⟨bs, hbs⟩ := exists_wired hwired
  exact ⟨bs, hbs.imp fun _ _ hb => hb.serialize, drain_wired hbs⟩

/-- The admin is sent a CONNACK, a SUBACK and a notice, and the notice is refused. -/
theorem streams_read_notice : ∃ w p q m bs, (broker mqttdCfg).Reachable w ∧
    w.stream 1 = [p, q, m] ∧ List.Forall₂ (fun p b => p.serialize = .ok b) (w.stream 1) bs ∧
    drain bs.flatten = ([p.onWire, q.onWire], none) := by
  have hruns : runs (fun _ _ => true) [.accept 1, .accept 2,
      .read 1 (adminConnectBytes 0x02 [0x61]), .read 1 (subscribeBytes sysTrash 0x02),
      .read 2 (connectBytes 0x02 [0x62] []), .read 2 (publishBytes 0 [0x74] [] [0x68])]
      (fun w => (w.stream 1).map Packet.isNotice == [false, false, true]) = true := by
    decide +kernel
  obtain ⟨l, w, hl, -, hstream⟩ := exists_run hruns
  have hstream := eq_of_beq hstream
  obtain ⟨bs, hbs, hdrain⟩ := streams_read ⟨l, hl⟩ 1
  rcases hw : w.stream 1 with _ | ⟨p, _ | ⟨q, _ | ⟨m, _ | _⟩⟩⟩ <;> rw [hw] at hstream
  case cons.cons.cons.nil =>
    obtain ⟨hp, hq, hm⟩ : p.isNotice = false ∧ q.isNotice = false ∧ m.isNotice = true := by
      simpa using hstream
    refine ⟨w, p, q, m, bs, ⟨l, hl⟩, hw, hbs, hdrain.trans ?_⟩
    simp [hw, hp, hq, hm]
  all_goals simp at hstream

end MqttBroker
