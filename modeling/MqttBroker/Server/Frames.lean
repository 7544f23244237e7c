import MqttBroker.Server.Tables

/-!
# Frames of publishing

What publishing does to the state is checked once, function by function, for a
frame that allows `mqtt_client::publish` for the message in question and the
storing of it (`within_publishTopic`, ...). A frame that allows these for every
message allows all publishing (`PublishFrame`).
-/

namespace MqttBroker

open Prog

variable {F : Frame World}

/-- A handler goes on with the client at the channel, which is recorded. -/
theorem agent_bind_apply {α : Type} {k : ChannelId} {w : World} {c : MqttClient}
    (hc : w.param k = some c) (p : Packet) (m : MqttClient → Server α) :
    (agent k p >>= m) w = m c (w.record (.handled c p)) := by
  rw [agent, bind_apply, get_bind_apply, hc]
  rfl

/-- Without a client at the channel a handler throws. -/
theorem agent_bind_apply_none {α : Type} {k : ChannelId} {w : World} (hc : w.param k = none)
    (p : Packet) (m : MqttClient → Server α) :
    (agent k p >>= m) w = (.thrown "First packet is not a CONNECT packet.", w) := by
  rw [agent, bind_apply, get_bind_apply, hc]
  rfl

/-! ## `mqtt_client::publish` -/

/-- A PUBLISH that is built has the fields it is built from. -/
theorem mqttPublish_eq_ok {dup retain : Bool} {qos : Nat} {topicName payload : Bytes} {id : UInt16}
    {publish : MqttPublish} (h : mqttPublish dup qos retain topicName id payload = .ok publish) :
    publish.dup = dup ∧ publish.qos = qos ∧ publish.retain = retain ∧
      publish.topicName = topicName ∧ publish.payload = payload ∧
      (qos = 1 ∨ qos = 2 → publish.packetId = id) := by
  simp only [mqttPublish] at h
  split_ifs at h <;> cases h <;> simp_all

/-- `new_packet_id` moves the counter of the session, or does not return. -/
theorem within_newPacketId {s : SessionRef} (h : ∀ (w : World) (next : UInt16),
      F.rel w (w.modifySession s fun _ => { w.session s with nextPacketId := next })) :
    Within F (newPacketId s) := by
  refine within_get_bind fun w => ?_
  cases hid : (w.session s).newPacketId with
  | none => exact F.refl w
  | some r =>
    have := h w r.2.nextPacketId
    rwa [← (Session.newPacketId_eq_some hid).2.2] at this

/-- `mqtt_client::publish` as a whole. -/
theorem publish_apply (client : MqttClient) (maxQos : Nat) (retained : Bool)
    (packet : MqttPublish) (w : World) : client.publish maxQos retained packet w =
      match (w.session client.session).newPacketId with
      | none => (.stuck, w)
      | some (id, s) =>
        let v := w.modifySession client.session fun _ => s
        match mqttPublish false (min packet.qos maxQos) retained packet.topicName id
          packet.payload with
        | .error what => (.thrown what, v)
        | .ok publish =>
          (.value (), (v.address client publish).write client.channelId (.publish publish)) := by
  have hid : newPacketId client.session w = match (w.session client.session).newPacketId with
      | none => (.stuck, w)
      | some (id, s) => (.value id, w.modifySession client.session fun _ => s) := by
    rw [newPacketId, get_bind_apply]
    cases (w.session client.session).newPacketId <;> rfl
  rw [MqttClient.publish, bind_apply, hid]
  cases (w.session client.session).newPacketId with
  | none => rfl
  | some r =>
    dsimp only [andThen]
    rw [bind_apply]
    cases mqttPublish false (min packet.qos maxQos) retained packet.topicName r.1
      packet.payload <;> rfl

/-- What `mqtt_client::publish` can do to the state: it moves the counter of the
    session, and if the new PUBLISH is built, files and writes it. -/
theorem publish_cases (client : MqttClient) (maxQos : Nat) (retained : Bool)
    (packet : MqttPublish) (w : World) : ∃ next,
      let v := w.modifySession client.session fun _ =>
        { w.session client.session with nextPacketId := next }
      (client.publish maxQos retained packet w).2 = v ∨ ∃ id publish, id ≠ 0 ∧
        (w.session client.session).inUse id = false ∧
        mqttPublish false (min packet.qos maxQos) retained packet.topicName id packet.payload =
          .ok publish ∧
        (client.publish maxQos retained packet w).2 =
          (v.address client publish).write client.channelId (.publish publish) := by
  rw [publish_apply]
  cases hid : (w.session client.session).newPacketId with
  | none =>
    -- `new_packet_id` does not return.
    refine ⟨(w.session client.session).nextPacketId, .inl ?_⟩
    rw [World.modifySession, Function.update_eq_self]
  | some r =>
    obtain ⟨h0, hfree, hr⟩ := Session.newPacketId_eq_some hid
    refine ⟨r.2.nextPacketId, ?_⟩
    rw [← hr]
    dsimp only
    cases hp : mqttPublish false (min packet.qos maxQos) retained packet.topicName r.1
      packet.payload with
    | error what => exact .inl rfl
    | ok publish => exact .inr ⟨r.1, publish, h0, hfree, hp, rfl⟩

/-- `mqtt_client::publish` moves the counter of the session, and then files the
    new PUBLISH and writes it. -/
theorem within_publish {client : MqttClient} {packet : MqttPublish}
    (hid : ∀ (w : World) (next : UInt16), F.rel w
      (w.modifySession client.session fun _ =>
        { w.session client.session with nextPacketId := next }))
    (haddress : ∀ (w : World) (publish : MqttPublish), F.rel w (w.address client publish))
    (hwrite : ∀ (w : World) (publish : MqttPublish), publish.topicName = packet.topicName →
      F.rel w (w.write client.channelId (.publish publish)))
    (maxQos : Nat) (retained : Bool) : Within F (client.publish maxQos retained packet) := by
  intro w
  rcases publish_cases client maxQos retained packet w with
    ⟨next, heq | ⟨id, publish, -, -, hp, heq⟩⟩
  · rw [heq]
    exact hid w next
  · rw [heq]
    exact F.trans (hid w next) (F.trans (haddress _ publish)
      (hwrite _ publish (mqttPublish_eq_ok hp).2.2.2.1))

/-! ## Topics -/

/-- After a message to retain is stored, it is published to the subscribers. -/
theorem rel_publishTopic_of {p : TopicPtr} {packet : MqttPublish} {w : World}
    (hpublish : ∀ s ∈ w.subscribersAt p, Within F (s.client.publish s.maxQos false packet)) :
    F.rel (w.storeRetained p packet) (publishTopic p packet w).2 := by
  rw [← w.subscribersAt_storeRetained p packet] at hpublish
  rw [publishTopic, modify_bind_apply, get_bind_apply]
  exact rel_bind (within_forEach hpublish _) fun _ => within_pure _

theorem rel_publishTopic {p : TopicPtr} {packet : MqttPublish}
    (hpublish : ∀ (client : MqttClient) maxQos, Within F (client.publish maxQos false packet))
    (w : World) : F.rel (w.storeRetained p packet) (publishTopic p packet w).2 :=
  rel_publishTopic_of fun s _ => hpublish s.client s.maxQos

theorem within_publishTopic {p : TopicPtr} {packet : MqttPublish}
    (hstore : ∀ w : World, F.rel w (w.storeRetained p packet))
    (hpublish : ∀ (client : MqttClient) maxQos, Within F (client.publish maxQos false packet)) :
    Within F (publishTopic p packet) := fun w => F.trans (hstore w) (rel_publishTopic hpublish w)

/-- What is done with a topic of `_topics` is done only if it is there. -/
theorem topicsAt_bind_apply {α : Type} (topicName : Bytes) (k : TopicPtr → Server α) (w : World) :
    (topicsAt topicName >>= k) w =
      if (w.topicAt (.entry false topicName)).isSome then k (.entry false topicName) w
      else (.thrown "out_of_range", w) := by
  rw [topicsAt, bind_apply, get_bind_apply]
  cases w.topicAt (.entry false topicName) <;> rfl

/-- What is caught where a topic of `_topics` is looked up is that it is not there,
    or what is done with it. -/
theorem tryCatch_topicsAt_apply {α : Type} (topicName : Bytes) (k : TopicPtr → Server α)
    (h : String → Server α) (w : World) : tryCatch (topicsAt topicName >>= k) h w =
      if (w.topicAt (.entry false topicName)).isSome then
        tryCatch (k (.entry false topicName)) h w
      else h "out_of_range" w := by
  rw [tryCatch_apply, topicsAt_bind_apply]
  split_ifs <;> rfl

/-- The topic of `_topics` is there, and what is done with it does not throw; or it is
    not there, and that is caught. -/
theorem returns_tryCatch_topicsAt {α : Type} {topicName : Bytes} {k : TopicPtr → Server α} {a : α}
    {w : World} {Q : α → World → Prop}
    (hsome : ∀ t, w.topicAt (.entry false topicName) = some t →
      Returns (k (.entry false topicName)) Q w)
    (hnone : w.topicAt (.entry false topicName) = none → Q a w) :
    Returns (tryCatch (topicsAt topicName >>= k) fun _ => pure a) Q w := by
  rw [Returns, tryCatch_topicsAt_apply]
  cases ht : w.topicAt (.entry false topicName) with
  | some t => exact returns_tryCatch (hsome t ht)
  | none => exact hnone ht

theorem within_topicsAt_bind {α : Type} {topicName : Bytes} {k : TopicPtr → Server α}
    (h : Within F (k (.entry false topicName))) : Within F (topicsAt topicName >>= k) := by
  intro w
  rw [topicsAt_bind_apply]
  split_ifs
  · exact h w
  · exact F.refl w

theorem within_publishWild {packet : MqttPublish}
    (h : ∀ f, Within F (publishTopic (.entry true f) packet)) (sent : Bool) (ts : List Topic) :
    Within F (publishWild packet sent ts) :=
  within_foldEach fun _ _ _ => within_ite (h _) (within_pure _)

theorem within_publishTrash
    (h : ∀ publish : MqttPublish, publish.retain = false → Within F (publishTopic .trash publish))
    (packet : MqttPublish) : Within F (publishTrash packet) := by
  refine within_bind within_get fun w => ?_
  cases hp : mqttPublish false 1 false w.trashTopic.topicFilter 0xffff packet.topicName with
  | error what => exact within_throw _
  | ok publish =>
    have hpublish : Within F (do let _ ← publishTopic .trash publish : Server Unit) :=
      within_bind (h publish (mqttPublish_eq_ok hp).2.2.1) fun _ => within_pure _
    exact hpublish

/-- Forwarding goes on over the wild topics and `$sys/trash`. -/
theorem within_forwardPublish (it : Iteration) {packet : MqttPublish}
    (hnote : ∀ w : World, F.rel w (w.noteRetain packet.retain packet.topicName packet.payload))
    (hexact : Within F (publishTopic (.entry false packet.topicName) packet))
    (hwild : ∀ f, Within F (publishTopic (.entry true f) packet))
    (htrash : ∀ publish : MqttPublish, publish.retain = false →
      Within F (publishTopic .trash publish)) : Within F (forwardPublish it packet) := by
  refine within_bind (within_modify hnote) fun _ => within_bind (within_tryCatch
    (within_topicsAt_bind hexact) fun _ => within_pure _) fun sent => ?_
  exact within_bind within_get fun w => within_bind (within_publishWild hwild _ _) fun _ =>
    within_ite (within_publishTrash htrash packet) (within_pure _)

/-- A retained message is published to the client at the channel. -/
theorem rel_publishRetained {p : TopicPtr} {k : ChannelId} {packet : MqttPublish} {w : World}
    (h : ∀ client maxQos, w.param k = some client →
      Within F (client.publish maxQos true packet)) : F.rel w (publishRetained p k packet w).2 := by
  rw [publishRetained, get_bind_apply]
  cases hc : w.param k with
  | none => exact F.refl w
  | some client =>
    refine within_tryCatch (within_bind within_get fun v => ?_) (fun _ => within_throw _) w
    split
    · exact within_throw _
    · exact h client _ hc

theorem within_publishRetained {p : TopicPtr} {k : ChannelId} {packet : MqttPublish}
    (h : ∀ (client : MqttClient) maxQos, Within F (client.publish maxQos true packet)) :
    Within F (publishRetained p k packet) := fun _ =>
  rel_publishRetained fun client maxQos _ => h client maxQos

/-- Of the retained messages, those of the topics in `_topics` are published. -/
theorem within_publishRetainedMessage_of (it : Iteration) (k : ChannelId) (fs gs : List Bytes)
    (h : ∀ (w : World) (f : Bytes) (t : Topic) (m : MqttPublish),
      w.topicAt (.entry false f) = some t → t.retainedMessage = some m →
      (∀ p, Within F (publishRetained p k m)) ∨ ∀ w', F.rel w w') :
    Within F (publishRetainedMessage it k fs gs) := by
  refine within_bind (within_forEach fun f _ => within_get_bind fun w => ?_) fun _ =>
    within_forEach fun g _ => within_get_bind fun w => ?_
  · cases hm : (w.topicAt (.entry false f)).bind Topic.retainedMessage with
    | none => exact F.refl w
    | some m =>
      obtain ⟨t, ht, hm⟩ := Option.bind_eq_some_iff.1 hm
      rcases h w f t m ht hm with hpublish | hdead
      · exact hpublish _ w
      · exact hdead _
  · by_cases hdead : ∀ w', F.rel w w'
    · exact hdead _
    · refine within_forEach (fun t ht => ?_) w
      have ht : w.topicAt (.entry false t.topicFilter) = some t :=
        Keyed.find_eq_some.2 ⟨(it.perm _).mem_iff.1 ht, rfl⟩
      split
      · exact within_pure _
      · next m hm =>
        exact within_ite ((h w _ t m ht hm).resolve_right hdead _) (within_pure _)

theorem within_publishRetainedMessage (it : Iteration) (k : ChannelId) (fs gs : List Bytes)
    (h : ∀ (w : World) (f : Bytes) (t : Topic) (m : MqttPublish),
      w.topicAt (.entry false f) = some t → t.retainedMessage = some m →
      (∀ (client : MqttClient) maxQos, Within F (client.publish maxQos true m)) ∨
        ∀ w', F.rel w w') : Within F (publishRetainedMessage it k fs gs) :=
  within_publishRetainedMessage_of it k fs gs fun w f t m ht hm =>
    (h w f t m ht hm).imp_left fun h _ => within_publishRetained h

/-- What `publish_will_message` does after it is noted that it is run. -/
theorem rel_publishWillMessage {client : MqttClient}
    (hnote : ∀ w : World, F.rel w
      (w.noteRetain client.willRetain client.willTopic client.willMessage))
    (hid : Within F (newPacketId client.session))
    (h : ∀ publish : MqttPublish, publish.topicName = client.willTopic →
      Within F (publishTopic (.entry false client.willTopic) publish)) (w : World) :
    F.rel (w.record (.will client)) (publishWillMessage client w).2 := by
  rw [publishWillMessage, modify_bind_apply]
  refine within_ite (within_bind (within_modify hnote) fun _ => ?_) (within_pure _) _
  refine within_tryCatch (within_topicsAt_bind ?_) fun _ => within_pure _
  refine within_bind hid fun id => ?_
  cases hp : mqttPublish false client.willQos client.willRetain client.willTopic id
    client.willMessage with
  | error what => exact within_throw what
  | ok publish =>
    have hpublish : Within F (do let _ ← publishTopic (.entry false client.willTopic) publish :
        Server Unit) :=
      within_bind (h publish (mqttPublish_eq_ok hp).2.2.2.1) fun _ => within_pure _
    exact hpublish

theorem within_publishWillMessage {client : MqttClient}
    (hrun : ∀ w : World, F.rel w (w.record (.will client)))
    (hnote : ∀ w : World, F.rel w
      (w.noteRetain client.willRetain client.willTopic client.willMessage))
    (hid : Within F (newPacketId client.session))
    (h : ∀ publish : MqttPublish, publish.topicName = client.willTopic →
      Within F (publishTopic (.entry false client.willTopic) publish)) :
    Within F (publishWillMessage client) := fun w =>
  F.trans (hrun w) (rel_publishWillMessage hnote hid h w)

/-- A message to retain is noted, or nothing is. -/
theorem rel_noteRetain {w : World} {topicName payload : Bytes}
    (h : ∀ known, F.rel w (w.record (.retain topicName payload known))) (retain : Bool) :
    F.rel w (w.noteRetain retain topicName payload) := by
  rw [World.noteRetain]
  split_ifs
  · exact h _
  · exact F.refl w

/-! ## Redelivery -/

/-- The messages that are written again are marked in the session. -/
theorem rel_redeliver {c : MqttClient}
    (hack : ∀ w : World, F.rel w (w.modifySession c.session fun s =>
      { s with publishForAck := s.publishForAck.map MqttPublish.setDup }))
    (hrec : ∀ w : World, F.rel w (w.modifySession c.session fun s =>
      { s with publishForRec := s.publishForRec.map MqttPublish.setDup }))
    (hwrite : ∀ (w : World) p, F.rel w (w.write c.channelId p)) (w : World) :
    F.rel w (w.redeliver c) := by
  have hall : ∀ (ps : List Packet) (w : World), F.rel w (w.writeAll c.channelId ps) := by
    intro ps
    induction ps with
    | nil => exact F.refl
    | cons p ps ih => exact fun w => F.trans (hwrite w p) (ih _)
  exact F.trans (hack w) (F.trans (hall _ _) (F.trans (hrec _) (F.trans (hall _ _) (hall _ _))))

/-! ## Subscriptions -/

/-- Subscriptions are given up one by one. -/
theorem rel_unsubscribeAll {c : MqttClient}
    (h : ∀ (w : World) (f : Bytes) (b : Bool), F.rel w (w.unsubscribe c f b)) (w : World) :
    F.rel w (w.unsubscribeAll c) := by
  rw [World.unsubscribeAll]
  generalize (w.session c.session).subscriptions.elems = subs
  induction subs generalizing w with
  | nil => exact F.refl w
  | cons sub subs ih => exact F.trans (h w _ _) (ih _)

/-- The subscriptions of a session are entered again one by one. -/
theorem rel_resubscribe {c : MqttClient} {w : World}
    (h : ∀ sub ∈ (w.session c.session).subscriptions, ∀ v : World,
      F.rel v (v.subscribe c sub.topicFilter sub.maxQos sub.isWild)) : F.rel w (w.resubscribe c) := by
  have hall : ∀ (subs : List Subscription) (v : World),
      (∀ sub ∈ subs, ∀ v : World, F.rel v (v.subscribe c sub.topicFilter sub.maxQos sub.isWild)) →
      F.rel v (subs.foldl
        (fun w sub => w.subscribe c sub.topicFilter sub.maxQos sub.isWild) v) := by
    intro subs
    induction subs with
    | nil => exact fun v _ => F.refl v
    | cons sub subs ih =>
      exact fun v hs => F.trans (hs sub List.mem_cons_self v)
        (ih _ fun sub' hsub' => hs sub' (List.mem_cons_of_mem _ hsub'))
  exact hall _ w h

/-! ## All publishing -/

/-- A frame of publishing to the clients satisfying `Q`: it allows what
    `mqtt_client::publish` does for these, the storing of retained messages and
    the record of them. No other client is published to from a state the frame
    tells anything about. -/
structure RecipientFrame (F : Frame World) (Q : MqttClient → Prop) : Prop where
  counter (s : SessionRef) (w : World) (next : UInt16) :
    F.rel w (w.modifySession s fun _ => { w.session s with nextPacketId := next })
  publish {client : MqttClient} (maxQos : Nat) (retained : Bool) (packet : MqttPublish) :
    Q client → Within F (client.publish maxQos retained packet)
  store (p : TopicPtr) (packet : MqttPublish) (w : World) : F.rel w (w.storeRetained p packet)
  note (retain : Bool) (topicName payload : Bytes) (w : World) :
    F.rel w (w.noteRetain retain topicName payload)
  subscriber {w : World} {p : TopicPtr} {s : Subscriber} :
    s ∈ w.subscribersAt p → Q s.client ∨ ∀ w', F.rel w w'
  holder {w : World} {k : ChannelId} {client : MqttClient} :
    w.param k = some client → Q client ∨ ∀ w', F.rel w w'

namespace RecipientFrame

variable {Q : MqttClient → Prop} (h : RecipientFrame F Q)

include h

theorem publishTopic (p : TopicPtr) (packet : MqttPublish) : Within F (publishTopic p packet) := by
  intro w
  by_cases hdead : ∀ w', F.rel w w'
  · exact hdead _
  · exact F.trans (h.store p packet w) (rel_publishTopic_of fun s hs =>
      h.publish s.maxQos false packet ((h.subscriber hs).resolve_right hdead))

theorem forwardPublish (it : Iteration) (packet : MqttPublish) :
    Within F (forwardPublish it packet) :=
  within_forwardPublish it (h.note _ _ _) (h.publishTopic _ _) (fun _ => h.publishTopic _ _)
    fun _ _ => h.publishTopic _ _

theorem publishRetained (p : TopicPtr) (k : ChannelId) (packet : MqttPublish) :
    Within F (publishRetained p k packet) := by
  intro w
  by_cases hdead : ∀ w', F.rel w w'
  · exact hdead _
  · exact rel_publishRetained fun client maxQos hc =>
      h.publish maxQos true packet ((h.holder hc).resolve_right hdead)

theorem publishRetainedMessage (it : Iteration) (k : ChannelId) (fs gs : List Bytes) :
    Within F (publishRetainedMessage it k fs gs) :=
  within_publishRetainedMessage_of it k fs gs fun _ _ _ m _ _ => .inl fun p =>
    h.publishRetained p k m

theorem publishWillMessage (client : MqttClient) (w : World) :
    F.rel (w.record (.will client)) (publishWillMessage client w).2 :=
  rel_publishWillMessage (h.note _ _ _) (within_newPacketId fun w next => h.counter _ w next)
    (fun _ _ => h.publishTopic _ _) w

end RecipientFrame

/-- A frame of all publishing: it allows what `mqtt_client::publish` does, the
    storing of retained messages, and the records of them and of wills. -/
structure PublishFrame (F : Frame World) : Prop where
  counter (s : SessionRef) (w : World) (next : UInt16) :
    F.rel w (w.modifySession s fun _ => { w.session s with nextPacketId := next })
  publish (client : MqttClient) (maxQos : Nat) (retained : Bool) (packet : MqttPublish) :
    Within F (client.publish maxQos retained packet)
  store (p : TopicPtr) (packet : MqttPublish) (w : World) : F.rel w (w.storeRetained p packet)
  note (retain : Bool) (topicName payload : Bytes) (w : World) :
    F.rel w (w.noteRetain retain topicName payload)
  noteWill (client : MqttClient) (w : World) : F.rel w (w.record (.will client))

namespace PublishFrame

variable (h : PublishFrame F)

include h

theorem recipientFrame : RecipientFrame F fun _ => True where
  counter := h.counter
  publish maxQos retained packet _ := h.publish _ maxQos retained packet
  store := h.store
  note := h.note
  subscriber _ := .inl trivial
  holder _ := .inl trivial

theorem forwardPublish (it : Iteration) (packet : MqttPublish) :
    Within F (forwardPublish it packet) := h.recipientFrame.forwardPublish it packet

theorem publishRetainedMessage (it : Iteration) (k : ChannelId) (fs gs : List Bytes) :
    Within F (publishRetainedMessage it k fs gs) :=
  h.recipientFrame.publishRetainedMessage it k fs gs

theorem publishWillMessage (client : MqttClient) : Within F (publishWillMessage client) := fun w =>
  F.trans (h.noteWill client w) (h.recipientFrame.publishWillMessage client w)

end PublishFrame

end MqttBroker
