import MqttBroker.Delivery.Outcomes

/-!
# Where messages come from

Nothing is made up: a PUBLISH that is written, filed in a session or retained
conveys a PUBLISH of a client, the will of an accepted CONNECT, or the name of a
message in a notice to `$sys/trash`, which was received before
(`messages_have_origins`). It has the name and the payload
of that, its QoS or a lower one, and it is marked as retained only if that was
to be retained.

What is conveyed is told by a property `P` of the PUBLISHes that are published,
and a property `Q` of what is made of them to be sent (`Passing`): `P` holds of what
is retained, and `Q` of what is filed and written (`World.Sourced`). Of the wills only
those count that can find their topic, whose names have a property `R`.
-/

namespace MqttBroker

open Prog

/-- The PUBLISH has the name and the payload, the QoS or a lower one, and is marked as
    retained only if `retain`. -/
structure MqttPublish.Conveys (p : MqttPublish) (qos : Nat) (retain : Bool)
    (topicName payload : Bytes) : Prop where
  topicName : p.topicName = topicName
  payload : p.payload = payload
  qos : p.qos ≤ qos
  retain : p.retain = true → retain = true

/-- The PUBLISH conveys another one. -/
def MqttPublish.Copies (p m : MqttPublish) : Prop :=
  p.Conveys m.qos m.retain m.topicName m.payload

/-- The PUBLISH conveys what the call `e` brings: a PUBLISH of a client, or its name in a
    notice, or the will of an accepted CONNECT. -/
def World.Supplies (cfg : Config) (w : World) (e : Event) (p : MqttPublish) : Prop :=
  (∃ m, e.packet = some (.publish m) ∧ (w.param e.action.channelId).isSome ∧
    (p.Copies m ∨ p.Conveys 1 false sysTrash m.topicName)) ∨
  ∃ j, w.joining cfg e = some j ∧ j.packet.willFlag = true ∧
    p.Conveys j.packet.willQos j.packet.willRetain j.packet.willTopic j.packet.willMessage

/-- The messages of a session without an answer. -/
def Session.filed (t : Session) : List MqttPublish := t.publishForAck ++ t.publishForRec

/-- The PUBLISHes that are retained have the property `P`, those that are filed or written
    `Q`, and the wills `P` if they are for one of the topics `R`. -/
structure World.Sourced (R : Bytes → Prop) (P Q : MqttPublish → Prop) (w : World) : Prop where
  retained {place m} : w.retainedIn place = some m → P m ∧ m.retain = true
  filed {s p} : p ∈ (w.session s).filed → Q p
  written {k p} : (k, .publish p) ∈ w.written → Q p
  will {k c p} : w.param k = some c → c.willFlag = true → R c.willTopic →
    p.Conveys c.willQos c.willRetain c.willTopic c.willMessage → P p
  trash : w.trashTopic.topicFilter = sysTrash

/-- What `mqtt_client::publish` makes of a PUBLISH with the property `P` has the property
    `Q`, also when it is sent again. -/
structure Passing (P Q : MqttPublish → Prop) : Prop where
  publish {m p : MqttPublish} {maxQos : Nat} {retained : Bool} {id : UInt16} : P m →
    (retained = true → m.retain = true) →
      mqttPublish false (min m.qos maxQos) retained m.topicName id m.payload = .ok p → Q p
  again {p : MqttPublish} : Q p → Q p.setDup

variable {R : Bytes → Prop} {P Q : MqttPublish → Prop} {cfg : Config} {w w' : World} {e : Event}
  {m p : MqttPublish} {l : List (World × Event)} {c : MqttClient}

theorem MqttPublish.Conveys.copies {qos : Nat} {retain : Bool} {topicName payload : Bytes}
    (h : m.Conveys qos retain topicName payload) (hp : p.Copies m) :
    p.Conveys qos retain topicName payload :=
  ⟨hp.topicName.trans h.topicName, hp.payload.trans h.payload, Nat.le_trans hp.qos h.qos,
    fun hr => h.retain (hp.retain hr)⟩

/-- A copy is supplied by what supplies the PUBLISH. -/
theorem World.Supplies.copies (h : w.Supplies cfg e m) (hp : p.Copies m) : w.Supplies cfg e p := by
  rcases h with ⟨q, hq, hsender, hcopies | hnotice⟩ | ⟨j, hj, hflag, hwill⟩
  · exact .inl ⟨q, hq, hsender, .inl (hcopies.copies hp)⟩
  · exact .inl ⟨q, hq, hsender, .inr (hnotice.copies hp)⟩
  · exact .inr ⟨j, hj, hflag, hwill.copies hp⟩

theorem copies_setDup (p : MqttPublish) : p.setDup.Copies p := ⟨rfl, rfl, Nat.le_refl _, id⟩

theorem passing_supplies (cfg : Config) (l : List (World × Event)) :
    Passing (fun p => ∃ x ∈ l, x.1.Supplies cfg x.2 p)
      (fun p => ∃ x ∈ l, x.1.Supplies cfg x.2 p) where
  publish {m p maxQos retained id} hm hretained hp := by
    obtain ⟨x, hx, hm⟩ := hm
    obtain ⟨-, hqos, hretain, htopic, hpayload, -⟩ := mqttPublish_eq_ok hp
    exact ⟨x, hx, hm.copies
      ⟨htopic, hpayload, hqos ▸ Nat.min_le_left _ _, fun hr => hretained (hretain ▸ hr)⟩⟩
  again {p} hp := by
    obtain ⟨x, hx, hp⟩ := hp
    exact ⟨x, hx, hp.copies (copies_setDup p)⟩

/-! ## The statements of a handler -/

/-- The frame of the steps that leave the PUBLISHes with their properties. -/
abbrev Sourcing (R : Bytes → Prop) (P Q : MqttPublish → Prop) : Frame World :=
  Frame.keeping (World.Sourced R P Q)

theorem sourcing_of_less
    (hretained : ∀ place m, w'.retainedIn place = some m → w.retainedIn place = some m)
    (hfiled : ∀ s p, p ∈ (w'.session s).filed → p ∈ (w.session s).filed)
    (hwritten : ∀ k p, (k, .publish p) ∈ w'.written → (k, .publish p) ∈ w.written)
    (hparam : ∀ k c, w'.param k = some c → w.param k = some c)
    (htrash : w'.trashTopic.topicFilter = w.trashTopic.topicFilter) : (Sourcing R P Q).rel w w' :=
  fun h => ⟨fun hm => h.retained (hretained _ _ hm), fun hp => h.filed (hfiled _ _ hp),
    fun hp => h.written (hwritten _ _ hp), fun hc => h.will (hparam _ _ hc), htrash.trans h.trash⟩

theorem sourcing_of_same (hretained : w'.retainedIn = w.retainedIn)
    (hsession : w'.session = w.session) (hwritten : w'.written = w.written)
    (hparam : w'.param = w.param) (htrash : w'.trashTopic.topicFilter = w.trashTopic.topicFilter) :
    (Sourcing R P Q).rel w w' :=
  sourcing_of_less (fun _ _ h => hretained ▸ h) (fun _ _ h => hsession ▸ h)
    (fun _ _ h => hwritten ▸ h) (fun _ _ h => hparam ▸ h) htrash

theorem sourcing_record (w : World) {e : Effect} (he : e.written = none) :
    (Sourcing R P Q).rel w (w.record e) :=
  sourcing_of_same (w.retainedIn_of_topics rfl rfl) rfl
    ((written_record w e).trans (by rw [he]; exact List.append_nil _)) rfl rfl

/-- A packet is written. -/
theorem sourcing_write (w : World) (k : ChannelId) {p : Packet} (hp : ∀ m, p = .publish m → Q m) :
    (Sourcing R P Q).rel w (w.write k p) := by
  refine fun h => ⟨fun hm => h.retained (w.retainedIn_of_topics rfl rfl ▸ hm), h.filed,
    fun {k' m} hm => ?_, h.will, h.trash⟩
  rw [World.write, written_record, List.mem_append] at hm
  rcases hm with hm | hm
  · exact h.written hm
  · obtain ⟨-, heq⟩ := Prod.mk.inj (List.mem_singleton.1 hm)
    exact hp m heq.symm

/-- The messages of a session are changed. -/
theorem sourcing_modifySession (w : World) (s : SessionRef) {f : Session → Session}
    (hf : ∀ p ∈ (f (w.session s)).filed, (∀ q ∈ (w.session s).filed, Q q) → Q p) :
    (Sourcing R P Q).rel w (w.modifySession s f) := by
  refine fun h => ⟨fun hm => h.retained (w.retainedIn_of_topics rfl rfl ▸ hm), fun {s' p} hp => ?_,
    h.written, h.will, h.trash⟩
  rw [World.session_modifySession] at hp
  split_ifs at hp with hs
  · exact hf p hp fun q hq => h.filed hq
  · exact h.filed hp

/-- A change of a session that files no message. -/
theorem sourcing_session_less (w : World) (s : SessionRef) {f : Session → Session}
    (hf : (f (w.session s)).filed ⊆ (w.session s).filed) :
    (Sourcing R P Q).rel w (w.modifySession s f) :=
  sourcing_modifySession w s fun p hp h => h p (hf hp)

theorem sourcing_counter (s : SessionRef) (w : World) (next : UInt16) :
    (Sourcing R P Q).rel w (w.modifySession s fun _ => { w.session s with nextPacketId := next }) :=
  sourcing_session_less w s (List.Subset.refl _)

theorem sourcing_address (w : World) (c : MqttClient) (hp : Q p) :
    (Sourcing R P Q).rel w (w.address c p) := by
  refine Frame.trans _ (sourcing_record w rfl) (sourcing_modifySession _ _ fun q hq h => ?_)
  have hcases : q = p ∨ q ∈ (w.session c.session).filed := by
    split_ifs at hq
    all_goals
      simp only [Session.filed, Session.addPublishForAck, Session.addPublishForRec, World.record,
        List.mem_append, List.mem_singleton] at hq ⊢
      tauto
  rcases hcases with rfl | hq
  · exact hp
  · exact h q hq

/-- `mqtt_client::publish` passes the message on. -/
theorem sourcing_publish (hPQ : Passing P Q) (hm : P m) (c : MqttClient) (maxQos : Nat)
    {retained : Bool} (hretained : retained = true → m.retain = true) :
    Within (Sourcing R P Q) (c.publish maxQos retained m) := by
  intro w
  rcases publish_cases c maxQos retained m w with ⟨next, heq | ⟨id, p, -, -, hp, heq⟩⟩
  · rw [heq]
    exact sourcing_counter _ w next
  · have hp : Q p := hPQ.publish hm hretained hp
    rw [heq]
    refine Frame.trans _ (sourcing_counter _ w next) (Frame.trans _ (sourcing_address _ c hp)
      (sourcing_write _ _ fun q hq => ?_))
    obtain rfl := Packet.publish.inj hq
    exact hp

theorem sourcing_storeRetained (w : World) (place : TopicPtr) (hm : P m) :
    (Sourcing R P Q).rel w (w.storeRetained place m) := by
  have heq := w.storeRetained_eq place m
  refine fun h => ⟨fun {place' m'} hm' => ?_, fun hp => ?_, fun hp => ?_, fun hc => ?_, ?_⟩
  · rw [World.retainedIn_storeRetained] at hm'
    split_ifs at hm' with hstored hempty
    · cases hm'
      exact ⟨hm, hstored.1⟩
    · exact h.retained hm'
  · rw [heq] at hp
    exact h.filed hp
  · rw [heq] at hp
    exact h.written hp
  · rw [heq] at hc
    exact h.will hc
  · exact (w.trashTopic_storeRetained place m).trans h.trash

theorem sourcing_publishTopic (hPQ : Passing P Q) (hm : P m) (place : TopicPtr) :
    Within (Sourcing R P Q) (publishTopic place m) :=
  within_publishTopic (fun w => sourcing_storeRetained w place hm) fun c maxQos =>
    sourcing_publish hPQ hm c maxQos fun hr => absurd hr Bool.false_ne_true

theorem sourcing_noteRetain (w : World) (retain : Bool) (topicName payload : Bytes) :
    (Sourcing R P Q).rel w (w.noteRetain retain topicName payload) :=
  rel_noteRetain (fun _ => sourcing_record w rfl) retain

/-- A notice tells the name of the message. -/
theorem sourcing_publishTrash (hPQ : Passing P Q)
    (hnotice : ∀ p : MqttPublish, p.Conveys 1 false sysTrash m.topicName → P p) :
    Within (Sourcing R P Q) (publishTrash m) := by
  intro w h
  rw [publishTrash, get_bind_apply]
  cases hp : mqttPublish false 1 false w.trashTopic.topicFilter 0xffff m.topicName with
  | error what => exact h
  | ok p =>
    obtain ⟨-, hqos, hretain, htopic, hpayload, -⟩ := mqttPublish_eq_ok hp
    have hp : P p := hnotice p ⟨htopic.trans h.trash, hpayload, Nat.le_of_eq hqos,
      fun hr => hretain ▸ hr⟩
    exact within_bind (sourcing_publishTopic hPQ hp .trash) (fun _ => within_pure _) w h

theorem sourcing_forwardPublish (hPQ : Passing P Q) (hm : P m)
    (hnotice : ∀ p : MqttPublish, p.Conveys 1 false sysTrash m.topicName → P p) (it : Iteration) :
    Within (Sourcing R P Q) (forwardPublish it m) := by
  refine within_bind (within_modify fun w => sourcing_noteRetain w _ _ _) fun _ =>
    within_bind (within_tryCatch (within_topicsAt_bind (sourcing_publishTopic hPQ hm _)) fun _ =>
      within_pure _) fun sent => within_bind within_get fun w => within_bind
        (within_publishWild (fun f => sourcing_publishTopic hPQ hm _) _ _) fun _ => ?_
  exact within_ite (sourcing_publishTrash hPQ hnotice) (within_pure _)

/-- The retained messages are passed on, and marked as such. -/
theorem sourcing_publishRetainedMessage (hPQ : Passing P Q) (it : Iteration) (k : ChannelId)
    (fs gs : List Bytes) : Within (Sourcing R P Q) (publishRetainedMessage it k fs gs) := by
  refine within_publishRetainedMessage it k fs gs fun w f t m ht hm => ?_
  by_cases h : w.Sourced R P Q
  · have hretained : w.retainedIn (.entry false f) = some m :=
      Option.bind_eq_some_iff.2 ⟨t, ht, hm⟩
    obtain ⟨hm, hretain⟩ := h.retained hretained
    exact .inl fun c maxQos => sourcing_publish hPQ hm c maxQos fun _ => hretain
  · exact .inr fun w' hw => absurd hw h

/-- A will is published if its topic is there. -/
theorem sourcing_publishWillMessage (hPQ : Passing P Q) {k : ChannelId} (hc : w.param k = some c)
    (hR : ∀ f, (w.topicAt (.entry false f)).isSome → R f) :
    (Sourcing R P Q).rel w (publishWillMessage c w).2 := by
  intro h
  have hrun : (w.record (.will c)).Sourced R P Q := sourcing_record w rfl h
  rw [publishWillMessage, modify_bind_apply]
  split_ifs with hflag
  · have hnoted := sourcing_noteRetain _ c.willRetain c.willTopic c.willMessage hrun
    rw [← World.noteWill] at hnoted
    have htopicAt : (w.noteWill c).topicAt = w.topicAt := by
      rw [World.noteWill_eq]
      rfl
    rw [modify_bind_apply, ← World.noteWill, tryCatch_topicsAt_apply, htopicAt]
    split_ifs with htopic
    · refine within_tryCatch (F := Sourcing R P Q) (within_bind
        (within_newPacketId (sourcing_counter c.session)) fun id => ?_) (fun _ => within_pure _) _
        hnoted
      cases hp : mqttPublish false c.willQos c.willRetain c.willTopic id c.willMessage with
      | error what => exact within_throw what
      | ok p =>
        obtain ⟨-, hqos, hretain, htopicName, hpayload, -⟩ := mqttPublish_eq_ok hp
        have hp : P p := h.will hc hflag (hR _ htopic)
          ⟨htopicName, hpayload, Nat.le_of_eq hqos, fun hr => hretain ▸ hr⟩
        exact fun w => within_bind (sourcing_publishTopic hPQ hp _) (fun _ => within_pure _) w
    · exact hnoted
  · exact hrun

theorem sourcing_stepFrame (hPQ : Passing P Q)
    (hR : ∀ f, (w.topicAt (.entry false f)).isSome → R f)
    (hnew : ∀ m, e.packet = some (.publish m) → (w.param e.action.channelId).isSome →
      P m ∧ ∀ p : MqttPublish, p.Conveys 1 false sysTrash m.topicName → P p) :
    StepFrame (Sourcing R P Q) w e where
  channels {w w'} h hparam _ := by
    refine sourcing_of_same (w.retainedIn_of_topics ?_ ?_) ?_ ?_ hparam ?_ <;> rw [h]
    rfl
  answer _ _ hp := sourcing_write _ _ fun m hm => absurd hm (hp m)
  refuse w _ _ := sourcing_write w _ fun _ hm => Packet.noConfusion hm
  retained it fs gs := sourcing_publishRetainedMessage hPQ it _ fs gs
  forward {c m} hc hp _ := by
    obtain ⟨hm, hnotice⟩ := hnew m hp (by rw [hc]; rfl)
    exact sourcing_forwardPublish hPQ hm hnotice _
  will _ hc hrun := by
    have hrel := sourcing_publishWillMessage hPQ hc hR
    rwa [hrun] at hrel
  subscribe {w c entry} _ _ _ _ := by
    refine Frame.trans _ (sourcing_of_same (w.retainedIn_subscribe c _ _ _) ?_ ?_ ?_ ?_)
      (sourcing_session_less (w.subscribe c entry.topicFilter entry.maxQos entry.isWild) _
        (List.Subset.refl _)) <;> rw [World.subscribe_eq] <;> rfl
  subscribeTrash _ _ := sourcing_of_same (funext fun place => by cases place <;> rfl) rfl rfl rfl rfl
  unsubscribe {w c entry} _ _ := by
    rw [World.unsubscribeEntry]
    split
    · exact Frame.refl _ w
    · refine Frame.trans _ (sourcing_of_same (w.retainedIn_unsubscribe c _ _) ?_ ?_ ?_ ?_)
        (sourcing_session_less (w.unsubscribe c entry.topicFilter entry.isWild) _
          (List.Subset.refl _)) <;> rw [World.unsubscribe_eq] <;> rfl
  leave {w c} _ := by
    refine sourcing_of_less (fun f m hm => ?_) (fun s p hp => ?_) (fun k p hp => ?_)
      (fun k' c' hc => ?_) ?_
    · rw [World.retainedIn_remove] at hm
      exact (World.retainedIn_of_topics _ rfl rfl ▸ hm)
    · rw [World.remove_eq] at hp
      exact hp
    · rw [World.remove_eq] at hp
      exact hp
    · rw [World.param_remove, World.param_setParam_none, Function.update_apply] at hc
      split_ifs at hc
      exact hc
    · rw [World.remove_eq]
      rfl

/-! ## The beginning of a step -/

theorem sourcing_served (w : World) (k : ChannelId) (c : MqttClient) (p : Packet) :
    (Sourcing R P Q).rel w (w.served k c p) := by
  have hrecord : (Sourcing R P Q).rel w (w.record (.handled c p)) := sourcing_record w rfl
  have hsession : ∀ f : Session → Session, (∀ t, (f t).filed ⊆ t.filed) →
      (Sourcing R P Q).rel w ((w.record (.handled c p)).modifySession c.session f) :=
    fun f hf => Frame.trans _ hrecord (sourcing_session_less _ _ (hf _))
  cases p with
  | publish m =>
    have hreceive : ∀ v : World, (Sourcing R P Q).rel v (v.receivePublish k c m) := by
      intro v
      rw [World.receivePublish]
      split_ifs
      · exact sourcing_write v k fun _ h => Packet.noConfusion h
      · exact Frame.trans _ (sourcing_session_less v _ (List.Subset.refl _))
          (sourcing_write _ k fun _ h => Packet.noConfusion h)
      · exact Frame.refl _ v
    exact Frame.trans _ hrecord (hreceive _)
  | puback a =>
    exact hsession (fun t => t.releasePublishForAck a.packetId) fun t =>
      (List.eraseP_sublist.append (List.Sublist.refl _)).subset
  | pubrec a =>
    exact hsession
      (fun t => (t.releasePublishForRec a.packetId).addPacketIdForPubcomp a.packetId) fun t =>
        ((List.Sublist.refl _).append List.eraseP_sublist).subset
  | pubrel a =>
    exact hsession (fun t => t.releasePacketIdForPubrel a.packetId) fun t => List.Subset.refl _
  | pubcomp a =>
    exact hsession (fun t => t.releasePacketIdForPubcomp a.packetId) fun t => List.Subset.refl _
  | connect | connack | suback | unsuback | pingresp => exact Frame.refl _ w
  | _ => exact hrecord

theorem sourcing_greet (w : World) (k : ChannelId) (packet : MqttConnect) :
    (Sourcing R P Q).rel w (w.greet cfg k packet) := by
  obtain ⟨htopics, htrash⟩ := w.topics_greet k cfg packet
  refine sourcing_of_same (w.retainedIn_of_topics htopics htrash) (w.session_greet k cfg packet) ?_
    (w.param_greet k cfg packet) (by rw [htrash])
  rw [World.written, w.log_greet]
  rfl

/-- What is sent again with a resumed session was filed in it. -/
theorem sourced_of_mem_welcome (hPQ : Passing P Q) (h : w.Sourced R P Q) {j : Joining}
    (hp : .publish p ∈ w.welcome j) : Q p := by
  rw [World.welcome] at hp
  cases hs : w.storedSession j with
  | none => simp [hs] at hp
  | some s =>
    have hq : ∃ q ∈ (w.session s).filed, q.setDup = p := by
      simp only [hs, List.mem_cons, List.mem_append, List.mem_map, Packet.publish.injEq,
        reduceCtorEq, false_or, and_false, exists_false, or_false] at hp
      rcases hp with ⟨q, hq, rfl⟩ | ⟨q, hq, rfl⟩
      · exact ⟨q, List.mem_append_left _ hq, rfl⟩
      · exact ⟨q, List.mem_append_right _ hq, rfl⟩
    obtain ⟨q, hq, rfl⟩ := hq
    exact hPQ.again (h.filed hq)

/-- An accepted CONNECT brings its will. -/
theorem sourced_joined (cfg : Config) (hPQ : Passing P Q) (h : w.Sourced R P Q) (j : Joining)
    (hk : (w.contexts j.channelId).isSome)
    (hwill : j.packet.willFlag = true → R j.packet.willTopic → ∀ p : MqttPublish,
      p.Conveys j.packet.willQos j.packet.willRetain j.packet.willTopic j.packet.willMessage → P p) :
    (w.joined cfg j).Sourced R P Q := by
  have hwritten := written_joined cfg w j hk
  obtain ⟨r, sessionPresent, v, -, hparam, -, ⟨htopics, htrash⟩, hcases⟩ := joined_cases cfg w j hk
  have hretained : v.retainedIn = w.retainedIn := w.retainedIn_of_topics htopics htrash
  have hsame : (w.joined cfg j).retainedIn = w.retainedIn ∧ (w.joined cfg j).param = v.param ∧
      (w.joined cfg j).trashTopic = w.trashTopic := by
    rcases hcases with ⟨-, -, -, hw⟩ | ⟨-, -, -, hw⟩
    · have hresub := v.retainedIn_resubscribe ((j.client w).setSessionPtr r)
      rw [hretained] at hresub
      rw [hw, World.redeliver_eq]
      refine ⟨(World.retainedIn_of_topics _ rfl rfl).trans hresub, ?_, ?_⟩ <;>
        rw [World.resubscribe_eq]
      · rfl
      · exact htrash
    · rw [hw]
      exact ⟨hretained, rfl, htrash⟩
  refine ⟨fun hm => h.retained (hsame.1 ▸ hm), fun {s p} hp => ?_, fun {k p} hp => ?_,
    fun {k c p} hc hflag hr hp => ?_, by rw [hsame.2.2]; exact h.trash⟩
  · rcases hcases with ⟨-, -, hsession, hw⟩ | ⟨-, -, hsession, hw⟩
    · rw [hw, session_redeliver, World.session_resubscribe, hsession, Function.update_apply] at hp
      split_ifs at hp
      · rw [Session.filed, ← List.map_append] at hp
        obtain ⟨q, hq, rfl⟩ := List.mem_map.1 hp
        exact hPQ.again (h.filed hq)
      · exact h.filed hp
    · rw [hw, hsession, Function.update_apply] at hp
      split_ifs at hp
      · exact absurd hp List.not_mem_nil
      · exact h.filed hp
  · rw [hwritten, List.mem_append, List.mem_map] at hp
    rcases hp with hp | ⟨q, hq, heq⟩
    · exact h.written hp
    · obtain ⟨-, rfl⟩ := Prod.mk.inj heq
      exact sourced_of_mem_welcome hPQ h hq
  · rw [hsame.2.1] at hc
    rcases hparam k c hc with ⟨-, rfl⟩ | hc
    · exact hwill hflag hr p hp
    · exact h.will hc hflag hr hp

/-! ## Steps and runs -/

theorem sourced_start : World.start.Sourced R P Q where
  retained {place _} h := by cases place <;> cases h
  filed h := absurd h List.not_mem_nil
  written h := absurd h List.not_mem_nil
  will h := by cases h
  trash := rfl

/-- A step keeps the properties, if what it brings has them. -/
theorem sourced_step (hPQ : Passing P Q) (hst : (broker cfg).step w e = some w')
    (hR : ∀ f, (w.topicAt (.entry false f)).isSome → R f)
    (hnew : ∀ m, e.packet = some (.publish m) → (w.param e.action.channelId).isSome →
      P m ∧ ∀ p : MqttPublish, p.Conveys 1 false sysTrash m.topicName → P p)
    (hwill : ∀ j, w.joining cfg e = some j → j.packet.willFlag = true → R j.packet.willTopic →
      ∀ p : MqttPublish, p.Conveys j.packet.willQos j.packet.willRetain j.packet.willTopic
        j.packet.willMessage → P p)
    (h : w.Sourced R P Q) : w'.Sourced R P Q := by
  refine (sourcing_stepFrame hPQ hR hnew).step hst ?_
  rcases received_cases cfg w e with
    ⟨j, hj, hw⟩ | ⟨-, ⟨packet, -, hw⟩ | ⟨c, p, -, -, -, hw⟩ | hw⟩ <;> rw [hw]
  · exact sourced_joined cfg hPQ h j (isSome_contexts_of_joining hst hj) (hwill j hj)
  · exact sourcing_greet w _ packet h
  · exact sourcing_served w _ c p h
  · exact h

theorem sourced_run (h : (broker cfg).Run l w) :
    w.Sourced (fun _ => True) (fun p => ∃ x ∈ l, x.1.Supplies cfg x.2 p)
      fun p => ∃ x ∈ l, x.1.Supplies cfg x.2 p := by
  induction h with
  | init => exact sourced_start
  | @step l w w' e h hst ih =>
    have hlast : ∀ p, w.Supplies cfg e p → ∃ x ∈ l ++ [(w, e)], x.1.Supplies cfg x.2 p :=
      fun p hp => ⟨(w, e), List.mem_append_right _ (List.mem_singleton_self _), hp⟩
    have hmore : ∀ p, (∃ x ∈ l, x.1.Supplies cfg x.2 p) →
        ∃ x ∈ l ++ [(w, e)], x.1.Supplies cfg x.2 p :=
      fun p ⟨x, hx, hp⟩ => ⟨x, List.mem_append_left _ hx, hp⟩
    refine sourced_step (passing_supplies cfg _) hst (fun _ _ => trivial) (fun m hp hsender => ?_)
      (fun j hj hflag _ p hp => hlast p (.inr ⟨j, hj, hflag, hp⟩)) ?_
    · exact ⟨hlast m (.inl ⟨m, hp, hsender, .inl ⟨rfl, rfl, Nat.le_refl _, id⟩⟩),
        fun p hnotice => hlast p (.inl ⟨m, hp, hsender, .inr hnotice⟩)⟩
    · exact ⟨fun hm => (ih.retained hm).imp_left (hmore _), fun hp => hmore _ (ih.filed hp),
        fun hp => hmore _ (ih.written hp),
        fun hc hflag hr hp => hmore _ (ih.will hc hflag hr hp), ih.trash⟩

/-- Every PUBLISH that is written or filed, and every message that a topic of any of the
    tables retains, conveys a message that a call of the run brought. -/
theorem messages_have_origins (h : (broker cfg).Run l w) :
    (∀ k p, (k, .publish p) ∈ w.written → ∃ x ∈ l, x.1.Supplies cfg x.2 p) ∧
    (∀ s, ∀ p ∈ (w.session s).filed, ∃ x ∈ l, x.1.Supplies cfg x.2 p) ∧
    ∀ place m, w.retainedIn place = some m → m.retain = true ∧ ∃ x ∈ l, x.1.Supplies cfg x.2 m :=
  have hsourced := sourced_run h
  ⟨fun _ _ hp => hsourced.written hp, fun _ _ hp => hsourced.filed hp,
    fun _ _ hm => (hsourced.retained hm).symm⟩

/-- A client is sent a message of QoS 2 with QoS 1, and the wild topic that it came to
    retains it. -/
theorem messages_have_origins_publish : ∃ l w p m, (broker mqttdCfg).Run l w ∧
    (1, .publish p) ∈ w.written ∧ p.qos = 1 ∧ (∃ x ∈ l, x.1.Supplies mqttdCfg x.2 p) ∧
    w.retainedIn (.entry true [plus]) = some m ∧ m.retain = true ∧
      ∃ x ∈ l, x.1.Supplies mqttdCfg x.2 m := by
  have hruns : runs (fun _ _ => true) [.accept 1, .accept 2, .read 1 (connectBytes 0x02 [0x61] []),
      .read 2 (connectBytes 0x02 [0x62] []), .read 1 (subscribeBytes [plus] 1),
      .read 2 (publishBytes 5 [0x74] [0x00, 0x07] [0x68])]
      (fun w => (w.retainedIn (.entry true [plus])).isSome && w.written.any fun x => x.1 = 1 &&
        x.2.toPublish.any fun p => p.qos = 1) = true := by
    decide +kernel
  obtain ⟨l, w, hl, -, hrun⟩ := exists_run hruns
  obtain ⟨hretained, hrun⟩ := Bool.and_eq_true_iff.1 hrun
  obtain ⟨m, hm⟩ := Option.isSome_iff_exists.1 hretained
  obtain ⟨⟨k, q⟩, hq, hrun⟩ := List.any_eq_true.1 hrun
  obtain ⟨hk, hrun⟩ := Bool.and_eq_true_iff.1 hrun
  obtain ⟨p, hp, hqos⟩ := Option.any_eq_true _ _ |>.1 hrun
  obtain rfl : k = 1 := of_decide_eq_true hk
  obtain rfl : q = .publish p := by
    cases q with
    | publish p' => rw [← Option.some.inj hp]
    | _ => cases hp
  obtain ⟨hwritten, -, hretained⟩ := messages_have_origins hl
  exact ⟨l, w, p, m, hl, hq, of_decide_eq_true hqos, hwritten _ _ hq, hm, hretained _ _ hm⟩

end MqttBroker
