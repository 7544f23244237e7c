import MqttBroker.Server.Joining

/-!
# What a step does

A step begins with what its handler does on its own account
(`World.received`): the record of the packet, the lists of the session it is
about, or an accepted CONNECT as a whole. What follows is made of a few
operations, for the client at the channel: publishing, subscribing and
unsubscribing, leaving, answers, and changes of the channels. A frame that
allows these, for the step in question, contains the rest of the step
(`StepFrame.step`, and `EventFrame.step` where nobody connects); one that allows
them whenever they are made contains the rest of every step
(`HandlerFrame.step`).
-/

namespace MqttBroker

open Prog

/-! ## The beginning of a step -/

/-- What a handler does with the packet of the client `c`, before it answers and
    publishes. -/
def World.served (w : World) (k : ChannelId) (c : MqttClient) (p : Packet) : World :=
  let v := w.record (.handled c p)
  match p with
  | .publish p => v.receivePublish k c p
  | .puback p => v.modifySession c.session fun s => s.releasePublishForAck p.packetId
  | .pubrec p => v.modifySession c.session fun s =>
      (s.releasePublishForRec p.packetId).addPacketIdForPubcomp p.packetId
  | .pubrel p => v.modifySession c.session fun s => s.releasePacketIdForPubrel p.packetId
  | .pubcomp p => v.modifySession c.session fun s => s.releasePacketIdForPubcomp p.packetId
  | .subscribe _ | .unsubscribe _ | .pingreq _ | .disconnect _ => v
  | .connect _ | .connack _ | .suback _ | .unsuback _ | .pingresp _ => w

/-- What the packet does to the session of the client. -/
def Session.served (s : Session) : Packet → Session
  | .publish p => if p.qos = 2 then s.addPacketIdForPubrel p.packetId else s
  | .puback p => s.releasePublishForAck p.packetId
  | .pubrec p => (s.releasePublishForRec p.packetId).addPacketIdForPubcomp p.packetId
  | .pubrel p => s.releasePacketIdForPubrel p.packetId
  | .pubcomp p => s.releasePacketIdForPubcomp p.packetId
  | _ => s

theorem World.session_served (w : World) (k : ChannelId) (c : MqttClient) (p : Packet) :
    (w.served k c p).session =
      Function.update w.session c.session ((w.session c.session).served p) := by
  cases p with
  | publish p =>
    have h : ∀ v : World, v.session = w.session → (v.receivePublish k c p).session =
        Function.update w.session c.session ((w.session c.session).served (.publish p)) := by
      intro v hv
      rw [World.receivePublish, Session.served]
      split_ifs with h1 h2 h2
      · omega
      · exact hv.trans (Function.update_eq_self _ _).symm
      · rw [← hv]
        rfl
      · exact hv.trans (Function.update_eq_self _ _).symm
    exact h _ rfl
  | puback | pubrec | pubrel | pubcomp => rfl
  | _ => exact (Function.update_eq_self _ _).symm

/-- A packet that a client is served with leaves the subscriptions of the sessions. -/
theorem World.subscriptions_served (w : World) (k : ChannelId) (c : MqttClient) (p : Packet)
    (s : SessionRef) :
    ((w.served k c p).session s).subscriptions = (w.session s).subscriptions := by
  rw [w.session_served, Function.update_apply]
  split_ifs with hs
  · rw [hs]
    cases p with
    | publish m =>
      rw [Session.served]
      split_ifs <;> rfl
    | _ => rfl
  · rfl

/-- What a client is served with is no business of the tables. -/
theorem served_eq (w : World) (k : ChannelId) (c : MqttClient) (p : Packet) :
    w.served k c p = { w with session := (w.served k c p).session, log := (w.served k c p).log } := by
  cases p with
  | publish m =>
    rw [World.served, World.receivePublish]
    split_ifs <;> rfl
  | _ => rfl

/-- What the packet adds to the history, for what does not depend on answers. -/
theorem World.foldl_log_served {β : Type} {g : β → Effect → β}
    (hwrite : ∀ b k h p, g b (.write k h p) = b) (w : World) (k : ChannelId) (c : MqttClient)
    (p : Packet) (b : β) : (w.served k c p).log.foldl g b =
      match p with
      | .connect _ | .connack _ | .suback _ | .unsuback _ | .pingresp _ => w.log.foldl g b
      | _ => g (w.log.foldl g b) (.handled c p) := by
  have happend : ∀ (l : List Effect) (e : Effect), (l ++ [e]).foldl g b = g (l.foldl g b) e :=
    fun l e => List.foldl_append
  cases p with
  | publish p =>
    have h : ∀ v : World, (v.receivePublish k c p).log.foldl g b = v.log.foldl g b := by
      intro v
      rw [World.receivePublish]
      split_ifs
      · exact (happend _ _).trans (hwrite _ _ _ _)
      · exact (happend _ _).trans (hwrite _ _ _ _)
      · rfl
    exact (h _).trans (happend _ _)
  | connect | connack | suback | unsuback | pingresp => rfl
  | _ => exact happend _ _

/-- The state after the beginning of a step that brings a packet, but no accepted
    CONNECT. -/
def World.receivedPacket (cfg : Config) (w : World) (k : ChannelId) (p : Packet) : World :=
  match p with
  | .connect packet => w.greet cfg k packet
  | p => (w.param k).elim w fun c => w.served k c p

/-- The state after the beginning of a step. -/
def World.received (cfg : Config) (w : World) (e : Event) : World :=
  match w.joining cfg e with
  | some j => w.joined cfg j
  | none => e.packet.elim w fun p => w.receivedPacket cfg e.action.channelId p

theorem receivedPacket_eq_served (cfg : Config) (w : World) (k : ChannelId) {p : Packet}
    (hconnect : ∀ packet, p ≠ .connect packet) :
    w.receivedPacket cfg k p = (w.param k).elim w fun c => w.served k c p := by
  rw [World.receivedPacket]
  exact hconnect

/-- A step that brings another packet than a CONNECT has no accepted CONNECT. -/
theorem joining_eq_none (cfg : Config) (w : World) {e : Event} {p : Packet}
    (hp : e.packet = some p) (hconnect : ∀ packet, p ≠ .connect packet) :
    w.joining cfg e = none := by
  cases hj : w.joining cfg e with
  | none => rfl
  | some j => exact absurd (Option.some.inj (hp.symm.trans (joining_eq_some hj).1)) (hconnect _)

/-- The client at a channel is served. -/
theorem received_eq_served (cfg : Config) {w : World} {e : Event} {c : MqttClient} {p : Packet}
    (hp : e.packet = some p) (hc : w.param e.action.channelId = some c)
    (hconnect : ∀ packet, p ≠ .connect packet) :
    w.received cfg e = w.served e.action.channelId c p := by
  have hserved := receivedPacket_eq_served cfg w e.action.channelId hconnect
  rw [hc] at hserved
  rw [World.received, joining_eq_none cfg w hp hconnect, hp]
  exact hserved

/-- A step begins in one of four ways: with an accepted CONNECT, with another
    one, with a packet of the client at the channel, or with nothing. -/
theorem received_cases (cfg : Config) (w : World) (e : Event) :
    (∃ j, w.joining cfg e = some j ∧ w.received cfg e = w.joined cfg j) ∨
    w.joining cfg e = none ∧
      ((∃ packet, e.packet = some (.connect packet) ∧
        w.received cfg e = w.greet cfg e.action.channelId packet) ∨
      (∃ c p, e.packet = some p ∧ w.param e.action.channelId = some c ∧
        (∀ packet, p ≠ .connect packet) ∧ w.received cfg e = w.served e.action.channelId c p) ∨
      w.received cfg e = w) := by
  rw [World.received]
  cases w.joining cfg e with
  | some j => exact .inl ⟨j, rfl, rfl⟩
  | none =>
    refine .inr ⟨rfl, ?_⟩
    cases e.packet with
    | none => exact .inr (.inr rfl)
    | some p =>
      by_cases hconnect : ∃ packet, p = .connect packet
      · obtain ⟨packet, rfl⟩ := hconnect
        exact .inl ⟨packet, rfl, rfl⟩
      · have hne : ∀ packet, p ≠ .connect packet := fun packet h => hconnect ⟨packet, h⟩
        have hserved := receivedPacket_eq_served cfg w e.action.channelId hne
        cases hc : w.param e.action.channelId with
        | none =>
          rw [hc] at hserved
          exact .inr (.inr hserved)
        | some c =>
          rw [hc] at hserved
          exact .inr (.inl ⟨c, p, rfl, rfl, hne, hserved⟩)

/-- The client at a channel subscribes, and its session has the subscription. -/
def World.subscribeEntry (w : World) (c : MqttClient) (entry : SubscribeEntry) : World :=
  (w.subscribe c entry.topicFilter entry.maxQos entry.isWild).modifySession c.session fun s =>
    s.addSubscription entry.topicFilter entry.maxQos entry.isWild

/-! ## Channels -/

/-- The channels are as before. -/
def Still : Frame World where
  rel w w' := w'.contexts = w.contexts
  refl _ := rfl
  trans h₁ h₂ := h₂.trans h₁

theorem still_param {w w' : World} (h : Still.rel w w') : w'.param = w.param := by
  funext k
  rw [World.param, h, World.param]

theorem still_publishFrame : PublishFrame Still where
  counter _ _ _ := rfl
  publish _ maxQos retained _ :=
    within_publish (fun _ _ => rfl) (fun _ _ => rfl) (fun _ _ _ => rfl) maxQos retained
  store p packet w := by
    show (w.storeRetained p packet).contexts = w.contexts
    rw [World.storeRetained_eq]
  note retain topicName payload w := by
    show (w.noteRetain retain topicName payload).contexts = w.contexts
    rw [World.noteRetain_eq]
  noteWill _ _ := rfl

/-- The subscribers are as before. -/
def SubscribersKept : Frame World where
  rel w w' := w'.subscribersAt = w.subscribersAt
  refl _ := rfl
  trans h₁ h₂ := h₂.trans h₁

theorem subscribersKept_publishFrame : PublishFrame SubscribersKept where
  counter _ _ _ := funext fun p => by cases p <;> rfl
  noteWill _ _ := funext fun p => by cases p <;> rfl
  publish _ maxQos retained _ := within_publish (fun _ _ => funext fun p => by cases p <;> rfl)
    (fun _ _ => funext fun p => by cases p <;> rfl) (fun _ _ _ => funext fun p => by cases p <;> rfl)
    maxQos retained
  store p m w := funext fun p' => w.subscribersAt_storeRetained p m p'
  note retain topicName payload w := by
    refine funext fun p => ?_
    rw [World.noteRetain_eq]
    cases p <;> rfl

/-- A frame, as far as the client `c` is at the channel `k`. -/
def Serving (F : Frame World) (k : ChannelId) (c : MqttClient) : Frame World where
  rel w w' := w'.param = w.param ∧ (w.param k = some c → F.rel w w')
  refl w := ⟨rfl, fun _ => F.refl w⟩
  trans h₁ h₂ := ⟨h₂.1.trans h₁.1, fun h => F.trans (h₁.2 h) (h₂.2 (h₁.1 ▸ h))⟩

/-! ## The rest of a step -/

/-- A frame of what is done in the step from `w` on the event `e`, apart from its
    beginning: for the client at the channel of the event, from any state in
    which it still is there, or from `w` itself. -/
structure StepFrame (F : Frame World) (w : World) (e : Event) : Prop where
  channels {v v' : World} : v' = { v with contexts := v'.contexts } → v'.param = v.param →
    (∀ k ≠ e.action.channelId, v'.contexts k = v.contexts k) → F.rel v v'
  answer {v : World} {c : MqttClient} {k : ChannelId} {p : Packet} :
    v.param e.action.channelId = some c → k = e.action.channelId ∨ k = c.channelId →
      (∀ m, p ≠ .publish m) → F.rel v (v.write k p)
  refuse (v : World) {returnCode : Nat} : returnCode ≠ 0 →
    F.rel v (v.write e.action.channelId (.connack (mqttConnack false returnCode)))
  retained (it : Iteration) (fs gs : List Bytes) :
    Within F (publishRetainedMessage it e.action.channelId fs gs)
  forward {c : MqttClient} {m : MqttPublish} : w.param e.action.channelId = some c →
    e.packet = some (.publish m) → (Packet.publish m).Decoded →
      Within F (forwardPublish e.iteration m)
  will {w' : World} {c : MqttClient} : e.action = .disconnected e.action.channelId →
    w.param e.action.channelId = some c → publishWillMessage c w = (.value (), w') → F.rel w w'
  subscribe {v : World} {c : MqttClient} {entry : SubscribeEntry} :
    v.param e.action.channelId = some c → entry.Decoded → entry.maxQos < 3 →
      entry.topicFilter.head? ≠ some dollar → F.rel v (v.subscribeEntry c entry)
  subscribeTrash {v : World} {c : MqttClient} : v.param e.action.channelId = some c →
    c.admin = true → F.rel v (v.modifyTopic .trash fun t => t.subscribe c 2)
  unsubscribe {v : World} {c : MqttClient} {entry : UnsubscribeEntry} :
    v.param e.action.channelId = some c → entry.isWild = isWildFilter entry.topicFilter →
      F.rel v (v.unsubscribeEntry c entry)
  leave {v : World} {c : MqttClient} : v.param e.action.channelId = some c →
    F.rel v ((v.setParam e.action.channelId none).remove c)

/-- A frame of what is done in such a step, where the event brings no accepted
    CONNECT: subscribing and publishing retained messages are left to SUBSCRIBE. -/
structure EventFrame (F : Frame World) (w : World) (e : Event) : Prop where
  channels {v v' : World} : v' = { v with contexts := v'.contexts } → v'.param = v.param →
    (∀ k ≠ e.action.channelId, v'.contexts k = v.contexts k) → F.rel v v'
  answer {v : World} {c : MqttClient} {k : ChannelId} {p : Packet} :
    v.param e.action.channelId = some c → k = e.action.channelId ∨ k = c.channelId →
      (∀ m, p ≠ .publish m) → F.rel v (v.write k p)
  refuse (v : World) {returnCode : Nat} : returnCode ≠ 0 →
    F.rel v (v.write e.action.channelId (.connack (mqttConnack false returnCode)))
  retained {p : MqttSubscribe} (it : Iteration) (fs gs : List Bytes) :
    e.packet = some (.subscribe p) → Within F (publishRetainedMessage it e.action.channelId fs gs)
  forward {c : MqttClient} {m : MqttPublish} : w.param e.action.channelId = some c →
    e.packet = some (.publish m) → (Packet.publish m).Decoded →
      Within F (forwardPublish e.iteration m)
  will {w' : World} {c : MqttClient} : e.action = .disconnected e.action.channelId →
    w.param e.action.channelId = some c → publishWillMessage c w = (.value (), w') → F.rel w w'
  subscribe {v : World} {c : MqttClient} {p : MqttSubscribe} {entry : SubscribeEntry} :
    e.packet = some (.subscribe p) → entry ∈ p.topicFilters →
      v.param e.action.channelId = some c → entry.Decoded → entry.maxQos < 3 →
        entry.topicFilter.head? ≠ some dollar → F.rel v (v.subscribeEntry c entry)
  subscribeTrash {v : World} {c : MqttClient} {p : MqttSubscribe} :
    e.packet = some (.subscribe p) → v.param e.action.channelId = some c → c.admin = true →
      F.rel v (v.modifyTopic .trash fun t => t.subscribe c 2)
  unsubscribe {v : World} {c : MqttClient} {entry : UnsubscribeEntry} :
    v.param e.action.channelId = some c → entry.isWild = isWildFilter entry.topicFilter →
      F.rel v (v.unsubscribeEntry c entry)
  leave {v : World} {c : MqttClient} : v.param e.action.channelId = some c →
    F.rel v ((v.setParam e.action.channelId none).remove c)

theorem StepFrame.eventFrame {F : Frame World} {w : World} {e : Event} (S : StepFrame F w e) :
    EventFrame F w e where
  channels := S.channels
  answer := S.answer
  refuse := S.refuse
  retained it fs gs _ := S.retained it fs gs
  forward := S.forward
  will := S.will
  subscribe _ _ := S.subscribe
  subscribeTrash _ := S.subscribeTrash
  unsubscribe := S.unsubscribe
  leave := S.leave

/-- A frame of what the handlers do apart from the beginning of a step and the
    forwarding of a PUBLISH. -/
structure HandlerFrame (F : Frame World) : Prop where
  channels {w w' : World} : w' = { w with contexts := w'.contexts } → w'.param = w.param → F.rel w w'
  write (w : World) (k : ChannelId) {p : Packet} : (∀ m, p ≠ .publish m) → F.rel w (w.write k p)
  retained (it : Iteration) (k : ChannelId) (fs gs : List Bytes) :
    Within F (publishRetainedMessage it k fs gs)
  will {w w' : World} {k : ChannelId} {c : MqttClient} : w.param k = some c →
    publishWillMessage c w = (.value (), w') → F.rel w w'
  subscribe {w : World} {k : ChannelId} {c : MqttClient} {entry : SubscribeEntry} :
    w.param k = some c → entry.Decoded → entry.maxQos < 3 →
      entry.topicFilter.head? ≠ some dollar → F.rel w (w.subscribeEntry c entry)
  subscribeTrash {w : World} {k : ChannelId} {c : MqttClient} : w.param k = some c →
    c.admin = true → F.rel w (w.modifyTopic .trash fun t => t.subscribe c 2)
  unsubscribe {w : World} {k : ChannelId} {c : MqttClient} {entry : UnsubscribeEntry} :
    w.param k = some c → entry.isWild = isWildFilter entry.topicFilter →
      F.rel w (w.unsubscribeEntry c entry)
  leave {w : World} {k : ChannelId} {c : MqttClient} : w.param k = some c →
    F.rel w ((w.setParam k none).remove c)

theorem HandlerFrame.stepFrame {F : Frame World} (H : HandlerFrame F) {w : World} {e : Event}
    (hforward : ∀ c packet, w.param e.action.channelId = some c →
      e.packet = some (.publish packet) → (Packet.publish packet).Decoded →
        Within F (forwardPublish e.iteration packet)) : StepFrame F w e where
  channels h hparam _ := H.channels h hparam
  answer _ _ hp := H.write _ _ hp
  refuse v _ _ := H.write v _ fun _ => Packet.noConfusion
  retained it fs gs := H.retained it _ fs gs
  forward {c m} hc hp hd := hforward c m hc hp hd
  will _ hc hrun := H.will hc hrun
  subscribe hc hd hq hsys := H.subscribe hc hd hq hsys
  subscribeTrash hc hadmin := H.subscribeTrash hc hadmin
  unsubscribe hc hwild := H.unsubscribe hc hwild
  leave hc := H.leave hc

namespace EventFrame

variable {F : Frame World} {w : World} {e : Event} {c : MqttClient}

theorem close (S : EventFrame F w e) (v : World) : F.rel v (v.close e.action.channelId) :=
  S.channels rfl (v.param_close _) fun _ hk => Function.update_of_ne hk _ _

/-- The loop body of `handle_subscribe`. -/
theorem within_subscribeEntry (S : EventFrame F w e) {p : MqttSubscribe}
    (hpacket : e.packet = some (.subscribe p)) (g : Granting) {entry : SubscribeEntry}
    (he : entry ∈ p.topicFilters) (hd : entry.Decoded) :
    Within (Serving F e.action.channelId c) (subscribeEntry c g entry) := by
  have hcode : ∀ (g : Granting) returnCode,
      Within (Serving F e.action.channelId c) (g.code returnCode) :=
    fun _ _ => within_bind (within_ofExcept _) fun _ => within_pure _
  have hsubscribe : entry.maxQos < 3 → entry.topicFilter.head? ≠ some dollar → ∀ v : World,
      (Serving F e.action.channelId c).rel v (v.subscribeEntry c entry) := by
    refine fun hq hsys v => ⟨still_param ?_, fun hc => S.subscribe hpacket he hc hd hq hsys⟩
    show (v.subscribe c _ _ _).contexts = v.contexts
    rw [World.subscribe_eq]
  rw [subscribeEntry]
  split_ifs with hq hsys hadmin htrash hwild
  · exact within_bind (within_modify fun v => ⟨rfl, fun hc => S.subscribeTrash hpacket hc hadmin⟩)
      fun _ => hcode _ _
  · exact hcode _ _
  · exact hcode _ _
  · exact within_bind (within_modify (hsubscribe hq hsys)) fun _ => hcode _ _
  · exact within_bind (within_modify (hsubscribe hq hsys)) fun _ => hcode _ _
  · exact hcode _ _

/-- The loop of `handle_unsubscribe`. -/
theorem foldl_unsubscribeEntry (S : EventFrame F w e) {entries : List UnsubscribeEntry}
    (hwild : ∀ entry ∈ entries, entry.isWild = isWildFilter entry.topicFilter) (v : World) :
    (Serving F e.action.channelId c).rel v
      (entries.foldl (fun v entry => v.unsubscribeEntry c entry) v) := by
  induction entries generalizing v with
  | nil => exact Frame.refl _ v
  | cons entry entries ih =>
    have hparam : (v.unsubscribeEntry c entry).param = v.param := by
      refine still_param ?_
      show (v.unsubscribeEntry c entry).contexts = v.contexts
      rw [World.unsubscribeEntry]
      split
      · rfl
      · show (v.unsubscribe c _ _).contexts = v.contexts
        rw [World.unsubscribe_eq]
    exact Frame.trans _ ⟨hparam, fun hc => S.unsubscribe hc (hwild _ List.mem_cons_self)⟩
      (ih (fun e he => hwild e (List.mem_cons_of_mem _ he)) _)

/-- What a handler does after the beginning, for the client at the channel, which
    stays there unless it sends a DISCONNECT. -/
theorem serving_packetHandler (S : EventFrame F w e) (cfg : Config) {p : Packet}
    (hc : w.param e.action.channelId = some c) (hpacket : e.packet = some p) (hp : p.Decoded)
    (hconnect : ∀ packet, p ≠ .connect packet) (hdisconnect : ∀ packet, p ≠ .disconnect packet) :
    (Serving F e.action.channelId c).rel (w.served e.action.channelId c p)
      (MqttBroker.packetHandler cfg e.iteration e.draws e.action.channelId p w).2 := by
  -- Most handlers only answer.
  have hanswer : ∀ (k : ChannelId) {q : Packet}, k = e.action.channelId ∨ k = c.channelId →
      (∀ m, q ≠ .publish m) → Within (Serving F e.action.channelId c) (MqttBroker.write k q) :=
    fun k q hk hq v => ⟨rfl, fun hc => S.answer hc hk hq⟩
  cases p with
  | connect packet => exact absurd rfl (hconnect packet)
  | disconnect packet => exact absurd rfl (hdisconnect packet)
  | connack | suback | unsuback | pingresp => exact Frame.refl _ w
  | publish packet =>
    show (Serving F _ c).rel _ (handlePublish e.iteration _ packet w).2
    rw [handlePublish, agent_bind_apply hc, modify_bind_apply]
    exact ⟨still_param (still_publishFrame.forwardPublish _ _ _), fun _ =>
      S.forward hc hpacket hp _⟩
  | puback packet =>
    show (Serving F _ c).rel _ (handlePuback _ packet w).2
    rw [handlePuback, agent_bind_apply hc]
    exact Frame.refl _ _
  | pubrec packet =>
    show (Serving F _ c).rel _ (handlePubrec _ packet w).2
    rw [handlePubrec, agent_bind_apply hc, modify_bind_apply]
    exact hanswer _ (.inr rfl) (fun _ => Packet.noConfusion) _
  | pubrel packet =>
    show (Serving F _ c).rel _ (handlePubrel _ packet w).2
    rw [handlePubrel, agent_bind_apply hc, modify_bind_apply]
    exact hanswer _ (.inr rfl) (fun _ => Packet.noConfusion) _
  | pubcomp packet =>
    show (Serving F _ c).rel _ (handlePubcomp _ packet w).2
    rw [handlePubcomp, agent_bind_apply hc]
    exact Frame.refl _ _
  | pingreq packet =>
    show (Serving F _ c).rel _ (handlePingreq _ packet w).2
    rw [handlePingreq, agent_bind_apply hc]
    exact hanswer _ (.inl rfl) (fun _ => Packet.noConfusion) _
  | subscribe packet =>
    show (Serving F _ c).rel _ (handleSubscribe e.iteration _ packet w).2
    rw [handleSubscribe, agent_bind_apply hc]
    have hloop : Within (Serving F e.action.channelId c) (foldEach packet.topicFilters
        ⟨mqttSuback packet.packetId, [], []⟩ (MqttBroker.subscribeEntry c)) :=
      within_foldEach fun g entry he => S.within_subscribeEntry hpacket g he (hp entry he)
    have hretained : ∀ fs gs, Within (Serving F e.action.channelId c)
        (publishRetainedMessage e.iteration e.action.channelId fs gs) := fun fs gs v =>
      ⟨still_param (still_publishFrame.publishRetainedMessage _ _ fs gs v),
        fun _ => S.retained _ fs gs hpacket v⟩
    exact within_bind hloop (fun g => within_bind
      (hanswer _ (.inl rfl) fun _ => Packet.noConfusion) fun _ => hretained _ _) _
  | unsubscribe packet =>
    show (Serving F _ c).rel _ (handleUnsubscribe _ packet w).2
    rw [handleUnsubscribe, agent_bind_apply hc, modify_bind_apply]
    have hloop := S.foldl_unsubscribeEntry (c := c) (fun entry he => (hp entry he).2)
      (w.record (.handled c (.unsubscribe packet)))
    exact Frame.trans _ hloop (hanswer _ (.inl rfl) (fun _ => Packet.noConfusion) _)

/-- What a handler does after the beginning. -/
theorem packetHandler (S : EventFrame F w e) {cfg : Config} {p : Packet}
    (hc : w.param e.action.channelId = some c) (hpacket : e.packet = some p) (hp : p.Decoded)
    (hconnect : ∀ packet, p ≠ .connect packet) : F.rel (w.served e.action.channelId c p)
      (MqttBroker.packetHandler cfg e.iteration e.draws e.action.channelId p w).2 := by
  by_cases hdisconnect : ∃ packet, p = .disconnect packet
  · obtain ⟨packet, rfl⟩ := hdisconnect
    show F.rel _ (handleDisconnect _ packet w).2
    rw [handleDisconnect, agent_bind_apply hc]
    exact S.leave (v := w.record _) hc
  · -- At the beginning, the client is at the channel, as it is in `w`.
    have hparam : (w.served e.action.channelId c p).param = w.param := by
      rw [served_eq]
      rfl
    exact (S.serving_packetHandler cfg hc hpacket hp hconnect fun packet h =>
      hdisconnect ⟨packet, h⟩).2 ((congrFun hparam _).trans hc)

end EventFrame

/-- Without a client at the channel, only a CONNECT is handled. -/
theorem packetHandler_of_none {cfg : Config} {it : Iteration} {draws : List (Nat × Nat)}
    {w : World} {k : ChannelId} (hc : w.param k = none) {p : Packet}
    (hconnect : ∀ packet, p ≠ .connect packet) :
    ∃ what, packetHandler cfg it draws k p w = (.thrown what, w) := by
  cases p with
  | connect packet => exact absurd rfl (hconnect packet)
  | connack | suback | unsuback | pingresp => exact ⟨_, rfl⟩
  | publish | puback | pubrec | pubrel | pubcomp | subscribe | unsubscribe | pingreq | disconnect =>
    exact ⟨_, agent_bind_apply_none hc _ _⟩

variable {F : Frame World} {cfg : Config} {w w' : World} {e : Event} {j : Joining} {k : ChannelId}

/-- After a guarded call the channel may be closed. -/
theorem rel_guarded (hclose : ∀ w, F.rel w (w.close k)) {m : Server Unit} {t : World}
    (h : guarded k m w = (.value (), t)) : F.rel (m w).2 t := by
  rcases guarded_eq_value.1 h with hv | ⟨what, t', ht, rfl⟩
  · rw [hv]
    exact F.refl t
  · rw [ht]
    exact hclose t'

/-- An event that brings a packet hands it to its handler. -/
theorem program_of_packet {p : Packet} (hp : e.packet = some p) :
    e.program cfg = guarded e.action.channelId
      (packetHandler cfg e.iteration e.draws e.action.channelId p) := by
  obtain ⟨sb, rest, ha, hread⟩ := packet_eq_some hp
  rw [Event.program, ha]
  show guarded _ (channelReadPipeline _ _ _ _ _) = _
  rw [channelReadPipeline, hread]
  rfl

/-- A packet is decoded from a buffer of a channel that is there. -/
theorem decoded_of_admits {p : Packet} (hp : e.packet = some p) (ha : w.Admits e.action) :
    (w.contexts e.action.channelId).isSome ∧ p.Decoded := by
  obtain ⟨sb, rest, hact, hread⟩ := packet_eq_some hp
  rw [hact] at ha
  exact ⟨ha.1, decoded_of_channelRead hread ha.2⟩

/-- The handler of a packet, where it returns, leaves the state after the step. -/
theorem returns_step {p : Packet} {Q : World → Prop} (hst : (broker cfg).step w e = some w')
    (hp : e.packet = some p) (h : Returns
      (packetHandler cfg e.iteration e.draws e.action.channelId p) (fun _ => Q) w) : Q w' := by
  obtain ⟨-, t, hrun, rfl⟩ := (step_eq_some cfg).1 hst
  obtain ⟨sb, rest, hact, -⟩ := packet_eq_some hp
  rw [program_of_packet hp] at hrun
  rw [hact]
  rcases guarded_eq_value.1 hrun with hv | ⟨what, t', ht, -⟩
  · exact h.of_value hv
  · exact absurd ht (h.ne_thrown what t')

/-- Where the handler of a packet returns, the step ends as it does. -/
theorem eq_of_packetHandler {p : Packet} {v : World} (hst : (broker cfg).step w e = some w')
    (hp : e.packet = some p)
    (h : packetHandler cfg e.iteration e.draws e.action.channelId p w = (.value (), v)) :
    w' = v :=
  returns_step (Q := fun t => t = v) hst hp (by rw [Returns, h])

/-- A packet whose handler returns is a step. -/
theorem step_of_packetHandler {p : Packet} {v : World} (ha : w.Admits e.action)
    (hp : e.packet = some p)
    (h : packetHandler cfg e.iteration e.draws e.action.channelId p w = (.value (), v)) :
    (broker cfg).step w e = some v := by
  obtain ⟨sb, rest, hact, -⟩ := packet_eq_some hp
  refine (step_eq_some cfg).2 ⟨ha, v, ?_, ?_⟩
  · rw [program_of_packet hp]
    exact guarded_eq_value.2 (.inl h)
  · rw [hact]
    rfl

/-- A packet of nobody that is no CONNECT closes its channel. -/
theorem eq_close_of_none {p : Packet} (hst : (broker cfg).step w e = some w')
    (hp : e.packet = some p) (hc : w.param e.action.channelId = none)
    (hconnect : ∀ packet, p ≠ .connect packet) : w' = w.close e.action.channelId := by
  obtain ⟨-, t, hrun, rfl⟩ := (step_eq_some cfg).1 hst
  obtain ⟨sb, rest, hact, -⟩ := packet_eq_some hp
  obtain ⟨what, hthrown⟩ : ∃ what, packetHandler cfg e.iteration e.draws e.action.channelId p w =
      (.thrown what, w) := packetHandler_of_none hc hconnect
  rw [program_of_packet hp] at hrun
  rcases guarded_eq_value.1 hrun with hv | ⟨what', t', ht, rfl⟩
  · cases hthrown.symm.trans hv
  · cases hthrown.symm.trans ht
    rw [hact]
    rfl

/-- A PUBLISH is served and then forwarded. -/
theorem step_forward {c : MqttClient} {m : MqttPublish} {Q : World → Prop}
    (hst : (broker cfg).step w e = some w') (hc : w.param e.action.channelId = some c)
    (hp : e.packet = some (.publish m)) (h : Returns (forwardPublish e.iteration m) (fun _ => Q)
      (w.served e.action.channelId c (.publish m))) : Q w' := by
  refine returns_step hst hp ?_
  show Returns (handlePublish e.iteration e.action.channelId m) (fun _ => Q) w
  rw [Returns, handlePublish, agent_bind_apply hc, modify_bind_apply]
  exact h

/-- A PUBREC is entered in the session, and answered. -/
theorem step_pubrec {c : MqttClient} {a : MqttPubrec} (hst : (broker cfg).step w e = some w')
    (hc : w.param e.action.channelId = some c) (hp : e.packet = some (.pubrec a)) :
    w' = (w.served e.action.channelId c (.pubrec a)).write c.channelId
      (.pubrel (mqttPubrel a.packetId)) :=
  eq_of_packetHandler hst hp (agent_bind_apply hc _ _)

/-- A PUBCOMP is entered in the session. -/
theorem step_pubcomp {c : MqttClient} {a : MqttPubcomp} (hst : (broker cfg).step w e = some w')
    (hc : w.param e.action.channelId = some c) (hp : e.packet = some (.pubcomp a)) :
    w' = w.served e.action.channelId c (.pubcomp a) :=
  eq_of_packetHandler hst hp (agent_bind_apply hc _ _)

/-- A CONNECT is accepted on a channel that is there. -/
theorem isSome_contexts_of_joining {j : Joining} (hst : (broker cfg).step w e = some w')
    (hj : w.joining cfg e = some j) : (w.contexts j.channelId).isSome := by
  obtain ⟨hp, hk, -⟩ := joining_eq_some hj
  rw [← hk]
  exact (decoded_of_admits hp ((step_eq_some cfg).1 hst).1).1

/-- A step with an accepted CONNECT: retained messages may be published from the
    joined state on, and the channel closed. -/
theorem rel_step_joining (hclose : ∀ w, F.rel w (w.close j.channelId))
    (hretained : ∀ it fs gs, Within F (publishRetainedMessage it j.channelId fs gs))
    (h : (broker cfg).step w e = some w') (hj : w.joining cfg e = some j) :
    (w.contexts j.channelId).isSome ∧ F.rel (w.joined cfg j) w' := by
  obtain ⟨hadmits, t, hrun, rfl⟩ := (step_eq_some cfg).1 h
  obtain ⟨hp, hk, hj⟩ := joining_eq_some hj
  rw [program_of_packet hp, hk] at hrun
  have hcontexts := (decoded_of_admits hp hadmits).1
  rw [hk] at hcontexts
  obtain ⟨sb, rest, hact, -⟩ := packet_eq_some hp
  rw [hact]
  refine ⟨hcontexts, F.trans ?_ (rel_guarded hclose hrun)⟩
  show F.rel _ (handleConnect cfg e.iteration e.draws j.channelId j.packet w).2
  rw [handleConnect_of_joining hj]
  obtain ⟨m, hm, heq⟩ := acceptConnect_apply cfg e.iteration w j
  rw [heq]
  rcases hm with rfl | ⟨fs, gs, rfl⟩
  · exact F.refl _
  · exact hretained _ _ _ _

/-- A CONNECT that is not accepted is answered. -/
theorem rel_handleConnect_of_not_joining (hwrite : ∀ (w : World) returnCode, returnCode ≠ 0 →
      F.rel w (w.write k (.connack (mqttConnack false returnCode))))
    {it : Iteration} {draws : List (Nat × Nat)} {packet : MqttConnect}
    (h : w.joiningOf cfg draws k packet = none) :
    F.rel (w.greet cfg k packet) (handleConnect cfg it draws k packet w).2 := by
  rw [World.joiningOf] at h
  rw [handleConnect, get_bind_apply, modify_bind_apply]
  cases hcheck : w.checkIntegrity draws packet with
  | none => exact F.refl _
  | some r =>
    rw [hcheck] at h
    simp only at h ⊢
    split_ifs at h with hcode hadmin hauth
    · rw [if_pos hcode]
      exact hwrite _ _ hcode
    · rw [if_neg (not_not.2 (not_not.1 hcode)), if_neg hadmin, if_pos hauth]
      exact hwrite _ _ (by decide)

theorem handleChannelDisconnected_ne_thrown (k : ChannelId) (w t : World) (what : String) :
    handleChannelDisconnected k w ≠ (.thrown what, t) := by
  have hwill : ∀ (c : MqttClient) (t : World) what, publishWillMessage c w ≠ (.thrown what, t) := by
    intro c t what
    rw [publishWillMessage, modify_bind_apply]
    split_ifs
    · rw [modify_bind_apply]
      exact tryCatch_ne_thrown (fun _ _ _ _ => by simp) _ _ _
    · simp
  rw [handleChannelDisconnected, get_bind_apply]
  cases w.param k with
  | none => simp
  | some c =>
    show (publishWillMessage c >>= fun _ => _) w ≠ _
    rw [bind_apply]
    rcases hr : publishWillMessage c w with ⟨⟨⟩ | what' | _, u⟩
    · simp [andThen]
    · exact absurd hr (hwill c u what')
    · simp [andThen]

/-- The channel of a client is lost: its will is published, and it is removed. -/
theorem step_disconnected {c : MqttClient} (hst : (broker cfg).step w e = some w')
    (he : e.action = .disconnected k) (hc : w.param k = some c) :
    ∃ u, publishWillMessage c w = (.value (), u) ∧
      w' = (u.remove c).conclude (.disconnected k) := by
  obtain ⟨-, t, hrun, rfl⟩ := (step_eq_some cfg).1 hst
  rw [Event.program, he] at hrun
  rw [he]
  rcases guarded_eq_value.1 hrun with hv | ⟨what, t', ht, -⟩
  · rw [handleChannelDisconnected, get_bind_apply, hc] at hv
    obtain ⟨⟨⟩, u, hwill, hremove⟩ := bind_eq_value hv
    cases hremove
    exact ⟨u, hwill, rfl⟩
  · exact absurd ht (handleChannelDisconnected_ne_thrown _ w t' what)

/-- Nobody is at a channel that is gone. -/
theorem param_conclude_disconnected (w : World) (k : ChannelId) :
    (w.conclude (.disconnected k)).param = Function.update w.param k none := by
  funext k'
  simp only [World.param, World.conclude, Function.update_apply]
  split_ifs <;> rfl

/-- A client whose channel is lost publishes its will, and leaves. -/
theorem EventFrame.disconnected (S : EventFrame F w e) {t : World}
    (he : e.action = .disconnected e.action.channelId)
    (h : handleChannelDisconnected e.action.channelId w = (.value (), t)) :
    F.rel w (t.conclude (.disconnected e.action.channelId)) := by
  have hparam := param_conclude_disconnected (k := e.action.channelId)
  rw [handleChannelDisconnected, get_bind_apply] at h
  cases hc : w.param e.action.channelId with
  | none =>
    rw [hc] at h
    cases h
    refine S.channels rfl ?_ fun _ hk => Function.update_of_ne hk _ _
    rw [hparam]
    exact Function.update_eq_self_iff.2 hc.symm
  | some c =>
    rw [hc] at h
    obtain ⟨⟨⟩, u, hwill, hremove⟩ := bind_eq_value h
    cases hremove
    have hcu := still_param (still_publishFrame.publishWillMessage c w)
    rw [hwill] at hcu
    refine F.trans (S.will he hc hwill) (F.trans (S.leave ((congrFun hcu _).trans hc)) ?_)
    -- The channel is gone, instead of being detached.
    have hleave : (u.setParam e.action.channelId none).remove c =
        { u.remove c with contexts := (u.setParam e.action.channelId none).contexts } :=
      World.remove_contexts u c _
    refine S.channels (by rw [hleave]; rfl) ?_ fun k hk => ?_
    · rw [hparam, World.param_remove, World.param_remove, World.param_setParam_none]
    · rw [hleave]
      show Function.update (u.remove c).contexts _ _ k = Function.update u.contexts _ _ k
      rw [Function.update_of_ne hk, Function.update_of_ne hk, World.remove_eq]

theorem EventFrame.receivedPacket (S : EventFrame F w e) {p : Packet} (hpacket : e.packet = some p)
    (hp : p.Decoded) (hj : ∀ packet, p = .connect packet →
      w.joiningOf cfg e.draws e.action.channelId packet = none) :
    F.rel (w.receivedPacket cfg e.action.channelId p)
      (MqttBroker.packetHandler cfg e.iteration e.draws e.action.channelId p w).2 := by
  by_cases hconnect : ∃ packet, p = .connect packet
  · obtain ⟨packet, rfl⟩ := hconnect
    exact rel_handleConnect_of_not_joining (fun v _ => S.refuse v) (hj packet rfl)
  · have hne : ∀ packet, p ≠ .connect packet := fun packet h => hconnect ⟨packet, h⟩
    rw [receivedPacket_eq_served cfg w _ hne]
    cases hc : w.param e.action.channelId with
    | some c => exact S.packetHandler hc hpacket hp hne
    | none =>
      obtain ⟨what, hthrown⟩ : ∃ what, MqttBroker.packetHandler cfg e.iteration e.draws
          e.action.channelId p w = (.thrown what, w) := packetHandler_of_none hc hne
      rw [hthrown]
      exact F.refl w

/-- The channel of a new context had no client before. -/
theorem param_accept {k : ChannelId} (h : w.contexts k = none) :
    (w.conclude (.accept k)).param = w.param := by
  funext k'
  simp only [World.param, World.conclude, Function.update_apply]
  split_ifs with hk
  · rw [hk, h]
    rfl
  · rfl

/-- What does not hand on a packet leaves the state as it is. -/
theorem channelReadPipeline_of_no_packet {k : ChannelId} {sb : Bytes}
    (h : ∀ p rest, channelRead sb ≠ .packet p rest) (it : Iteration) (draws : List (Nat × Nat)) :
    (channelReadPipeline cfg it draws k sb w).2 = w := by
  rw [channelReadPipeline]
  cases hread : channelRead sb with
  | packet p rest => exact absurd hread (h p rest)
  | done | handOn | threw => rfl

/-- A step that brings no packet. -/
theorem EventFrame.of_no_packet (S : EventFrame F w e) (h : (broker cfg).step w e = some w')
    (hp : e.packet = none) : F.rel w w' := by
  obtain ⟨hadmits, t, hrun, rfl⟩ := (step_eq_some cfg).1 h
  rw [Event.program] at hrun
  rw [Event.packet] at hp
  have hclose := S.close
  have hdisconnected := fun t => S.disconnected (t := t)
  have hchannels := @S.channels
  generalize e.action = a at hadmits hrun hp hclose hdisconnected hchannels ⊢
  cases a with
  | accept k =>
    cases hrun
    exact hchannels rfl (param_accept hadmits) fun _ hk => Function.update_of_ne hk _ _
  | read k sb =>
    have hrel := rel_guarded hclose hrun
    rwa [channelReadPipeline_of_no_packet fun p rest hread => by simp [hread] at hp] at hrel
  | written k =>
    have hwritten : Within F (channelWritten k) := within_bind within_get fun v =>
      within_ite (within_modify hclose) (within_pure ())
    exact F.trans (hwritten w) (rel_guarded hclose hrun)
  | userEvent k =>
    cases hrun
    exact hclose w
  | disconnected k =>
    rcases guarded_eq_value.1 hrun with hv | ⟨what, t', ht, -⟩
    · exact hdisconnected t rfl hv
    · exact absurd ht (handleChannelDisconnected_ne_thrown k w t' what)

/-- After its beginning, a step without an accepted CONNECT stays within every frame
    of it. -/
theorem EventFrame.step (S : EventFrame F w e) (h : (broker cfg).step w e = some w')
    (hj : w.joining cfg e = none) : F.rel (w.received cfg e) w' := by
  rw [World.received, hj]
  cases hp : e.packet with
  | none => exact S.of_no_packet h hp
  | some p =>
    obtain ⟨hadmits, t, hrun, rfl⟩ := (step_eq_some cfg).1 h
    obtain ⟨sb, rest, hact, -⟩ := packet_eq_some hp
    rw [program_of_packet hp] at hrun
    have hrest : F.rel (w.receivedPacket cfg e.action.channelId p) t := by
      refine F.trans (S.receivedPacket hp (decoded_of_admits hp hadmits).2 ?_)
        (rel_guarded S.close hrun)
      rintro packet rfl
      rw [World.joining, Event.connect, hp] at hj
      exact hj
    rw [hact] at hrest ⊢
    exact hrest

/-- After its beginning, a step stays within every frame of it. -/
theorem StepFrame.step (S : StepFrame F w e) (h : (broker cfg).step w e = some w') :
    F.rel (w.received cfg e) w' := by
  cases hj : w.joining cfg e with
  | some j =>
    rw [World.received, hj]
    have hk := (joining_eq_some hj).2.1
    refine (rel_step_joining (fun v => ?_) (fun it => ?_) h hj).2
    · rw [← hk]
      exact S.eventFrame.close v
    · rw [← hk]
      exact S.retained it
  | none => exact S.eventFrame.step h hj

/-- After its beginning, a step stays within every frame of the handlers. -/
theorem HandlerFrame.step (H : HandlerFrame F) (h : (broker cfg).step w e = some w')
    (hforward : ∀ c packet, w.param e.action.channelId = some c →
      e.packet = some (.publish packet) → (Packet.publish packet).Decoded →
        Within F (forwardPublish e.iteration packet)) : F.rel (w.received cfg e) w' :=
  (H.stepFrame hforward).step h

/-! ## Frames of the sessions -/

/-- A frame of the history and the sessions: it allows `mqtt_client::publish`,
    the writing of anything but a PUBLISH, and changes of the subscriptions. -/
structure SessionFrame (F : Frame World) : Prop where
  same {w w' : World} : w'.log = w.log → w'.session = w.session → F.rel w w'
  write (w : World) (k : ChannelId) {p : Packet} : (∀ m, p ≠ .publish m) → F.rel w (w.write k p)
  note (w : World) (topicName payload : Bytes) (known : Bool) :
    F.rel w (w.record (.retain topicName payload known))
  noteWill (w : World) (client : MqttClient) : F.rel w (w.record (.will client))
  counter (s : SessionRef) (w : World) (next : UInt16) :
    F.rel w (w.modifySession s fun _ => { w.session s with nextPacketId := next })
  publish (client : MqttClient) (maxQos : Nat) (retained : Bool) (packet : MqttPublish) :
    Within F (client.publish maxQos retained packet)
  subscriptions (w : World) (s : SessionRef) {f : Session → Session} :
    (∀ t, f t = { t with subscriptions := (f t).subscriptions }) → F.rel w (w.modifySession s f)

namespace SessionFrame

variable {F : Frame World} (h : SessionFrame F)

include h

theorem publishFrame : PublishFrame F where
  counter := h.counter
  publish := h.publish
  store p packet w := by
    refine h.same ?_ ?_ <;> rw [World.storeRetained_eq]
  note retain _ _ w := rel_noteRetain (h.note w _ _) retain
  noteWill client w := h.noteWill w client

theorem handlerFrame : HandlerFrame F where
  channels hcontexts _ := h.same (by rw [hcontexts]) (by rw [hcontexts])
  write := h.write
  retained := h.publishFrame.publishRetainedMessage
  will {w w' _ c} _ hrun := by
    have hrel := h.publishFrame.publishWillMessage c w
    rwa [hrun] at hrel
  subscribe {w k c entry} _ _ _ _ := by
    refine F.trans (h.same ?_ ?_) (h.subscriptions (w.subscribe c _ _ _) _ fun _ => rfl) <;>
      rw [World.subscribe_eq]
  subscribeTrash _ _ := h.same rfl rfl
  unsubscribe {w k c entry} _ _ := by
    rw [World.unsubscribeEntry]
    split
    · exact F.refl w
    · refine F.trans (h.same ?_ ?_) (h.subscriptions (w.unsubscribe c _ _) _ fun _ => rfl) <;>
        rw [World.unsubscribe_eq]
  leave {w k c} _ := by
    refine h.same ?_ ?_ <;> rw [World.remove_eq] <;> rfl

theorem step (hst : (broker cfg).step w e = some w') : F.rel (w.received cfg e) w' :=
  h.handlerFrame.step hst fun _ packet _ _ _ => h.publishFrame.forwardPublish _ packet

end SessionFrame

end MqttBroker
