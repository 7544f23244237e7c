import MqttBroker.Delivery.Posting
import MqttBroker.Delivery.Topics

/-!
# Retained messages

A client that subscribes is owed the last message to retain of every topic its
filter matches (`World.Owes`). The broker keeps such a message in the topic of
its name, if it is in `_topics` at the time (`World.RetainedInv`), and loses it
otherwise (`World.Missed`). So a SUBSCRIBE is answered by exactly what is owed
when no topic it matches was missed (`answered_iff`).
-/

namespace MqttBroker

open Prog

/-- The last message to retain of a topic, with whether the topic was in
    `_topics`. -/
def Effect.lastRetain (topicName : Bytes) (r : Option (Bytes × Bool)) :
    Effect → Option (Bytes × Bool)
  | .retain t payload known => if t = topicName then some (payload, known) else r
  | _ => r

/-- The payload of the last message to retain of a topic, with whether the topic
    was in `_topics` when it was accepted. -/
def World.lastRetain (w : World) (topicName : Bytes) : Option (Bytes × Bool) :=
  w.log.foldl (fun r e => e.lastRetain topicName r) none

/-- The last message to retain of a topic is the payload, which is not empty. -/
def World.Owes (w : World) (topicName payload : Bytes) : Prop :=
  payload ≠ [] ∧ ∃ known, w.lastRetain topicName = some (payload, known)

/-- The last message to retain of a topic was accepted when the topic was not in
    `_topics`, and is not empty. -/
def World.Missed (w : World) (topicName : Bytes) : Prop :=
  ∃ payload, payload ≠ [] ∧ w.lastRetain topicName = some (payload, false)

/-- What the topics of `_topics` retain: the last message to retain, if it was
    accepted when the topic was there and is not empty. Messages and wills can be
    sent. -/
structure World.RetainedInv (w : World) : Prop where
  message {f m} : w.retainedAt f = some m → m.topicName = f ∧ m.Sendable
  last f payload : (∃ m, w.retainedAt f = some m ∧ m.payload = payload) ↔
    payload ≠ [] ∧ w.lastRetain f = some (payload, true)
  will {k c} : w.param k = some c →
    c.willQos < 3 ∧ c.willTopic.length + c.willMessage.length + 4 ≤ 0x0fffffff

variable {cfg : Config} {w v w' : World} {e : Event} {m : MqttPublish}

/-! ## The rest of a step -/

/-- The frame of the steps that keep what is retained. -/
abbrev Retention : Frame World := Frame.keeping World.RetainedInv

theorem retention_of_same (hretained : w'.retainedAt = w.retainedAt)
    (hlast : w'.lastRetain = w.lastRetain)
    (hparam : ∀ k c, w'.param k = some c → w.param k = some c) : Retention.rel w w' := by
  refine fun h => ⟨fun hm => ?_, fun f payload => ?_, fun hc => h.will (hparam _ _ hc)⟩
  · rw [hretained] at hm
    exact h.message hm
  · rw [hretained, hlast]
    exact h.last f payload

theorem lastRetain_record (w : World) (e : Effect) (f : Bytes) :
    (w.record e).lastRetain f = e.lastRetain f (w.lastRetain f) := by
  rw [World.lastRetain, World.record, List.foldl_append]
  rfl

theorem retention_record (w : World) {e : Effect} (h : ∀ f r, e.lastRetain f r = r) :
    Retention.rel w (w.record e) :=
  retention_of_same rfl (funext fun f => (lastRetain_record w e f).trans (h f _)) fun _ _ h => h

theorem retention_modifySession (w : World) (s : SessionRef) (f : Session → Session) :
    Retention.rel w (w.modifySession s f) := retention_of_same rfl rfl fun _ _ h => h

theorem retention_publish (client : MqttClient) (maxQos : Nat) (retained : Bool) :
    Within Retention (client.publish maxQos retained m) :=
  within_publish (fun w _ => retention_modifySession w _ _)
    (fun w p => Retention.trans (retention_record w (e := .addressed client p) fun _ _ => rfl)
      (retention_modifySession _ _ _))
    (fun w p _ => retention_record w (e := .write _ _ (.publish p)) fun _ _ => rfl) maxQos retained

/-- What is stored elsewhere than in `_topics` does not matter. -/
theorem retention_publishTopic {p : TopicPtr}
    (hp : m.retain = false ∨ ∀ f, p ≠ .entry false f) : Within Retention (publishTopic p m) := by
  refine within_publishTopic (fun w => retention_of_same (funext fun f => ?_) ?_ fun k c hc => ?_)
    fun client maxQos => retention_publish client maxQos false
  · rw [World.retainedAt_storeRetained, if_neg]
    rintro ⟨hr, hf, -⟩
    rcases hp with hp | hp
    · cases hp.symm.trans hr
    · exact hp f hf
  · funext f
    rw [World.lastRetain, World.storeRetained_eq]
    rfl
  · rw [World.storeRetained_eq] at hc
    exact hc

/-- A message to retain is accepted: it is noted, and stored in the topic of its
    name if that is there. -/
theorem retention_accept {u : World} (h : w.RetainedInv) (hm : m.Sendable)
    (htopic : ∀ f, u.topicAt (.entry false f) = w.topicAt (.entry false f))
    (hlast : u.lastRetain = (w.noteRetain m.retain m.topicName m.payload).lastRetain)
    (hparam : u.param = w.param) : (u.storeRetained (.entry false m.topicName) m).RetainedInv := by
  have heq := u.storeRetained_eq (.entry false m.topicName) m
  have hretained : ∀ f, u.retainedAt f = w.retainedAt f := by
    intro f
    rw [World.retainedAt, htopic, World.retainedAt]
  have hlast' : ∀ f, (u.storeRetained (.entry false m.topicName) m).lastRetain f =
      if m.retain = true ∧ m.topicName = f then
        some (m.payload, (w.topicAt (.entry false m.topicName)).isSome)
      else w.lastRetain f := by
    intro f
    rw [World.lastRetain, heq]
    show u.lastRetain f = _
    rw [hlast, World.noteRetain]
    split_ifs with hr hf hf
    · rw [lastRetain_record, Effect.lastRetain, if_pos hf.2]
    · rw [lastRetain_record, Effect.lastRetain, if_neg fun ht => hf ⟨hr, ht⟩]
    · exact absurd hf.1 hr
    · rfl
  refine ⟨fun {f m'} hm' => ?_, fun f payload => ?_, fun {k c} hc => ?_⟩
  · rw [World.retainedAt_storeRetained] at hm'
    split_ifs at hm' with hp hempty
    · cases hm'
      obtain ⟨-, hf, -⟩ := hp
      exact ⟨(TopicPtr.entry.inj hf).2, hm⟩
    · rw [hretained] at hm'
      exact h.message hm'
  · -- The last of the name is this message, and it is stored unless it is empty.
    rw [hlast', World.retainedAt_storeRetained, htopic, hretained]
    by_cases hr : m.retain = true ∧ m.topicName = f
    · obtain ⟨hr, rfl⟩ := hr
      cases ht : w.topicAt (.entry false m.topicName) with
      | none => simp [hr, w.retainedAt_of_none ht]
      | some t =>
        by_cases hempty : m.payload = []
        · simp [hr, hempty, eq_comm]
        · simp only [hr, hempty, Option.isSome_some, and_self, if_true, if_false, Option.some.injEq,
            exists_eq_left', Prod.mk.injEq, and_true]
          exact ⟨fun hp => ⟨hp ▸ hempty, hp⟩, And.right⟩
    · rw [if_neg hr, if_neg fun hp => hr ⟨hp.1, (TopicPtr.entry.inj hp.2.1).2⟩]
      exact h.last f payload
  · rw [heq] at hc
    exact h.will (hparam ▸ hc)

/-- Forwarding stores the message, if the topic of its name is there, and goes on
    with other topics. -/
theorem retention_forwardPublish (it : Iteration) (hm : m.Sendable) :
    Within Retention (forwardPublish it m) := by
  intro w
  have hexact : Retention.rel w (tryCatch (do publishTopic (← topicsAt m.topicName) m)
      (fun _ => pure false) (w.noteRetain m.retain m.topicName m.payload)).2 := by
    intro h
    have haccept := retention_accept h hm
      (fun f => by rw [World.noteRetain_eq]; rfl) rfl (by rw [World.noteRetain_eq]; rfl)
    generalize w.noteRetain m.retain m.topicName m.payload = u at haccept
    rw [tryCatch_topicsAt_apply, tryCatch_apply]
    cases hu : u.topicAt (.entry false m.topicName) with
    | some t =>
      have hrest := rel_publishTopic (p := .entry false m.topicName)
        (fun client maxQos => retention_publish (m := m) client maxQos false) u haccept
      rw [Option.isSome_some, if_pos rfl]
      rcases hr : publishTopic (.entry false m.topicName) m u with ⟨a | e | _, t⟩ <;>
        rw [hr] at hrest <;> exact hrest
    | none =>
      -- Without the topic there is nothing to store in.
      rw [World.storeRetained, World.modifyTopic, hu, ite_self] at haccept
      exact haccept
  rw [forwardPublish, modify_bind_apply]
  refine rel_bind hexact fun sent => within_bind within_get fun w => within_bind
    (within_publishWild (fun f => retention_publishTopic (.inr fun g => ?_)) _ _) fun _ => ?_
  · simp
  · exact within_ite (within_publishTrash (fun p hp => retention_publishTopic (.inl hp)) m)
      (within_pure _)

/-- Publishing a will stores it like a message of its topic. -/
theorem returns_publishWillMessage (h : w.RetainedInv) {k : ChannelId} {c : MqttClient}
    (hc : w.param k = some c) :
    Returns (publishWillMessage c) (fun _ => World.RetainedInv) w := by
  obtain ⟨hqos, hsize⟩ := h.will hc
  have hrun : (w.record (.will c)).RetainedInv := retention_record w (fun _ _ => rfl) h
  have haccept : ∀ (u : World) (id : UInt16) (p : MqttPublish),
      mqttPublish false c.willQos c.willRetain c.willTopic id c.willMessage = .ok p →
      (∀ f, u.topicAt (.entry false f) = w.topicAt (.entry false f)) →
      u.lastRetain = (w.noteWill c).lastRetain →
      u.param = w.param → (u.storeRetained (.entry false c.willTopic) p).RetainedInv := by
    intro u id p hp htopic hlast hparam
    obtain ⟨-, -, hretain, htopicName, hpayload, -⟩ := mqttPublish_eq_ok hp
    rw [World.noteWill, ← hretain, ← htopicName, ← hpayload] at hlast
    rw [← htopicName]
    exact retention_accept hrun (sendable_of_eq_ok hp hqos hsize) htopic hlast hparam
  have hnote : ∀ f, (w.noteWill c).topicAt (.entry false f) = w.topicAt (.entry false f) := by
    intro f
    rw [World.noteWill_eq]
    rfl
  have hparam : (w.noteWill c).param = w.param := by
    rw [World.noteWill_eq]
    rfl
  refine returns_publishWillMessage_of hqos hsize (fun _ => hrun) (fun _ hnone => ?_)
    fun _ s id p hp => ?_
  · obtain ⟨p, hp⟩ := mqttPublish_of_sizes hqos hsize false c.willRetain 0
    have hstored := haccept _ 0 p hp hnote rfl hparam
    rwa [World.storeRetained, World.modifyTopic, hnote, hnone, ite_self] at hstored
  · have hstored := haccept ((w.noteWill c).modifySession c.session fun _ => s) id p hp hnote rfl
      hparam
    refine Returns.mono ((returns_publishTopic (sendable_of_eq_ok hp hqos hsize) _ _).and_state
      (R := World.RetainedInv) ?_) fun _ _ ht => ht.2
    exact rel_publishTopic (F := Retention)
      (fun client maxQos => retention_publish client maxQos false) _ hstored

theorem retention_handlerFrame : HandlerFrame Retention where
  channels {w w'} h hparam := by
    refine retention_of_same ?_ ?_ fun k c hc => hparam ▸ hc <;> rw [h] <;> rfl
  write w k _ _ := retention_record w fun _ _ => rfl
  retained it k fs gs := within_publishRetainedMessage it k fs gs fun _ _ _ _ _ _ =>
    .inl fun client maxQos => retention_publish client maxQos true
  will {w w' k c} hc hrun h := (returns_publishWillMessage h hc).of_value hrun
  subscribe {w k c entry} _ _ _ _ := by
    refine Retention.trans (retention_of_same (w.retainedAt_subscribe c _ _ _) ?_ fun k c hc => ?_)
      (retention_modifySession (w.subscribe c entry.topicFilter entry.maxQos entry.isWild) _ _)
    · rw [World.subscribe_eq]
      rfl
    · rw [World.subscribe_eq] at hc
      exact hc
  subscribeTrash _ _ := retention_of_same rfl rfl fun _ _ hc => hc
  unsubscribe {w k c entry} _ _ := by
    rw [World.unsubscribeEntry]
    split
    · exact Retention.refl w
    · refine Retention.trans (retention_of_same (w.retainedAt_unsubscribe c _ _) ?_ fun k c hc => ?_)
        (retention_modifySession (w.unsubscribe c entry.topicFilter entry.isWild) _ _)
      · rw [World.unsubscribe_eq]
        rfl
      · rw [World.unsubscribe_eq] at hc
        exact hc
  leave {w k c} _ := by
    refine retention_of_same (World.retainedAt_remove _ c) ?_ fun k' c' hc => ?_
    · rw [World.remove_eq]
      rfl
    · rw [World.param_remove, World.param_setParam_none, Function.update_apply] at hc
      split_ifs at hc
      exact hc

/-! ## The beginning of a step -/

theorem retention_served (w : World) (k : ChannelId) (c : MqttClient) (p : Packet) :
    Retention.rel w (w.served k c p) := by
  refine retention_of_same ?_ (funext fun f => ?_) ?_
  · rw [served_eq]
    rfl
  · rw [World.lastRetain, World.foldl_log_served (fun _ _ _ _ => rfl)]
    cases p <;> rfl
  · rw [served_eq]
    exact fun _ _ hc => hc

theorem retention_greet (w : World) (k : ChannelId) (packet : MqttConnect) :
    Retention.rel w (w.greet cfg k packet) := by
  refine retention_of_same (funext fun f => ?_) (funext fun f => ?_) fun k' c hc => ?_
  · rw [World.retainedAt, World.topicAt, (w.topics_greet k cfg packet).1]
    rfl
  · rw [World.lastRetain, w.log_greet, World.lastRetain]
  · rwa [w.param_greet] at hc

/-- A client that joins brings a will that can be sent. -/
theorem retention_joined (h : w.RetainedInv) (j : Joining) (hk : (w.contexts j.channelId).isSome)
    (hd : (Packet.connect j.packet).Decoded) : (w.joined cfg j).RetainedInv := by
  obtain ⟨r, sessionPresent, v, -, hparam, hlog, ⟨htopics, -⟩, hcases⟩ := joined_cases cfg w j hk
  have hv : v.RetainedInv := by
    have hretained : v.retainedAt = w.retainedAt := by
      funext f
      rw [World.retainedAt, World.topicAt, htopics]
      rfl
    have hlast : v.lastRetain = w.lastRetain := by
      funext f
      rw [World.lastRetain, hlog, List.foldl_append]
      rfl
    refine ⟨fun hm => ?_, fun f payload => ?_, fun {k c} hc => ?_⟩
    · rw [hretained] at hm
      exact h.message hm
    · rw [hretained, hlast]
      exact h.last f payload
    · rcases hparam k c hc with ⟨-, rfl⟩ | hc
      · obtain ⟨hqos, htopic, hmessage⟩ := hd
        refine ⟨hqos, ?_⟩
        show j.packet.willTopic.length + j.packet.willMessage.length + 4 ≤ _
        omega
      · exact h.will hc
  rcases hcases with ⟨-, -, -, hw⟩ | ⟨-, -, -, hw⟩
  · have hresub : Retention.rel v (v.resubscribe ((j.client w).setSessionPtr r)) := by
      refine retention_of_same (v.retainedAt_resubscribe _) ?_ fun k c hc => ?_
      · rw [World.resubscribe_eq]
        rfl
      · rw [World.resubscribe_eq] at hc
        exact hc
    rw [hw]
    exact rel_redeliver (F := Retention) (fun w => retention_modifySession w _ _)
      (fun w => retention_modifySession w _ _) (fun w p => retention_record w fun _ _ => rfl) _
      (hresub hv)
  · rwa [hw]

theorem retainedInv_start : World.start.RetainedInv := ⟨
  fun h => by simp [World.start, World.retainedAt, World.topicAt] at h,
  fun f payload => by simp [World.start, World.retainedAt, World.topicAt, World.lastRetain],
  fun h => by cases h⟩

theorem retainedInv_step (hst : (broker cfg).step w e = some w') (h : w.RetainedInv) :
    w'.RetainedInv := by
  refine retention_handlerFrame.step hst (fun _ m _ _ hd =>
    retention_forwardPublish _ ⟨hd.1, by have := hd.2.2.2; omega⟩) ?_
  rcases received_cases cfg w e with ⟨j, hj, hw⟩ | ⟨-, ⟨packet, -, hw⟩ | ⟨c, p, -, -, -, hw⟩ | hw⟩
  · rw [hw]
    obtain ⟨hp, -⟩ := joining_eq_some hj
    exact retention_joined h j (isSome_contexts_of_joining hst hj)
      (decoded_of_admits hp ((step_eq_some cfg).1 hst).1).2
  · rw [hw]
    exact retention_greet w _ packet h
  · rw [hw]
    exact retention_served w _ c p h
  · rwa [hw]

theorem retainedInv_of_reachable (h : (broker cfg).Reachable w) : w.RetainedInv :=
  h.invariant retainedInv_start fun _ _ _ hw hst => retainedInv_step hst hw

end MqttBroker
