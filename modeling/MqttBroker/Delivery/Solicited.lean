import MqttBroker.Delivery.Conversation
import MqttBroker.Delivery.Grants
import MqttBroker.Directory.Backing

/-!
# Nothing unsolicited

No client is sent a message it did not ask for. What `mqtt_client::publish` is asked
for in a call (`World.due`) goes to clients whose sessions list a subscription that
the topic comes under, at most with its QoS, or from `$sys/trash` to an admin
(`solicits_due`). So every PUBLISH that a call writes is of this kind, or it is sent
again to a client that resumes its session (`publishes_solicited`).
-/

namespace MqttBroker

open Prog

variable {cfg : Config} {w v w' : World} {e : Event} {l : List (World × Event)} {k : ChannelId}
  {c : MqttClient} {m : MqttPublish} {j : Joining}

/-- The subscription is for a topic. -/
def Subscription.Covers (sub : Subscription) (topicName : Bytes) : Prop :=
  if sub.isWild then topicMatch sub.topicFilter topicName = true else topicName = sub.topicFilter

/-- The session of the client lists a subscription for a topic with the QoS, or a greater
    one; or the client is an admin, and the topic `$sys/trash`. -/
def World.Solicits (w : World) (c : MqttClient) (topicName : Bytes) (qos : Nat) : Prop :=
  (∃ sub ∈ (w.session c.session).subscriptions, sub.Covers topicName ∧ qos ≤ sub.maxQos) ∨
    topicName = sysTrash ∧ c.admin = true

/-- A message that a session holds is sent again in a call, marked, to the client that
    resumes the session. -/
def World.Redelivers (cfg : Config) (w : World) (e : Event) (k : ChannelId) (m : MqttPublish) : Prop :=
  ∃ j ∈ w.joining cfg e, j.channelId = k ∧ ∃ s ∈ w.storedSession j,
    ∃ p ∈ (w.session s).publishForAck ++ (w.session s).publishForRec, m = p.setDup

/-- In a call, a PUBLISH is written to the channel of a client that the broker has, or
    lets in, and that it is due to. -/
def World.DeliversTo (cfg : Config) (w : World) (e : Event) (k : ChannelId) (m : MqttPublish)
    (c : MqttClient) : Prop :=
  (w.Holds c ∨ ∃ j, w.joining cfg e = some j ∧ c = w.newcomer j) ∧
    ∃ x : Delivered, x.toDelivery ∈ w.due cfg e ∧ x.client = c ∧ x.written = (k, .publish m)

/-! ## `$sys/trash` -/

/-- Only admins are subscribers of `$sys/trash`. -/
def World.TrashForAdmins (w : World) : Prop := ∀ s ∈ w.subscribersAt .trash, s.client.admin = true

theorem trashForAdmins_of_trash (h : w'.trashTopic = w.trashTopic) :
    (Frame.keeping World.TrashForAdmins).rel w w' := by
  intro hw s hs
  refine hw s ?_
  rwa [World.subscribersAt, World.topicAt, h] at hs

theorem trashForAdmins_publishFrame : PublishFrame (Frame.keeping World.TrashForAdmins) where
  counter _ _ _ := trashForAdmins_of_trash rfl
  publish _ maxQos retained _ := within_publish (fun _ _ => trashForAdmins_of_trash rfl)
    (fun _ _ => trashForAdmins_of_trash rfl) (fun _ _ _ => trashForAdmins_of_trash rfl) maxQos retained
  store p m w hw s hs := by
    rw [w.subscribersAt_storeRetained] at hs
    exact hw s hs
  noteWill _ _ := trashForAdmins_of_trash rfl
  note retain topicName payload w := trashForAdmins_of_trash (by rw [World.noteRetain_eq])

theorem trashForAdmins_handlerFrame : HandlerFrame (Frame.keeping World.TrashForAdmins) where
  channels h _ := trashForAdmins_of_trash (by rw [h])
  write _ _ _ _ := trashForAdmins_of_trash rfl
  retained := trashForAdmins_publishFrame.publishRetainedMessage
  will {w w' _ c} _ hrun := by
    have hrel := trashForAdmins_publishFrame.publishWillMessage c w
    rwa [hrun] at hrel
  subscribe {w k c entry} _ _ _ _ := by
    refine trashForAdmins_of_trash ?_
    show (w.subscribe c _ _ _).trashTopic = w.trashTopic
    rw [World.subscribe_eq]
  subscribeTrash {w k c} _ hadmin hw s hs := by
    -- The entries of `$sys/trash` are the admin's, and those that were there.
    have hs : s ∈ (w.trashTopic.clients.put ⟨c, 2⟩).elems := hs
    rcases Keyed.mem_put.1 hs with rfl | ⟨hs, -⟩
    · exact hadmin
    · exact hw s hs
  unsubscribe {w k c entry} _ _ := by
    refine trashForAdmins_of_trash ?_
    rw [World.unsubscribeEntry]
    split
    · rfl
    · show (w.unsubscribe c _ _).trashTopic = w.trashTopic
      rw [World.unsubscribe_eq]
  leave {w k c} _ := trashForAdmins_of_trash (by rw [World.remove_eq]; rfl)

theorem trashForAdmins_step (hst : (broker cfg).step w e = some w') (h : w.TrashForAdmins) :
    w'.TrashForAdmins := by
  refine trashForAdmins_handlerFrame.step hst (fun _ m _ _ _ =>
    trashForAdmins_publishFrame.forwardPublish _ m) ?_
  refine trashForAdmins_of_trash ?_ h
  rcases received_cases cfg w e with ⟨j, hj, hw⟩ | ⟨-, ⟨packet, -, hw⟩ | ⟨c, p, -, -, -, hw⟩ | hw⟩ <;>
    rw [hw]
  · obtain ⟨s, _, v, -, -, -, ⟨-, hv⟩, ⟨-, -, -, hw⟩ | ⟨-, -, -, hw⟩⟩ :=
      joined_cases cfg w j (isSome_contexts_of_joining hst hj)
    · rw [hw, World.redeliver_eq, World.resubscribe_eq]
      exact hv
    · rw [hw, hv]
  · exact (w.topics_greet _ cfg packet).2
  · rw [served_eq]

theorem trashForAdmins_of_reachable (h : (broker cfg).Reachable w) : w.TrashForAdmins :=
  h.invariant (I := World.TrashForAdmins) (fun _ hs => absurd hs List.not_mem_nil)
    fun _ _ _ hw hst => trashForAdmins_step hst hw

/-! ## What is due was asked for -/

/-- A subscriber of a topic asked for what is published there. -/
theorem solicits_of_subscriber (h : (broker cfg).Reachable w) {b : Bool} {f topicName : Bytes}
    {s : Subscriber} (hs : s ∈ w.subscribersAt (.entry b f)) {qos : Nat} (hq : qos ≤ s.maxQos)
    (hcovers : (⟨f, s.maxQos, b⟩ : Subscription).Covers topicName) :
    w.Solicits s.client topicName qos :=
  .inl ⟨⟨f, s.maxQos, b⟩, subscription_of_subscriber h hs, hcovers, hq⟩

theorem World.Solicits.of_subscriptions {topicName : Bytes} {qos : Nat}
    (h : w.Solicits c topicName qos)
    (hsub : ∀ s, (w'.session s).subscriptions = (w.session s).subscriptions) :
    w'.Solicits c topicName qos := by
  rwa [World.Solicits, hsub]

/-- Making deliveries leaves the subscriptions. -/
theorem World.Makes.subscriptions {ds : List Delivery} (h : w.Makes ds w') (s : SessionRef) :
    (w'.session s).subscriptions = (w.session s).subscriptions := by
  obtain ⟨xs, -, hdelivers⟩ := h
  rw [hdelivers.session]

/-- A message is delivered to those who asked for it. -/
theorem solicits_deliveries (h : (broker cfg).Reachable w) (it : Iteration) (m : MqttPublish)
    {d : Delivery} (hd : d ∈ w.deliveries it m) : w.Solicits d.client d.topicName d.qos := by
  rcases List.mem_append.1 hd with hd | hd
  · rw [forwards_eq_map] at hd
    obtain ⟨⟨p, s⟩, hx, rfl⟩ := List.mem_map.1 hd
    obtain ⟨hs, b, f, rfl, hreach⟩ := mem_recipients.1 hx
    refine solicits_of_subscriber h hs (min_le_right _ _) ?_
    cases b with
    | true => exact hreach
    | false => exact Eq.symm hreach
  · split_ifs at hd
    · exact absurd hd List.not_mem_nil
    · obtain ⟨s, hs, rfl⟩ := List.mem_map.1 hd
      exact .inr ⟨(sys_of_reachable h).trash, trashForAdmins_of_reachable h s hs⟩

/-- The retained messages for a filter are delivered to a client that is entered for it. -/
theorem solicits_retainedDeliveries (h : (broker cfg).Reachable w')
    (hretained : ∀ f m, v.retainedAt f = some m → m.topicName = f)
    (hsubscribers : w'.subscribersAt = v.subscribersAt) {it : Iteration} {b : Bool} {f : Bytes}
    {q : Nat} (hs : v.subscriberAt (.entry b f) c.clientId = some ⟨c, q⟩) {d : Delivery}
    (hd : d ∈ v.retainedDeliveries it c b f) : w'.Solicits d.client d.topicName d.qos := by
  obtain ⟨m, hm, rfl⟩ := List.mem_map.1 hd
  obtain ⟨topicName, hmatch, hret⟩ := (mem_retainedMatching it ⟨f, q, b⟩ m).1 hm
  obtain rfl := hretained _ _ hret
  have hentered : (⟨c, q⟩ : Subscriber) ∈ w'.subscribersAt (.entry b f) := by
    rw [hsubscribers]
    exact mem_subscribersAt_iff.2 hs
  have hqos : (v.asSubscriber c (.entry b f)).maxQos = q := by
    rw [World.asSubscriber, hs]
    rfl
  exact solicits_of_subscriber h hentered (hqos ▸ min_le_right _ _) hmatch

/-- The will of a client whose channel is lost is delivered to those who asked for it. -/
theorem solicits_willDeliveries (h : (broker cfg).Reachable w)
    (hst : (broker cfg).step w e = some w') (he : e.action = .disconnected k)
    (hc : w.param k = some c) (hwill : c.willFlag = true) {d : Delivery}
    (hd : d ∈ w.willDeliveries c) : w'.Solicits d.client d.topicName d.qos := by
  obtain ⟨s, hs, rfl⟩ := List.mem_map.1 hd
  have hsolicits : w.Solicits s.client c.willTopic (min c.willQos s.maxQos) :=
    solicits_of_subscriber h hs (min_le_right _ _) rfl
  refine hsolicits.of_subscriptions fun r => ?_
  obtain ⟨u, hrun, rfl⟩ := step_disconnected hst he hc
  obtain ⟨hqos, hsize⟩ := (retainedInv_of_reachable h).will hc
  obtain ⟨-, next, hmakes⟩ :=
    (settles_publishWillMessage hwill hqos hsize w).returns.of_value hrun
  have hnoted : ((w.willNoted c next).session r).subscriptions = (w.session r).subscriptions := by
    rw [World.willNoted, World.session_modifySession, World.noteWill_eq]
    split_ifs with hr
    · rw [hr]
    · rfl
  show ((u.remove c).session r).subscriptions = _
  rw [World.remove_eq]
  exact (hmakes.subscriptions r).trans hnoted

/-- The retained messages for the subscriptions of a resumed session. -/
theorem solicits_resumeDeliveries (h : (broker cfg).Reachable w)
    (hst : (broker cfg).step w e = some w') (hj : w.joining cfg e = some j) {s : SessionRef}
    (hs : w.Resumes j s) {d : Delivery} (hd : d ∈ w.resumeDeliveries cfg e.iteration j s) :
    w'.Solicits d.client d.topicName d.qos := by
  have hk := isSome_contexts_of_joining hst hj
  have hdecoded := (decoded_of_admits (joining_eq_some hj).1 ((step_eq_some cfg).1 hst).1).2
  have hretained : (w.joined cfg j).RetainedInv :=
    retention_joined (retainedInv_of_reachable h) j hk hdecoded
  obtain ⟨sub, hsub, hd⟩ := List.mem_flatMap.1 hd
  have hmem : sub ∈ (w.session s).subscriptions := by
    rcases List.mem_append.1 hsub with hsub | hsub <;> exact (List.mem_filter.1 hsub).1
  exact solicits_retainedDeliveries (h.step hst) (fun _ _ hm => (hretained.message hm).1)
    (step_resumes h hst hj hs).subscribersAt ((subscriberAt_joined cfg hs hk).2 sub hmem) hd

/-- The retained messages for the granted entries of a SUBSCRIBE. -/
theorem solicits_subscribeDeliveries (h : (broker cfg).Reachable w)
    (hst : (broker cfg).step w e = some w') {p : MqttSubscribe}
    (hp : e.packet = some (.subscribe p)) (hc : w.param e.action.channelId = some c) {d : Delivery}
    (hd : d ∈ w.subscribeDeliveries e.iteration e.action.channelId c p) :
    w'.Solicits d.client d.topicName d.qos := by
  have hinv := retainedInv_of_reachable h
  have hretained : (w.granted e.action.channelId c p).retainedAt = w.retainedAt :=
    retainedAt_entered (w.record (.handled c (.subscribe p))) c p.topicFilters
  have hmakes : (w.granted e.action.channelId c p).Makes
      (w.subscribeDeliveries e.iteration e.action.channelId c p) w' := by
    refine returns_step hst hp ?_
    show Returns (handleSubscribe e.iteration e.action.channelId p) _ w
    exact (settles_handleSubscribe hinv hc e.iteration p).returns.mono fun _ _ h => h.2
  obtain ⟨entry, hentry, hd⟩ := List.mem_flatMap.1 hd
  obtain ⟨hin, hgranted⟩ := mem_granted hentry
  obtain ⟨q, hq⟩ := exists_subscriberAt_granted w e.action.channelId c hin hgranted
  exact solicits_retainedDeliveries (h.step hst)
    (fun f m hm => (hinv.message (hretained ▸ hm)).1) hmakes.subscribersAt hq hd

/-- What is due in a call goes to those who asked for it. -/
theorem solicits_due (h : (broker cfg).Reachable w) (hst : (broker cfg).step w e = some w')
    {d : Delivery} (hd : d ∈ w.due cfg e) : w'.Solicits d.client d.topicName d.qos := by
  rw [World.due] at hd
  cases hj : w.joining cfg e with
  | some j =>
    simp only [hj] at hd
    cases hs : w.storedSession j with
    | none => simp [hs] at hd
    | some s =>
      rw [hs] at hd
      exact solicits_resumeDeliveries h hst hj (storedSession_eq_some.1 hs) hd
  | none =>
    simp only [hj] at hd
    cases hc : w.param e.action.channelId with
    | none => simp [hc] at hd
    | some c =>
      rw [hc] at hd
      have hd : d ∈ w.dueFor e c := hd
      rw [World.dueFor] at hd
      split at hd
      · next m hp =>
        refine (solicits_deliveries h e.iteration m hd).of_subscriptions fun s => ?_
        obtain ⟨hm, hsize⟩ := sendable_of_decoded h (decoded_of_admits hp ((step_eq_some cfg).1 hst).1).2
        have hmakes : (w.accepted e.action.channelId c m).Makes (w.deliveries e.iteration m) w' := by
          refine returns_step hst hp ?_
          show Returns (handlePublish e.iteration e.action.channelId m) _ w
          exact (settles_handlePublish hm hsize hc e.iteration).returns.mono fun _ _ h => h.2
        rw [hmakes.subscriptions, session_accepted]
      · next p hp => exact solicits_subscribeDeliveries h hst hp hc hd
      · exact absurd hd List.not_mem_nil
      · split_ifs at hd with hlost
        · exact solicits_willDeliveries h hst hlost.1 hc hlost.2 hd
        · exact absurd hd List.not_mem_nil

/-! ## Steps and runs -/

/-- An answer that is a PUBLISH is one that is sent again. -/
theorem redelivers_of_mem_answers (hm : (k, .publish m) ∈ w.answers cfg e) :
    w.Redelivers cfg e k m := by
  rw [World.answers] at hm
  cases hj : w.joining cfg e with
  | some j =>
    simp only [hj] at hm
    obtain ⟨p, hp, heq⟩ := List.mem_map.1 hm
    obtain ⟨rfl, rfl⟩ := Prod.mk.inj heq
    rw [World.welcome] at hp
    cases hs : w.storedSession j with
    | none => simp [hs] at hp
    | some s =>
      refine ⟨j, hj, rfl, s, hs, ?_⟩
      simp only [hs, List.mem_cons, List.mem_append, List.mem_map, reduceCtorEq, false_or,
        or_false, and_false, exists_false, Packet.publish.injEq] at hp ⊢
      rcases hp with ⟨p, hp, rfl⟩ | ⟨p, hp, rfl⟩
      · exact ⟨p, .inl hp, rfl⟩
      · exact ⟨p, .inr hp, rfl⟩
  | none =>
    simp only [hj] at hm
    have hnone : ∀ (c : MqttClient) (p : Packet), (k, .publish m) ∉ p.answers e.action.channelId c := by
      intro c p hp
      cases p with
      | publish m' =>
        rw [Packet.answers, MqttPublish.answer] at hp
        split_ifs at hp <;> simp at hp
      | _ => simp [Packet.answers] at hp
    split at hm
    · exact absurd hm List.not_mem_nil
    · simp at hm
    · cases hc : w.param e.action.channelId with
      | none => simp [hc] at hm
      | some c =>
        rw [hc] at hm
        exact absurd hm (hnone c _)

/-- What is written in a run its calls write, and every PUBLISH that a call writes is sent
    again to a client that resumes its session, or goes to one that asked for it. -/
theorem publishes_solicited (h : (broker cfg).Run l w) :
    w.written = l.flatMap (fun x => x.1.writes cfg x.2) ∧ ∀ v e, (v, e) ∈ l →
      ∃ v', (broker cfg).step v e = some v' ∧ ∀ k m, (k, .publish m) ∈ v.writes cfg e →
        v.Redelivers cfg e k m ∨
          ∃ c, v.DeliversTo cfg e k m c ∧ v'.Solicits c m.topicName m.qos := by
  refine ⟨written_eq_flatMap h, fun v e hmem => ?_⟩
  obtain ⟨hv, v', hst⟩ := h.of_mem hmem
  refine ⟨v', hst, fun k m hm => ?_⟩
  obtain ⟨xs, hxs, hwritten, -⟩ := replied_of_step hv hst
  rw [writes_of_written hst hwritten] at hm
  rcases List.mem_append.1 hm with hm | hm
  · exact .inl (redelivers_of_mem_answers hm)
  · obtain ⟨x, hx, heq⟩ := List.mem_map.1 hm
    have hdue : x.toDelivery ∈ v.due cfg e := hxs ▸ List.mem_map_of_mem hx
    refine .inr ⟨x.client, ⟨client_of_mem_due hdue, x, hdue, rfl, heq⟩, ?_⟩
    obtain rfl := Packet.publish.inj (Prod.mk.inj heq).2
    obtain ⟨-, hqos, -, htopic, -⟩ := mqttPublish_eq_ok x.built
    rw [hqos, htopic]
    exact solicits_due hv hst hdue

/-- A message comes to a client that subscribed with a wildcard. -/
theorem publishes_solicited_wild : ∃ l v e v', (broker mqttdCfg).Run (l ++ [(v, e)]) v' ∧
    v.joining mqttdCfg e = none ∧ ∃ m, (1, .publish m) ∈ v.writes mqttdCfg e ∧
      (v.Redelivers mqttdCfg e 1 m ∨
        ∃ c, v.DeliversTo mqttdCfg e 1 m c ∧ v'.Solicits c m.topicName m.qos) := by
  have hruns : runs (fun _ _ => true) [.accept 1, .accept 2, .read 1 (connectBytes 0x02 [0x61] []),
      .read 2 (connectBytes 0x02 [0x62] []), .read 1 (subscribeBytes [0x61, 0x2f, 0x2b] 1)]
      (fun v => ((broker mqttdCfg).step v
        (Action.read 2 (publishBytes 2 [0x61, 0x2f, 0x62] [0x00, 0x07] [])).event).any fun _ =>
          (v.joining mqttdCfg
            (Action.read 2 (publishBytes 2 [0x61, 0x2f, 0x62] [0x00, 0x07] [])).event).isNone &&
          (v.writes mqttdCfg
            (Action.read 2 (publishBytes 2 [0x61, 0x2f, 0x62] [0x00, 0x07] [])).event).any fun x =>
              decide (x.1 = 1) && x.2.toPublish.isSome) = true := by
    decide +kernel
  obtain ⟨l, v, v', hl, -, hst, hp⟩ := exists_run_step hruns
  obtain ⟨hj, hp⟩ := Bool.and_eq_true_iff.1 hp
  obtain ⟨⟨k, p⟩, hmem, hp⟩ := List.any_eq_true.1 hp
  obtain ⟨hk, hp⟩ := Bool.and_eq_true_iff.1 hp
  obtain rfl : k = 1 := of_decide_eq_true hk
  have hl := hl.step hst
  cases p with
  | publish m =>
    obtain ⟨v'', hst', hsolicited⟩ := (publishes_solicited hl).2 v _
      (List.mem_append_right _ (List.mem_singleton_self _))
    obtain rfl := Option.some.inj (hst.symm.trans hst')
    exact ⟨l, v, _, v', hl, Option.isNone_iff_eq_none.1 hj, m, hmem, hsolicited 1 m hmem⟩
  | _ => cases hp

end MqttBroker
