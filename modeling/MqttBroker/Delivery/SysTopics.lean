import MqttBroker.Delivery.Posting
import MqttBroker.Delivery.Topics

/-!
# Topics for admins

Only admins may subscribe to `$sys/trash`, the one topic whose name begins with a
dollar, and the broker publishes to it alone (`World.SysInv`). Its PUBLISHes stay
with admins (`World.AdminsOnly`) but in two ways, one step at a time
(`adminsOnly_iff`): a subscriber of `$sys/trash` is never taken out of it, and
its channel may come to another client; and a session keeps what was sent to an
admin, and may be resumed by a client that is none.
-/

namespace MqttBroker

open Prog

/-- A PUBLISH of a topic for admins is written to a client that is no admin. -/
def Sent.Leaks (x : Sent) : Prop :=
  x.topicName.head? = some dollar ∧ ∃ c ∈ x.holder, c.admin = false

/-- What is published to `$`-topics is written to admins only. -/
def World.AdminsOnly (w : World) : Prop := ∀ x ∈ w.sent, ¬x.Leaks

/-- No topic of the tables, retained message or subscription begins with a
    dollar, and `_trash_topic` is `$sys/trash`. -/
structure World.SysInv (w : World) : Prop where
  topic {f} : (w.topicAt (.entry false f)).isSome → f.head? ≠ some dollar
  retained {f m} : w.retainedAt f = some m → m.topicName.head? ≠ some dollar
  subscription {s sub} : sub ∈ (w.session s).subscriptions → sub.topicFilter.head? ≠ some dollar
  trash : w.trashTopic.topicFilter = sysTrash

variable {cfg : Config} {w v w' : World} {e : Event} {l : List (World × Event)} {q : Prop}

/-! ## The rest of a step -/

/-- The invariant is kept and, if `q` holds, nothing is published to `$`-topics. -/
def SysFrame (q : Prop) : Frame World where
  rel w w' := w.SysInv → w'.SysInv ∧
    (q → ∃ xs, w'.sent = w.sent ++ xs ∧ ∀ x ∈ xs, x.topicName.head? ≠ some dollar)
  refl w h := ⟨h, fun _ => ⟨[], (List.append_nil _).symm, by simp⟩⟩
  trans {s t u} h₁ h₂ hs := by
    obtain ⟨ht, hst⟩ := h₁ hs
    obtain ⟨hu, htu⟩ := h₂ ht
    refine ⟨hu, fun hq => ?_⟩
    obtain ⟨xs, hxs, hx⟩ := hst hq
    obtain ⟨ys, hys, hy⟩ := htu hq
    refine ⟨xs ++ ys, by rw [hys, hxs, List.append_assoc], fun x hmem => ?_⟩
    exact (List.mem_append.1 hmem).elim (hx x) (hy x)

/-- Where nothing is published, and nothing new comes into the tables. -/
theorem sys_of_less (hsent : w'.sent = w.sent)
    (htopic : ∀ f, (w'.topicAt (.entry false f)).isSome → (w.topicAt (.entry false f)).isSome)
    (hretained : w'.retainedAt = w.retainedAt)
    (hsub : ∀ s sub, sub ∈ (w'.session s).subscriptions → sub ∈ (w.session s).subscriptions)
    (htrash : w'.trashTopic.topicFilter = w.trashTopic.topicFilter) : (SysFrame q).rel w w' := by
  refine fun h => ⟨⟨fun hf => h.topic (htopic _ hf), fun hm => ?_,
    fun hs => h.subscription (hsub _ _ hs), htrash.trans h.trash⟩,
    fun _ => ⟨[], hsent.trans (List.append_nil _).symm, by simp⟩⟩
  rw [hretained] at hm
  exact h.retained hm

/-- Where nothing is published, and the tables stay. -/
theorem sys_of_same (hsent : w'.sent = w.sent) (htopics : w'.topics = w.topics)
    (htrash : w'.trashTopic = w.trashTopic) (hsession : w'.session = w.session) :
    (SysFrame q).rel w w' := by
  have htopic : ∀ f, w'.topicAt (.entry false f) = w.topicAt (.entry false f) := by
    intro f
    rw [World.topicAt, htopics]
    rfl
  refine sys_of_less hsent (fun f hf => by rwa [htopic] at hf) ?_ (by simp [hsession]) (by rw [htrash])
  funext f
  rw [World.retainedAt, htopic]
  rfl

theorem sys_record (w : World) {e : Effect} (h : e.sent = none) :
    (SysFrame q).rel w (w.record e) := sys_of_same (sent_record w h) rfl rfl rfl

/-- A session whose subscriptions become fewer. -/
theorem sys_modifySession (w : World) (s : SessionRef) {f : Session → Session}
    (hf : ∀ sub, sub ∈ (f (w.session s)).subscriptions → sub ∈ (w.session s).subscriptions) :
    (SysFrame q).rel w (w.modifySession s f) := by
  refine sys_of_less rfl (fun _ hf => hf) rfl (fun s' sub hsub => ?_) rfl
  rw [World.session_modifySession] at hsub
  split_ifs at hsub with hs
  · rw [hs]
    exact hf sub hsub
  · exact hsub

/-- A PUBLISH is written, and not one of a `$`-topic if `q` holds. -/
theorem sys_write_publish (w : World) (k : ChannelId) {p : MqttPublish}
    (hp : q → p.topicName.head? ≠ some dollar) :
    (SysFrame q).rel w (w.write k (.publish p)) := by
  intro h
  refine ⟨⟨h.topic, h.retained, h.subscription, h.trash⟩, fun hq =>
    ⟨_, List.filterMap_append, fun x hx => ?_⟩⟩
  obtain rfl := List.mem_singleton.1 hx
  exact hp hq

theorem sys_publish {m : MqttPublish} (hm : q → m.topicName.head? ≠ some dollar)
    (client : MqttClient) (maxQos : Nat) (retained : Bool) :
    Within (SysFrame q) (client.publish maxQos retained m) := by
  refine within_publish (fun w _ => sys_modifySession w _ fun _ h => h) (fun w p => ?_)
    (fun w p hp => sys_write_publish w _ (hp ▸ hm)) maxQos retained
  refine (SysFrame q).trans (sys_record w rfl) (sys_modifySession _ _ fun sub hsub => ?_)
  split_ifs at hsub <;> exact hsub

/-- A message of another topic is stored. -/
theorem sys_storeRetained (w : World) (p : TopicPtr) {m : MqttPublish}
    (hm : m.retain = true → m.topicName.head? ≠ some dollar) :
    (SysFrame q).rel w (w.storeRetained p m) := by
  have heq := w.storeRetained_eq p m
  refine fun h => ⟨⟨fun hf => ?_, fun {f m'} hret => ?_, fun hs => ?_, ?_⟩,
    fun _ => ⟨[], ?_, by simp⟩⟩
  · rw [World.isSome_topicAt_storeRetained] at hf
    exact h.topic hf
  · rw [World.retainedAt_storeRetained] at hret
    split_ifs at hret with hp hempty
    · cases hret
      exact hm hp.1
    · exact h.retained hret
  · rw [heq] at hs
    exact h.subscription hs
  · rw [World.trashTopic_storeRetained, h.trash]
  · rw [List.append_nil, heq]
    rfl

theorem sys_publishTopic {m : MqttPublish} (p : TopicPtr) (hq : q → m.topicName.head? ≠ some dollar)
    (hretain : m.retain = true → m.topicName.head? ≠ some dollar) :
    Within (SysFrame q) (publishTopic p m) :=
  within_publishTopic (fun w => sys_storeRetained w p hretain)
    fun client maxQos => sys_publish hq client maxQos false

theorem sys_noteRetain (w : World) (retain : Bool) (topicName payload : Bytes) :
    (SysFrame q).rel w (w.noteRetain retain topicName payload) :=
  rel_noteRetain (fun _ => sys_record w rfl) retain

theorem sys_newPacketId (s : SessionRef) : Within (SysFrame q) (newPacketId s) :=
  within_newPacketId fun w _ => sys_modifySession w s fun _ h => h

theorem sys_forwardPublish (it : Iteration) {m : MqttPublish}
    (hm : m.topicName.head? ≠ some dollar) : Within (SysFrame False) (forwardPublish it m) :=
  within_forwardPublish it (fun w => sys_noteRetain w _ _ _)
    (sys_publishTopic _ False.elim fun _ => hm) (fun _ => sys_publishTopic _ False.elim fun _ => hm)
    fun _ hp => sys_publishTopic _ False.elim fun h => absurd (hp.symm.trans h) Bool.false_ne_true

/-- Publishing to a topic that is not there does nothing. -/
theorem publishTopic_of_none {p : TopicPtr} {m : MqttPublish} (h : w.topicAt p = none) :
    publishTopic p m w = (.value false, w) := by
  have hstore : w.storeRetained p m = w := by
    rw [World.storeRetained, World.modifyTopic, h, ite_self]
  rw [publishTopic, modify_bind_apply, hstore, get_bind_apply, h]
  rfl

/-- A will cannot be for a `$`-topic, which is not there. -/
theorem sys_publishWillMessage (c : MqttClient) :
    Within (SysFrame q) (publishWillMessage c) := by
  refine within_publishWillMessage (fun w => sys_record w rfl) (fun w => sys_noteRetain w _ _ _)
    (sys_newPacketId _) fun p hp w h => ?_
  by_cases hd : c.willTopic.head? = some dollar
  · have hnone : w.topicAt (.entry false c.willTopic) = none :=
      Option.not_isSome_iff_eq_none.1 fun hs => h.topic hs hd
    rw [publishTopic_of_none hnone]
    exact (SysFrame q).refl w h
  · rw [← hp] at hd
    exact sys_publishTopic _ (fun _ => hd) (fun _ => hd) w h

theorem sys_publishRetainedMessage (it : Iteration) (k : ChannelId) (fs gs : List Bytes) :
    Within (SysFrame q) (publishRetainedMessage it k fs gs) := by
  refine within_publishRetainedMessage it k fs gs fun w f t m ht hm => ?_
  by_cases hd : m.topicName.head? = some dollar
  · exact .inr fun w' h => absurd hd (h.retained (w.retainedAt_eq_some.2 ⟨t, ht, hm⟩))
  · exact .inl fun client maxQos => sys_publish (fun _ => hd) client maxQos true

/-- A filter that begins with no dollar is subscribed to. -/
theorem sys_subscribe (w : World) (c : MqttClient) {f : Bytes} (hf : f.head? ≠ some dollar)
    (maxQos : Nat) (b : Bool) : (SysFrame q).rel w (w.subscribe c f maxQos b) := by
  have heq := w.subscribe_eq c f maxQos b
  refine fun h => ⟨⟨fun {g} hg => ?_, fun hm => ?_, fun hs => ?_, ?_⟩, fun _ => ⟨[], ?_, by simp⟩⟩
  · rw [World.topicAt_subscribe] at hg
    split_ifs at hg with hp
    · rwa [hp.2]
    · exact h.topic hg
  · rw [World.retainedAt_subscribe] at hm
    exact h.retained hm
  · rw [heq] at hs
    exact h.subscription hs
  · rw [heq]
    exact h.trash
  · rw [List.append_nil, heq]
    rfl

theorem sys_addSubscription (w : World) (s : SessionRef) {f : Bytes} (hf : f.head? ≠ some dollar)
    (maxQos : Nat) (b : Bool) :
    (SysFrame q).rel w (w.modifySession s fun t => t.addSubscription f maxQos b) := by
  refine fun h => ⟨⟨h.topic, h.retained, fun {s' sub} hs => ?_, h.trash⟩,
    fun _ => ⟨[], (List.append_nil _).symm, by simp⟩⟩
  rw [World.session_modifySession] at hs
  split_ifs at hs with he
  · rcases Keyed.mem_put.1 hs with rfl | ⟨hs, -⟩
    · exact hf
    · exact h.subscription hs
  · exact h.subscription hs

theorem sys_unsubscribe (w : World) (c : MqttClient) (f : Bytes) (b : Bool) :
    (SysFrame q).rel w (w.unsubscribe c f b) := by
  have heq := w.unsubscribe_eq c f b
  refine sys_of_less (by rw [World.sent, heq, World.sent]) (fun g hg => ?_)
    (w.retainedAt_unsubscribe c f b) (fun s sub hs => ?_) (by rw [heq])
  · rw [World.topicAt_unsubscribe] at hg
    split_ifs at hg with hp
    · obtain ⟨rfl, rfl⟩ := hp
      cases ht : w.topicAt (.entry false g) with
      | none => simp [ht] at hg
      | some t => rfl
    · exact hg
  · rw [heq] at hs
    exact hs

theorem sys_handlerFrame : HandlerFrame (SysFrame q) where
  channels h _ := by
    refine sys_of_same ?_ ?_ ?_ ?_ <;> rw [h]
    rfl
  write w k p hp := by
    refine sys_record w ?_
    cases p with
    | publish m => exact absurd rfl (hp m)
    | _ => rfl
  retained it k fs gs := sys_publishRetainedMessage it k fs gs
  will {w _ _ c} _ hrun := by
    have hrel := sys_publishWillMessage (q := q) c w
    rwa [hrun] at hrel
  subscribe {w k c entry} _ _ _ hd := (SysFrame q).trans
    (sys_subscribe w c hd entry.maxQos entry.isWild) (sys_addSubscription _ c.session hd _ _)
  subscribeTrash _ _ := sys_of_less rfl (fun _ hf => hf) rfl (fun _ _ hs => hs) rfl
  unsubscribe {w k c entry} _ _ := by
    rw [World.unsubscribeEntry]
    split
    · exact (SysFrame q).refl w
    · exact (SysFrame q).trans (sys_unsubscribe w c _ _)
        (sys_modifySession _ _ fun _ hs => (Keyed.mem_erase.1 hs).1)
  leave {w k c} _ := by
    refine (SysFrame q).trans (sys_of_same rfl rfl rfl rfl : (SysFrame q).rel w (w.setParam k none)) ?_
    refine (SysFrame q).trans (rel_unsubscribeAll (fun w f b => sys_unsubscribe w c f b) _) ?_
    rw [World.remove]
    split_ifs <;> exact sys_of_same rfl rfl rfl rfl

/-! ## The beginning of a step -/

theorem sent_served (w : World) (k : ChannelId) (c : MqttClient) (p : Packet) :
    (w.served k c p).sent = w.sent := by
  have hrecord := fun e h => sent_record (e := e) w h
  cases p with
  | publish m =>
    have hreceive : ∀ v : World, (v.receivePublish k c m).sent = v.sent := by
      intro v
      rw [World.receivePublish]
      split_ifs
      · exact sent_record v rfl
      · exact sent_record (v.modifySession _ _) rfl
      · rfl
    exact (hreceive _).trans (hrecord (.handled c (.publish m)) rfl)
  | connect | connack | suback | unsuback | pingresp => rfl
  | _ => exact hrecord _ rfl

theorem sys_served (w : World) (k : ChannelId) (c : MqttClient) (p : Packet) :
    (SysFrame q).rel w (w.served k c p) := by
  refine sys_of_less (sent_served w k c p) ?_ ?_ (fun s sub hs => ?_) ?_
  · rw [served_eq]
    exact fun _ hf => hf
  · rw [served_eq]
    rfl
  · rwa [w.subscriptions_served] at hs
  · rw [served_eq]

theorem sys_greet (w : World) (k : ChannelId) (packet : MqttConnect) :
    (SysFrame q).rel w (w.greet cfg k packet) := by
  rw [World.greet]
  split_ifs <;> exact sys_of_same rfl rfl rfl rfl

/-- What is sent again to a client that resumes its session. -/
theorem sent_redeliver (w : World) (c : MqttClient) : (w.redeliver c).sent = w.sent ++
    ((w.session c.session).publishForAck ++ (w.session c.session).publishForRec).map fun p =>
      ⟨c.channelId, w.param c.channelId, p.retain, p.topicName, p.payload⟩ := by
  have hpublish : ∀ ps : List MqttPublish, ((ps.map fun p => Packet.publish p.setDup).map fun p =>
      Effect.write c.channelId (w.param c.channelId) p).filterMap Effect.sent =
        ps.map fun p => ⟨c.channelId, w.param c.channelId, p.retain, p.topicName, p.payload⟩ := by
    intro ps
    induction ps with
    | nil => rfl
    | cons p ps ih => exact congrArg (_ :: ·) ih
  have hpubrel : ∀ ids : List UInt16, ((ids.map fun id => Packet.pubrel (mqttPubrel id)).map
      fun p => Effect.write c.channelId (w.param c.channelId) p).filterMap Effect.sent = [] := by
    intro ids
    induction ids with
    | nil => rfl
    | cons id ids ih => exact ih
  rw [World.sent, World.log_redeliver, List.filterMap_append, List.map_append, List.map_append,
    List.filterMap_append, List.filterMap_append, hpublish, hpublish, hpubrel, List.append_nil,
    List.map_append]
  rfl

theorem sys_redeliver (w : World) (c : MqttClient) : (SysFrame False).rel w (w.redeliver c) := by
  refine rel_redeliver (fun w => sys_modifySession w _ fun _ h => h)
    (fun w => sys_modifySession w _ fun _ h => h) (fun w p => ?_) w
  cases p with
  | publish m => exact sys_write_publish w _ False.elim
  | _ => exact sys_record w rfl

/-- What an accepted CONNECT sends again. -/
def World.resent (w : World) (j : Joining) : List Sent :=
  if j.packet.cleanSession then [] else
    (w.sessions j.packet.clientId).elim [] fun s =>
      ((w.session s).publishForAck ++ (w.session s).publishForRec).map fun p =>
        ⟨j.channelId, some ((j.client w).setSessionPtr s), p.retain, p.topicName, p.payload⟩

theorem sys_joined (cfg : Config) (h : w.SysInv) (j : Joining) (hk : (w.contexts j.channelId).isSome) :
    (w.joined cfg j).SysInv ∧ (w.joined cfg j).sent = w.sent ++ w.resent j := by
  obtain ⟨r, sessionPresent, v, hparam, -, hlog, ⟨htopics, htrash⟩, hcases⟩ := joined_cases cfg w j hk
  have hsent : v.sent = w.sent := by
    rw [World.sent, hlog, List.filterMap_append]
    exact List.append_nil _
  rcases hcases with ⟨hr, rfl, hsession, hw⟩ | ⟨hnot, rfl, hsession, hw⟩
  · -- A session is resumed: subscribing sends nothing, and all that is sent is sent again.
    have hv := (sys_of_same (q := False) hsent htopics htrash hsession h).1
    have hresub := (rel_resubscribe (F := SysFrame False) (c := (j.client w).setSessionPtr r)
      (fun sub hsub v => sys_subscribe v _ (hv.subscription hsub) _ _) hv).1
    have hsame : (v.resubscribe ((j.client w).setSessionPtr r)).sent = w.sent ∧
        (v.resubscribe ((j.client w).setSessionPtr r)).param = v.param := by
      rw [World.resubscribe_eq]
      exact ⟨hsent, rfl⟩
    rw [hw]
    refine ⟨(sys_redeliver _ _ hresub).1, ?_⟩
    rw [sent_redeliver, World.session_resubscribe, hsame.1, hsame.2, hsession]
    simp only [MqttClient.setSessionPtr_channelId, Joining.client_channelId, hparam,
      MqttClient.setSessionPtr_session, World.resent, hr.1, hr.2, Bool.false_eq_true, if_false,
      Option.elim]
  · -- A new session has nothing to send again, and no subscriptions.
    have hnone : w.resent j = [] := by
      rw [World.resent]
      split_ifs with hc
      · rfl
      · cases hs : w.sessions j.packet.clientId with
        | none => rfl
        | some s => exact absurd ⟨Bool.not_eq_true _ ▸ hc, hs⟩ (hnot s)
    rw [hw, hnone, List.append_nil]
    refine ⟨(sys_of_less (q := False) hsent ?_ ?_ (fun s sub hs => ?_) (by rw [htrash]) h).1, hsent⟩
    · intro f hf
      rwa [World.topicAt, htopics] at hf
    · funext f
      rw [World.retainedAt, World.topicAt, htopics]
      rfl
    · rw [hsession, Function.update_apply] at hs
      split_ifs at hs
      · exact absurd hs (Keyed.not_mem_empty sub)
      · exact hs

/-! ## Steps -/

/-- A step publishes to `$sys/trash` while a subscriber's channel is at a client
    that is no admin, or sends again what was sent to an admin to one that is
    none. -/
def World.Exposes (cfg : Config) (w : World) (e : Event) : Prop :=
  (∃ c ∈ w.param e.action.channelId, ∃ m ∈ e.packet.bind Packet.toPublish,
    w.findsReceiver e.iteration m = false ∧
      ∃ s ∈ w.subscribersAt .trash, ∃ c' ∈ w.param s.client.channelId, c'.admin = false) ∨
  ∃ j ∈ w.joining cfg e, j.admin = false ∧ ∃ x ∈ w.resent j, x.topicName.head? = some dollar

instance (cfg : Config) (w : World) (e : Event) : Decidable (w.Exposes cfg e) :=
  inferInstanceAs (Decidable ((∃ c ∈ w.param e.action.channelId, _) ∨ ∃ j ∈ w.joining cfg e, _))

/-- Writing on keeps PUBLISHes with admins exactly when the new ones do. -/
theorem adminsOnly_append {xs : List Sent} (h : w'.sent = w.sent ++ xs) :
    w'.AdminsOnly ↔ w.AdminsOnly ∧ ∀ x ∈ xs, ¬x.Leaks := by
  rw [World.AdminsOnly, h, List.forall_mem_append]
  rfl

/-- What a frame allows keeps PUBLISHes with admins. -/
theorem adminsOnly_of_frame (h : (SysFrame True).rel w w') (hw : w.SysInv) :
    w'.AdminsOnly ↔ w.AdminsOnly := by
  obtain ⟨xs, hxs, hx⟩ := (h hw).2 trivial
  rw [adminsOnly_append hxs]
  exact ⟨And.left, fun h => ⟨h, fun x hmem hleaks => hx x hmem hleaks.1⟩⟩

theorem sys_step (hst : (broker cfg).step w e = some w') (h : w.SysInv) : w'.SysInv := by
  refine (sys_handlerFrame (q := False).step hst (fun _ m _ _ hd => sys_forwardPublish _ hd.2.2.1)
    ?_).1
  rcases received_cases cfg w e with ⟨j, hj, hw⟩ | ⟨-, ⟨packet, -, hw⟩ | ⟨c, p, -, -, -, hw⟩ | hw⟩
  · rw [hw]
    exact (sys_joined cfg h j (isSome_contexts_of_joining hst hj)).1
  · rw [hw]
    exact (sys_greet (q := False) w _ packet h).1
  · rw [hw]
    exact (sys_served (q := False) w _ c p h).1
  · rwa [hw]

/-- What is exposed by a PUBLISH, and by an accepted CONNECT. -/
theorem exposes_publish_iff {c : MqttClient} {m : MqttPublish} (h : w.SysInv)
    (hp : e.packet = some (.publish m)) (hc : w.param e.action.channelId = some c) :
    w.Exposes cfg e ↔ ∃ x ∈ if w.findsReceiver e.iteration m then [] else w.trashed m, x.Leaks := by
  have hj : w.joining cfg e = none := joining_eq_none cfg w hp fun _ => Packet.noConfusion
  have hleaks : (∃ x ∈ w.trashed m, x.Leaks) ↔
      ∃ s ∈ w.subscribersAt .trash, ∃ c' ∈ w.param s.client.channelId, c'.admin = false := by
    constructor
    · rintro ⟨x, hx, -, c', hc', ha⟩
      obtain ⟨s, hs, rfl⟩ := List.mem_map.1 hx
      exact ⟨s, hs, c', hc', ha⟩
    · rintro ⟨s, hs, c', hc', ha⟩
      refine ⟨_, List.mem_map.2 ⟨s, hs, rfl⟩, ?_, c', hc', ha⟩
      show w.trashTopic.topicFilter.head? = some dollar
      rw [h.trash]
      rfl
  rw [World.Exposes, hc, hp, hj]
  cases hf : w.findsReceiver e.iteration m with
  | true => simp [Packet.toPublish, hf]
  | false => simp [Packet.toPublish, hf, hleaks]

theorem exposes_joining_iff {j : Joining} (hj : w.joining cfg e = some j) :
    w.Exposes cfg e ↔ ∃ x ∈ w.resent j, x.Leaks := by
  have hp := (joining_eq_some hj).1
  have hholder : ∀ x ∈ w.resent j, ∃ s, x.holder = some ((j.client w).setSessionPtr s) := by
    intro x hx
    rw [World.resent] at hx
    split_ifs at hx
    · exact absurd hx List.not_mem_nil
    · cases hs : w.sessions j.packet.clientId with
      | none =>
        rw [hs] at hx
        exact absurd hx List.not_mem_nil
      | some s =>
        rw [hs] at hx
        obtain ⟨p, -, rfl⟩ := List.mem_map.1 hx
        exact ⟨s, rfl⟩
  constructor
  · rintro (⟨c, -, m, hm, -⟩ | ⟨j', hj', hadmin, x, hx, hd⟩)
    · rw [hp] at hm
      cases hm
    · obtain rfl := Option.some.inj (hj.symm.trans hj')
      obtain ⟨s, hs⟩ := hholder x hx
      exact ⟨x, hx, hd, _, hs, hadmin⟩
  · rintro ⟨x, hx, hd, c, hc, hadmin⟩
    obtain ⟨s, hs⟩ := hholder x hx
    obtain rfl := Option.some.inj (hs.symm.trans hc)
    exact .inr ⟨j, hj, hadmin, x, hx, hd⟩

/-- A PUBLISH that finds no receiver is told to the subscribers of `$sys/trash`. -/
theorem adminsOnly_publish (hst : (broker cfg).step w e = some w') (h : w.SysInv)
    (hw : w.AdminsOnly) {c : MqttClient} {m : MqttPublish} (hp : e.packet = some (.publish m))
    (hc : w.param e.action.channelId = some c) : w'.AdminsOnly ↔ ¬w.Exposes cfg e := by
  obtain ⟨hqos, -, hdollar, hsize⟩ := (decoded_of_admits hp ((step_eq_some cfg).1 hst).1).2
  have hv := served_eq w e.action.channelId c (.publish m)
  have hvtrash : (w.served e.action.channelId c (.publish m)).trashTopic = w.trashTopic := by
    rw [hv]
  have hvfinds : (w.served e.action.channelId c (.publish m)).findsReceiver e.iteration m =
      w.findsReceiver e.iteration m := by
    rw [hv]
    rfl
  have hvtrashed : (w.served e.action.channelId c (.publish m)).trashed m = w.trashed m := by
    rw [hv]
    rfl
  have hforward := returns_forwardPublish (w := w.served e.action.channelId c (.publish m))
    (m := m) ⟨hqos, by omega⟩ (by
      rw [hvtrash, h.trash, show sysTrash.length = 10 from rfl]
      omega) e.iteration
  rw [sent_served, hvfinds, hvtrashed] at hforward
  obtain ⟨xs, hxs, hsent⟩ := step_forward (Q := fun w' => ∃ xs,
    (∀ x ∈ xs, x.topicName = m.topicName) ∧ w'.sent = w.sent ++ xs ++
      if w.findsReceiver e.iteration m then [] else w.trashed m) hst hc hp hforward
  rw [List.append_assoc] at hsent
  rw [adminsOnly_append hsent, List.forall_mem_append, exposes_publish_iff h hp hc]
  constructor
  · rintro ⟨-, -, hnew⟩ ⟨x, hx, hleaks⟩
    exact hnew x hx hleaks
  · intro hnot
    refine ⟨hw, fun x hx hleaks => hdollar ?_, fun x hx hleaks => hnot ⟨x, hx, hleaks⟩⟩
    rw [← hxs x hx]
    exact hleaks.1

/-- A step keeps PUBLISHes of `$`-topics with admins exactly when it exposes
    none. -/
theorem adminsOnly_step (hst : (broker cfg).step w e = some w') (h : w.SysInv)
    (hw : w.AdminsOnly) : w'.AdminsOnly ↔ ¬w.Exposes cfg e := by
  by_cases hpublish : ∃ c m, w.param e.action.channelId = some c ∧ e.packet = some (.publish m)
  · obtain ⟨c, m, hc, hp⟩ := hpublish
    exact adminsOnly_publish hst h hw hp hc
  have hframe := sys_handlerFrame (q := True).step hst fun c m hc hp _ =>
    absurd ⟨c, m, hc, hp⟩ hpublish
  rcases received_cases cfg w e with ⟨j, hj, hr⟩ | ⟨hj, hr⟩
  · obtain ⟨hjoined, hsent⟩ :=
      sys_joined cfg h j (isSome_contexts_of_joining hst hj)
    rw [hr] at hframe
    rw [adminsOnly_of_frame hframe hjoined, adminsOnly_append hsent, exposes_joining_iff hj]
    exact ⟨fun hnew ⟨x, hx, hleaks⟩ => hnew.2 x hx hleaks,
      fun hnot => ⟨hw, fun x hx hleaks => hnot ⟨x, hx, hleaks⟩⟩⟩
  · have hrest : (SysFrame True).rel w (w.received cfg e) := by
      rcases hr with ⟨packet, -, hr⟩ | ⟨c, p, -, -, -, hr⟩ | hr <;> rw [hr]
      · exact sys_greet w _ packet
      · exact sys_served w _ c p
      · exact (SysFrame True).refl w
    have hnot : ¬w.Exposes cfg e := by
      rintro (⟨c, hc, m, hm, -⟩ | ⟨j, hj', -⟩)
      · obtain ⟨p, hp, hpm⟩ := Option.bind_eq_some_iff.1 hm
        cases p <;> cases hpm
        exact hpublish ⟨c, _, hc, hp⟩
      · cases hj.symm.trans hj'
    rw [adminsOnly_of_frame ((SysFrame True).trans hrest hframe) h]
    exact ⟨fun _ => hnot, fun _ => hw⟩

/-! ## Runs -/

theorem sys_start : World.start.SysInv := ⟨by simp [World.start, World.topicAt],
  fun h => by simp [World.start, World.retainedAt, World.topicAt] at h,
  fun h => absurd h (Keyed.not_mem_empty _), rfl⟩

theorem sys_of_reachable (h : (broker cfg).Reachable w) : w.SysInv :=
  h.invariant sys_start fun _ _ _ hw hst => sys_step hst hw

/-- PUBLISHes of `$`-topics are written to admins only in a run that exposes none,
    and a step that exposes one ends that. -/
theorem adminsOnly_iff (h : (broker cfg).Run l w) (hok : ∀ x ∈ l, ¬x.1.Exposes cfg x.2) :
    w.AdminsOnly ∧ ∀ e w', (broker cfg).step w e = some w' →
      (w'.AdminsOnly ↔ ¬w.Exposes cfg e) := by
  have hw : w.SysInv ∧ w.AdminsOnly := by
    refine h.invariant (I := fun w => w.SysInv ∧ w.AdminsOnly)
      (P := fun w e => ¬w.Exposes cfg e) ⟨sys_start, fun _ hx => absurd hx List.not_mem_nil⟩ ?_ hok
    exact fun w e w' hw hc hst => ⟨sys_step hst hw.1, (adminsOnly_step hst hw.1 hw.2).2 hc⟩
  exact ⟨hw.2, fun e w' hst => adminsOnly_step hst hw.1 hw.2⟩

/-- An admin is told of a message without a receiver. -/
theorem adminsOnly_trash : ∃ w, (broker mqttdCfg).Reachable w ∧
    w.sent.map Sent.topicName = [sysTrash] ∧ w.AdminsOnly := by
  have hruns : runs (fun w e => !decide (w.Exposes mqttdCfg e))
      [.accept 1, .accept 2, .read 1 (adminConnectBytes 0x00 [0x61]),
        .read 1 (subscribeBytes sysTrash 0x02), .read 2 (connectBytes 0x02 [0x62] []),
        .read 2 (publishBytes 0x00 [0x74] [] [0x01])]
      (fun w => decide (w.sent.map Sent.topicName = [sysTrash])) = true := by
    decide +kernel
  obtain ⟨l, w, hl, hok, hp⟩ := exists_run hruns
  refine ⟨w, hl.reachable, of_decide_eq_true hp, (adminsOnly_iff hl fun x hx => ?_).1⟩
  simpa using hok x hx

/-- A client that is no admin resumes the session of an admin, and is sent what
    the admin did not answer. -/
theorem trash_resent_to_client : ¬∀ w, (broker mqttdCfg).Reachable w → w.AdminsOnly := by
  intro h
  have hruns : runs (fun _ _ => true)
      [.accept 1, .accept 2, .accept 3, .read 1 (adminConnectBytes 0x00 [0x61]),
        .read 1 (subscribeBytes sysTrash 0x02), .read 2 (connectBytes 0x02 [0x62] []),
        .read 2 (publishBytes 0x00 [0x74] [] [0x01]), .disconnected 1,
        .read 3 (connectBytes 0x00 [0x61] [])]
      (fun w => w.sent.any fun x => decide (x.topicName.head? = some dollar) &&
        x.holder.any fun c => !c.admin) = true := by
    decide +kernel
  obtain ⟨l, w, hl, -, hp⟩ := exists_run hruns
  obtain ⟨x, hx, hp⟩ := List.any_eq_true.1 hp
  obtain ⟨hd, hc⟩ := Bool.and_eq_true_iff.1 hp
  obtain ⟨c, hc, hadmin⟩ := Option.any_eq_true _ _ |>.1 hc
  exact h w hl.reachable x hx ⟨of_decide_eq_true hd, c, hc, by simpa using hadmin⟩

end MqttBroker
