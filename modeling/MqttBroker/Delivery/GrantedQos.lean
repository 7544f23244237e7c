import MqttBroker.Delivery.Grants
import MqttBroker.Delivery.Notices
import MqttBroker.Delivery.Resuming
import MqttBroker.Delivery.WillFanOut

/-!
# The QoS of what is sent

A message is published to a client because of its subscription to a filter: a
PUBLISH is forwarded, and may be told of at `$sys/trash`, a will is published, or
retained messages are, to a client that subscribes or resumes a session. These are
the offers of a step (`World.offers`), and a PUBLISH is newly sent for each of
them, in order. Its QoS should be at most that of the message, and at most the one
that the session was last granted for the filter (`Offer.Bounds`). The QoS that is
kept at the topics says so (`grantInv_of_reachable`), but for `$sys/trash`: notices
have QoS 1 for those, too, that were granted QoS 0 (`keepsQos_iff`).
-/

namespace MqttBroker

open Prog

/-- A message that is published to a client because of its subscription to a filter. -/
structure Offer where
  client : MqttClient
  topicFilter : Bytes
  qos : Nat
  topicName : Bytes
  payload : Bytes

/-- What is sent to a client carries the message of an offer, with at most the QoS of the
    message and the return code of the last SUBACK that granted the filter in the session. -/
structure Offer.Bounds (o : Offer) (w : World) (client : MqttClient) (qos : Nat)
    (topicName payload : Bytes) : Prop where
  client : client = o.client
  topicName : topicName = o.topicName
  payload : payload = o.payload
  published : qos ≤ o.qos
  granted : ∃ returnCode, w.lastGrant o.client.session o.topicFilter = some returnCode ∧
    qos ≤ returnCode

/-- A PUBLISH that `mqtt_client::publish` makes, and the client it is for. -/
def Effect.newlySent : Effect → Option (MqttClient × MqttPublish)
  | .addressed client packet => some (client, packet)
  | _ => none

/-- The PUBLISHes that were newly sent. What is sent again with a session is not among them. -/
def World.newlySent (w : World) : List (MqttClient × MqttPublish) :=
  w.log.filterMap Effect.newlySent

/-- A PUBLISH that is written to a channel, and not for the second time. -/
def Effect.newlyWritten : Effect → Option (ChannelId × MqttPublish)
  | .write k _ (.publish packet) => if packet.dup then none else some (k, packet)
  | _ => none

/-- The PUBLISHes that were written, but for those of a session that were sent again. -/
def World.newlyWritten (w : World) : List (ChannelId × MqttPublish) :=
  w.log.filterMap Effect.newlyWritten

/-- The filter of the topic at a place. -/
def TopicPtr.topicFilter : TopicPtr → Bytes
  | .trash => sysTrash
  | .entry _ topicFilter => topicFilter

namespace World

variable (cfg : Config) (w : World) (it : Iteration) (k : ChannelId) (c : MqttClient)

/-- A PUBLISH of a client is offered to its recipients. Where it is taken for one without a
    receiver, a message of QoS 1 is offered to the subscribers of `$sys/trash`. -/
def publishOffers (m : MqttPublish) : List Offer :=
  (w.recipients it m).map (fun x => ⟨x.2.client, x.1.topicFilter, m.qos, m.topicName, m.payload⟩) ++
    if w.findsReceiver it m then []
    else (w.subscribersAt .trash).map fun s =>
      ⟨s.client, sysTrash, 1, w.trashTopic.topicFilter, m.topicName⟩

/-- The retained messages that a filter matches are offered to a client. -/
def retainedOffers (isWild : Bool) (topicFilter : Bytes) : List Offer :=
  (w.retainedMatching it isWild topicFilter).map fun m =>
    ⟨c, topicFilter, m.qos, m.topicName, m.payload⟩

/-- They are, entry by entry, to a client that subscribes. -/
def subscribeOffers (p : MqttSubscribe) : List Offer :=
  p.granted.flatMap fun entry =>
    (w.granted k c p).retainedOffers it c entry.isWild entry.topicFilter

/-- They are, subscription by subscription, to a client that resumes the session `s`. -/
def resumeOffers (j : Joining) (s : SessionRef) : List Offer :=
  (w.session s).resumed.flatMap fun sub =>
    (w.joined cfg j).retainedOffers it ((j.client w).setSessionPtr s) sub.isWild sub.topicFilter

/-- The will of a client is offered to the subscribers of the topic of its name. -/
def willOffers : List Offer :=
  if c.willFlag then
    (w.subscribersAt (.entry false c.willTopic)).map fun s =>
      ⟨s.client, c.willTopic, c.willQos, c.willTopic, c.willMessage⟩
  else []

/-- What is offered on a packet or an action of the client at a channel. -/
def offersOf : Option Packet → Action → List Offer
  | some (.publish m), _ => w.publishOffers it m
  | some (.subscribe p), _ => w.subscribeOffers it k c p
  | none, .disconnected _ => w.willOffers c
  | _, _ => []

/-- The session that an accepted CONNECT resumes. -/
def resumed (j : Joining) : Option SessionRef :=
  if j.packet.cleanSession then none else w.sessions j.packet.clientId

/-- What is offered in a step. -/
def offers (e : Event) : List Offer :=
  match w.joining cfg e with
  | some j => (w.resumed j).elim [] (w.resumeOffers cfg e.iteration j)
  | none => (w.param e.action.channelId).elim [] fun c =>
      w.offersOf e.iteration e.action.channelId c e.packet e.action

end World

/-- From `w` to `w'` a PUBLISH is newly sent for each of the offers, within its bounds, and
    each of them is written to the channel of its client. -/
def World.SendsWithin (w : World) (os : List Offer) (w' : World) : Prop :=
  ∃ xs : List (MqttClient × MqttPublish), w'.newlySent = w.newlySent ++ xs ∧
    w'.newlyWritten = w.newlyWritten ++ xs.map (fun x => (x.1.channelId, x.2)) ∧
    List.Forall₂ (fun o x => o.Bounds w' x.1 x.2.qos x.2.topicName x.2.payload) os xs

/-- What a step newly sends is within the bounds of what it offers. -/
def World.KeepsQos (cfg : Config) (w : World) (e : Event) : Prop :=
  ∀ w', (broker cfg).step w e = some w' → w.SendsWithin (w.offers cfg e) w'

/-- Nobody is subscribed to the last wild topic of the iteration that matches, or, if none
    does, to the topic of the name of the message. -/
def World.FindsNobody (w : World) (it : Iteration) (m : MqttPublish) : Prop :=
  ((w.wildMatching it m).getLast?.map fun t => t.clients.elems).getD
    (w.subscribersAt (.entry false m.topicName)) = []

/-- A message that finds nobody comes from a client while somebody is subscribed to `$sys/trash`
    who was granted QoS 0 for it. -/
def World.Overgrants (w : World) (e : Event) : Prop :=
  (w.param e.action.channelId).isSome = true ∧
    (∃ m, e.packet = some (.publish m) ∧ w.FindsNobody e.iteration m) ∧
      ∃ s ∈ w.subscribersAt .trash, w.lastGrant s.client.session sysTrash = some 0

variable {cfg : Config} {w u v w' : World} {e : Event} {it : Iteration} {k : ChannelId}
  {c : MqttClient} {m : MqttPublish} {p : MqttSubscribe} {j : Joining} {s : SessionRef}

/-! ## Offers and deliveries -/

/-- An offer bounds a delivery. -/
abbrev Offer.Admits (o : Offer) (w : World) (d : Delivery) : Prop :=
  o.Bounds w d.client d.qos d.topicName d.payload

theorem World.Delivers.newlySent {xs : List Delivered} (h : w.Delivers xs w') :
    w'.newlySent = w.newlySent ++ xs.map fun x => (x.client, x.publish) :=
  h.filterMap_log fun _ => rfl

theorem World.Delivers.newlyWritten {xs : List Delivered} (h : w.Delivers xs w') :
    w'.newlyWritten = w.newlyWritten ++ xs.map fun x => (x.client.channelId, x.publish) := by
  refine h.filterMap_log fun x => ?_
  have hfirst : Effect.newlyWritten (.write x.client.channelId (w.param x.client.channelId)
      (.publish x.publish)) = some (x.client.channelId, x.publish) :=
    if_neg (Bool.not_eq_true _ ▸ (mqttPublish_eq_ok x.built).1)
  rw [World.effects, List.filterMap_cons_none rfl, List.filterMap_cons_some hfirst]
  rfl

theorem Offer.bounds_congr {o : Offer} {qos : Nat} {topicName payload : Bytes}
    (h : v.grantLog = w.grantLog) :
    o.Bounds v c qos topicName payload ↔ o.Bounds w c qos topicName payload := by
  have hlast : v.lastGrant = w.lastGrant := congrArg GrantLog.last h
  constructor
  · intro h
    exact ⟨h.client, h.topicName, h.payload, h.published, hlast ▸ h.granted⟩
  · intro h
    exact ⟨h.client, h.topicName, h.payload, h.published, hlast.symm ▸ h.granted⟩

/-! ## Nothing is newly sent -/

/-- Nothing is newly sent. -/
def Silent : Frame World where
  rel w w' := w'.newlySent = w.newlySent ∧ w'.newlyWritten = w.newlyWritten
  refl _ := ⟨rfl, rfl⟩
  trans h₁ h₂ := ⟨h₂.1.trans h₁.1, h₂.2.trans h₁.2⟩

theorem silent_of_log (h : w'.log = w.log) : Silent.rel w w' := by
  constructor
  · rw [World.newlySent, h, World.newlySent]
  · rw [World.newlyWritten, h, World.newlyWritten]

/-- What is added to the history sends nothing. -/
theorem silent_append {es : List Effect} (h : w'.log = w.log ++ es)
    (hes : ∀ e ∈ es, e.newlySent = none ∧ e.newlyWritten = none) : Silent.rel w w' := by
  have hnone : ∀ {β : Type} (f : Effect → Option β), (∀ e ∈ es, f e = none) →
      w'.log.filterMap f = w.log.filterMap f := by
    intro β f hf
    rw [h, List.filterMap_append, List.filterMap_eq_nil_iff.2 hf, List.append_nil]
  exact ⟨hnone _ fun e he => (hes e he).1, hnone _ fun e he => (hes e he).2⟩

theorem silent_record (w : World) {e : Effect}
    (he : e.newlySent = none ∧ e.newlyWritten = none) : Silent.rel w (w.record e) :=
  silent_append rfl fun _ he' => List.mem_singleton.1 he' ▸ he

theorem silent_noteRetain (w : World) (retain : Bool) (topicName payload : Bytes) :
    Silent.rel w (w.noteRetain retain topicName payload) :=
  rel_noteRetain (fun _ => silent_record w ⟨rfl, rfl⟩) retain

theorem silent_served (w : World) (k : ChannelId) (c : MqttClient) (p : Packet) :
    Silent.rel w (w.served k c p) := by
  have hhandled : Silent.rel w (w.record (.handled c p)) := silent_record w ⟨rfl, rfl⟩
  cases p with
  | publish m =>
    refine Silent.trans hhandled ?_
    show Silent.rel _ (World.receivePublish _ _ _ _)
    rw [World.receivePublish]
    split_ifs
    · exact silent_record _ ⟨rfl, rfl⟩
    · exact silent_append rfl fun _ he => List.mem_singleton.1 he ▸ ⟨rfl, rfl⟩
    · exact Silent.refl _
  | connect | connack | suback | unsuback | pingresp => exact Silent.refl w
  | _ => exact hhandled

/-- Where deliveries are made, what is sent is within the bounds of the offers exactly when
    the deliveries are. -/
theorem sendsWithin_iff {os : List Offer} {ds : List Delivery} (hsilent : Silent.rel w v)
    (hmakes : v.Makes ds u) (hlog : w'.log = u.log) :
    w.SendsWithin os w' ↔ List.Forall₂ (fun o d => o.Admits v d) os ds := by
  have hgrants : w'.grantLog = v.grantLog := (grantLog_of_log hlog).trans hmakes.grantLog
  obtain ⟨ys, rfl, hys⟩ := hmakes
  have hnew : w'.newlySent = w.newlySent ++ ys.map fun x => (x.client, x.publish) := by
    rw [World.newlySent, hlog, ← World.newlySent, hys.newlySent, hsilent.1]
  have hwritten : w'.newlyWritten =
      w.newlyWritten ++ ys.map fun x => (x.client.channelId, x.publish) := by
    rw [World.newlyWritten, hlog, ← World.newlyWritten, hys.newlyWritten, hsilent.2]
  have hone : ∀ (o : Offer) (y : Delivered), o.Bounds w' y.client y.publish.qos y.publish.topicName
      y.publish.payload ↔ o.Admits v y.toDelivery := by
    intro o y
    obtain ⟨-, hqos, -, htopic, hpayload, -⟩ := mqttPublish_eq_ok y.built
    rw [hqos, htopic, hpayload]
    exact Offer.bounds_congr hgrants
  rw [List.forall₂_map_right_iff]
  simp only [← hone]
  constructor
  · rintro ⟨xs, hxs, -, h⟩
    rw [hnew, List.append_cancel_left_eq] at hxs
    rw [← hxs, List.forall₂_map_right_iff] at h
    exact h
  · intro h
    refine ⟨_, hnew, ?_, List.forall₂_map_right_iff.2 h⟩
    rw [List.map_map]
    exact hwritten

/-! ## Within the bounds -/

/-- What is delivered to a subscriber is within the bounds of the offer. -/
theorem bounds_of_mem (h : w.GrantInv) {b : Bool} {f : Bytes} {s : Subscriber}
    (hs : s ∈ w.subscribersAt (.entry b f)) (qos : Nat) (topicName payload : Bytes) :
    Offer.Bounds ⟨s.client, f, qos, topicName, payload⟩ w s.client (min qos s.maxQos) topicName
      payload :=
  ⟨rfl, rfl, rfl, Nat.min_le_left _ _, s.maxQos, (h.subscriber hs).2.2, Nat.min_le_right _ _⟩

/-- A notice to a subscriber of `$sys/trash` is, unless it was granted QoS 0. -/
theorem bounds_notice_iff (h : w.GrantInv) {s : Subscriber} (hs : s ∈ w.subscribersAt .trash)
    (topicName payload : Bytes) :
    Offer.Bounds ⟨s.client, sysTrash, 1, topicName, payload⟩ w s.client (min 1 s.maxQos) topicName
      payload ↔ w.lastGrant s.client.session sysTrash ≠ some 0 := by
  obtain ⟨hqos, hsome⟩ := h.trash hs
  obtain ⟨returnCode, hcode⟩ := Option.isSome_iff_exists.1 hsome
  rw [hqos]
  constructor
  · intro hbounds hzero
    obtain ⟨returnCode', hcode', hle⟩ := hbounds.granted
    cases hzero.symm.trans hcode'
    exact absurd hle (by decide)
  · intro hne
    refine ⟨rfl, rfl, rfl, Nat.le_refl 1, returnCode, hcode, ?_⟩
    exact Nat.one_le_iff_ne_zero.2 fun hzero => hne (hzero ▸ hcode)

/-- The retained messages for filters at whose topics the client is a subscriber. -/
theorem forall₂_retained (h : w.GrantInv) (it : Iteration) (c : MqttClient) {α : Type} {l : List α}
    {isWild : α → Bool} {topicFilter : α → Bytes}
    (hl : ∀ a ∈ l, ∃ q, w.subscriberAt (.entry (isWild a) (topicFilter a)) c.clientId = some ⟨c, q⟩) :
    List.Forall₂ (fun o d => o.Admits w d)
      (l.flatMap fun a => w.retainedOffers it c (isWild a) (topicFilter a))
      (l.flatMap fun a => w.retainedDeliveries it c (isWild a) (topicFilter a)) := by
  refine List.rel_flatten (List.forall₂_map_left_iff.2 (List.forall₂_map_right_iff.2
    (List.forall₂_same.2 fun a ha => ?_)))
  obtain ⟨q, hq⟩ := hl a ha
  have hsubscriber : w.asSubscriber c (.entry (isWild a) (topicFilter a)) = ⟨c, q⟩ := by
    rw [World.asSubscriber, hq]
    rfl
  have hmem : (⟨c, q⟩ : Subscriber) ∈ w.subscribersAt (.entry (isWild a) (topicFilter a)) :=
    mem_subscribersAt_iff.2 hq
  rw [World.retainedOffers, World.retainedDeliveries, hsubscriber, List.forall₂_map_left_iff,
    List.forall₂_map_right_iff, List.forall₂_same]
  exact fun m _ => bounds_of_mem h hmem m.qos m.topicName m.payload

/-! ## Steps without offers -/

/-- A client that resumes a session is sent again what it did not answer. -/
theorem silent_joined (cfg : Config) (w : World) (j : Joining)
    (hk : (w.contexts j.channelId).isSome) : Silent.rel w (w.joined cfg j) := by
  obtain ⟨c, sessionPresent, again, hlog, hagain⟩ := log_joined cfg w j hk
  refine silent_append hlog fun e he => ?_
  rcases List.mem_cons.1 he with rfl | he
  · exact ⟨rfl, rfl⟩
  · rcases List.mem_cons.1 he with rfl | he
    · exact ⟨rfl, rfl⟩
    · obtain ⟨k, h, p, rfl, ⟨m, rfl⟩ | ⟨id, rfl⟩⟩ := hagain e he <;> exact ⟨rfl, rfl⟩

/-- A step without a SUBSCRIBE, and where no client sends a PUBLISH or loses its channel. -/
theorem silent_eventFrame (hsub : ∀ p, e.packet ≠ some (.subscribe p))
    (hpublish : ∀ c m, w.param e.action.channelId = some c → e.packet ≠ some (.publish m))
    (hlost : ∀ c, w.param e.action.channelId = some c →
      e.action ≠ .disconnected e.action.channelId) : EventFrame Silent w e where
  channels h _ _ := silent_of_log (by rw [h])
  answer {v c k p} _ _ hp := by
    refine silent_record v ⟨rfl, ?_⟩
    cases p with
    | publish m => exact absurd rfl (hp m)
    | _ => rfl
  refuse v _ _ := silent_record v ⟨rfl, rfl⟩
  retained _ _ _ h := absurd h (hsub _)
  forward hc hp _ := absurd hp (hpublish _ _ hc)
  will he hc _ := absurd he (hlost _ hc)
  subscribe h _ := absurd h (hsub _)
  subscribeTrash h := absurd h (hsub _)
  unsubscribe {v c entry} _ _ := silent_of_log (v.unsubscribeEntry_log c entry)
  leave {v c} _ := by
    refine silent_of_log ?_
    rw [World.remove_eq]
    rfl

/-- Without an accepted CONNECT, nothing is newly sent unless a client sends a PUBLISH or a
    SUBSCRIBE, or loses its channel. -/
theorem silent_step (hst : (broker cfg).step w e = some w') (hj : w.joining cfg e = none)
    (hsub : ∀ c p, w.param e.action.channelId = some c → e.packet ≠ some (.subscribe p))
    (hpublish : ∀ c m, w.param e.action.channelId = some c → e.packet ≠ some (.publish m))
    (hlost : ∀ c, w.param e.action.channelId = some c →
      e.action ≠ .disconnected e.action.channelId) : Silent.rel w w' := by
  by_cases hsubscribe : ∃ p, e.packet = some (.subscribe p)
  · obtain ⟨p, hp⟩ := hsubscribe
    rw [eq_close_of_none hst hp (Option.eq_none_iff_forall_ne_some.2 fun c hc => hsub c p hc hp)
      fun _ => Packet.noConfusion]
    exact silent_of_log rfl
  · refine Silent.trans ?_ ((silent_eventFrame (fun p hp => hsubscribe ⟨p, hp⟩) hpublish
      hlost).step hst hj)
    rcases received_cases cfg w e with ⟨j, hj', -⟩ | ⟨-, ⟨packet, -, hr⟩ | ⟨c, p, -, -, -, hr⟩ | hr⟩
    · cases hj.symm.trans hj'
    · rw [hr]
      exact silent_of_log (w.log_greet _ cfg packet)
    · rw [hr]
      exact silent_served w _ c p
    · rw [hr]
      exact Silent.refl w

/-! ## What a step offers -/

theorem findsNobody_iff (w : World) (it : Iteration) (m : MqttPublish) :
    w.FindsNobody it m ↔ w.findsReceiver it m = false := by
  rw [World.FindsNobody, findsReceiver_eq]
  cases (w.wildMatching it m).getLast? <;> simp

theorem sendsWithin_nil (h : Silent.rel w w') : w.SendsWithin [] w' :=
  ⟨[], h.1.trans (List.append_nil _).symm, h.2.trans (List.append_nil _).symm, .nil⟩

/-- The first part of two lists is related, so the other part decides. -/
theorem forall₂_append_iff {α β : Type} {R : α → β → Prop} {as as' : List α} {bs bs' : List β}
    (h : List.Forall₂ R as bs) :
    List.Forall₂ R (as ++ as') (bs ++ bs') ↔ List.Forall₂ R as' bs' := by
  induction h with
  | nil => rfl
  | cons hab _ ih =>
    rw [List.cons_append, List.cons_append, List.forall₂_cons, and_iff_right hab, ih]

/-- What is sent for a PUBLISH of a client is within the bounds, but for the notices to those
    that were granted QoS 0. -/
theorem sendsWithin_publish_iff (h : (broker cfg).Reachable w)
    (hst : (broker cfg).step w e = some w') (hp : e.packet = some (.publish m))
    (hc : w.param e.action.channelId = some c) :
    w.SendsWithin (w.publishOffers e.iteration m) w' ↔ ¬(w.FindsNobody e.iteration m ∧
      ∃ s ∈ w.subscribersAt .trash, w.lastGrant s.client.session sysTrash = some 0) := by
  have hinv := grantInv_of_reachable h
  have hmakes := (step_publish_iff h ((step_eq_some cfg).1 hst).1 hp hc).2 w' hst
  have hsent : Silent.rel w (w.accepted e.action.channelId c m) :=
    Silent.trans (silent_served w _ c _) (silent_noteRetain _ _ _ _)
  have hnarrows : w.Narrows (w.accepted e.action.channelId c m) :=
    Narrowing.trans (narrowing_served w _ c fun _ => Packet.noConfusion)
      (narrowing_publishFrame.note m.retain m.topicName m.payload _) hinv.idle
  rw [sendsWithin_iff hsent hmakes rfl, findsNobody_iff]
  simp only [Offer.Admits, Offer.bounds_congr hnarrows.grantLog]
  rw [World.publishOffers, World.deliveries, forwards_eq_map, forall₂_append_iff]
  · cases hfinds : w.findsReceiver e.iteration m with
    | true => simp
    | false =>
      -- The notices are all of QoS 1, whatever was granted.
      rw [if_neg Bool.false_ne_true, if_neg Bool.false_ne_true, World.notices,
        List.forall₂_map_left_iff, List.forall₂_map_right_iff, List.forall₂_same, and_iff_right rfl,
        not_exists]
      simp only [not_and]
      exact forall₂_congr fun s hs => bounds_notice_iff hinv hs _ _
  · rw [List.forall₂_map_left_iff, List.forall₂_map_right_iff, List.forall₂_same]
    intro x hx
    obtain ⟨place, s⟩ := x
    obtain ⟨hs, b, f, rfl, -⟩ := mem_recipients.1 hx
    exact bounds_of_mem hinv hs m.qos m.topicName m.payload

/-- What is sent for a SUBSCRIBE is within the bounds of what it was granted. -/
theorem sendsWithin_subscribe (h : (broker cfg).Reachable w)
    (hst : (broker cfg).step w e = some w') (hp : e.packet = some (.subscribe p))
    (hc : w.param e.action.channelId = some c) :
    w.SendsWithin (w.subscribeOffers e.iteration e.action.channelId c p) w' := by
  have hinv : (w.granted e.action.channelId c p).GrantInv :=
    grantInv_granted (grantInv_of_reachable h) (apart_of_reachable h) hc (read_of_packet hp)
  have hsent : Silent.rel w (w.granted e.action.channelId c p) := by
    refine Silent.trans (silent_record w (e := .handled c (.subscribe p)) ⟨rfl, rfl⟩)
      (Silent.trans (silent_of_log ?_) (silent_record _ ⟨rfl, rfl⟩))
    rw [entered_eq]
  refine (sendsWithin_iff hsent (step_subscribe h hst hc hp) rfl).2
    (forall₂_retained hinv _ c fun entry hentry => ?_)
  obtain ⟨hmem, hgranted⟩ := mem_granted hentry
  exact exists_subscriberAt_granted w _ c hmem hgranted

/-- What is sent when a session is resumed is within the bounds of what it was granted. -/
theorem sendsWithin_resume (h : (broker cfg).Reachable w) (hst : (broker cfg).step w e = some w')
    (hj : w.joining cfg e = some j) (hs : w.Resumes j s) :
    w.SendsWithin (w.resumeOffers cfg e.iteration j s) w' := by
  have hk := isSome_contexts_of_joining hst hj
  obtain ⟨hinv, -⟩ := grantInv_joined cfg (grantInv_of_reachable h) j hk
  obtain ⟨-, hentered⟩ := subscriberAt_joined cfg hs hk
  refine (sendsWithin_iff (silent_joined cfg w j hk) (step_resumes h hst hj hs) rfl).2
    (forall₂_retained hinv _ _ fun sub hsub => ⟨sub.maxQos, hentered sub ?_⟩)
  exact (List.mem_append.1 hsub).elim (fun hsub => (List.mem_filter.1 hsub).1)
    fun hsub => (List.mem_filter.1 hsub).1

/-- What is sent of a will is within the bounds of what its receivers were granted. -/
theorem sendsWithin_will (h : (broker cfg).Reachable w) (hst : (broker cfg).step w e = some w')
    (he : e.action = .disconnected k) (hc : w.param k = some c) :
    w.SendsWithin (w.willOffers c) w' := by
  have hinv := grantInv_of_reachable h
  obtain ⟨hqos, hsize⟩ := (retainedInv_of_reachable h).will hc
  obtain ⟨u, hrun, rfl⟩ := step_disconnected hst he hc
  have hlog : ((u.remove c).conclude (.disconnected k)).log = u.log := by
    rw [World.remove_eq]
    rfl
  rw [World.willOffers]
  split_ifs with hwill
  · obtain ⟨-, next, hmakes⟩ :=
      (settles_publishWillMessage hwill hqos hsize w).returns.of_value hrun
    have hsession : (w.noteWill c).session = w.session := by rw [World.noteWill_eq]
    have hnote : Narrowing.rel w (w.noteWill c) :=
      Narrowing.trans (narrowing_publishFrame.noteWill c w)
        (narrowing_publishFrame.note c.willRetain c.willTopic c.willMessage _)
    have hnarrows : w.Narrows (w.willNoted c next) :=
      Narrowing.trans hnote (narrowing_modifySession _ c.session (by rw [hsession])) hinv.idle
    have hsent : Silent.rel w (w.willNoted c next) :=
      Silent.trans (silent_record w ⟨rfl, rfl⟩) (silent_noteRetain _ _ _ _)
    rw [sendsWithin_iff hsent hmakes hlog]
    simp only [Offer.Admits, Offer.bounds_congr hnarrows.grantLog]
    rw [World.willDeliveries, List.forall₂_map_left_iff, List.forall₂_map_right_iff,
      List.forall₂_same]
    exact fun s hs => bounds_of_mem hinv hs c.willQos c.willTopic c.willMessage
  · rw [publishWillMessage, modify_bind_apply, if_neg hwill] at hrun
    cases hrun
    exact sendsWithin_nil (Silent.trans (silent_record w ⟨rfl, rfl⟩) (silent_of_log hlog))

theorem resumed_eq_some {w : World} : w.resumed j = some s ↔ w.Resumes j s := by
  rw [World.resumed, World.Resumes]
  split_ifs with hclean <;> simp [hclean]

theorem overgrants_iff (hc : w.param e.action.channelId = some c)
    (hp : e.packet = some (.publish m)) : w.Overgrants e ↔ w.FindsNobody e.iteration m ∧
      ∃ s ∈ w.subscribersAt .trash, w.lastGrant s.client.session sysTrash = some 0 := by
  simp [World.Overgrants, hc, hp]

theorem not_overgrants (h : ∀ c m, w.param e.action.channelId = some c →
    e.packet ≠ some (.publish m)) : ¬w.Overgrants e := by
  rintro ⟨hc, ⟨m, hp, -⟩, -⟩
  obtain ⟨c, hc⟩ := Option.isSome_iff_exists.1 hc
  exact h c m hc hp

/-- On what comes from the client at a channel, what is sent is within the bounds of what is
    offered, but for notices to those that were granted QoS 0. -/
theorem sendsWithin_offersOf_iff (h : (broker cfg).Reachable w)
    (hst : (broker cfg).step w e = some w') (hj : w.joining cfg e = none)
    (hc : w.param e.action.channelId = some c) :
    w.SendsWithin (w.offersOf e.iteration e.action.channelId c e.packet e.action) w' ↔
      ¬w.Overgrants e := by
  cases hp : e.packet with
  | none =>
    have hnone : ∀ p, e.packet ≠ some p := fun p hp' => by cases hp.symm.trans hp'
    refine iff_of_true ?_ (not_overgrants fun _ m _ => hnone _)
    cases ha : e.action with
    | disconnected k =>
      rw [ha] at hc
      exact sendsWithin_will h hst ha hc
    | _ =>
      exact sendsWithin_nil (silent_step hst hj (fun _ _ _ => hnone _) (fun _ _ _ => hnone _)
        fun _ _ hlost => by cases ha.symm.trans hlost)
  | some packet =>
    -- A packet comes on a channel that is not lost.
    have hlost : ∀ c, w.param e.action.channelId = some c →
        e.action ≠ .disconnected e.action.channelId := by
      intro _ _ hlost
      obtain ⟨_, _, hread, -⟩ := packet_eq_some hp
      cases hread.symm.trans hlost
    have hother : ∀ {p}, packet ≠ p → e.packet ≠ some p :=
      fun hne hp' => hne (Option.some.inj (hp.symm.trans hp'))
    cases packet with
    | publish m =>
      rw [overgrants_iff hc hp]
      exact sendsWithin_publish_iff h hst hp hc
    | subscribe p =>
      exact iff_of_true (sendsWithin_subscribe h hst hp hc)
        (not_overgrants fun _ _ _ => hother Packet.noConfusion)
    | _ =>
      exact iff_of_true (sendsWithin_nil (silent_step hst hj
        (fun _ _ _ => hother Packet.noConfusion) (fun _ _ _ => hother Packet.noConfusion) hlost))
        (not_overgrants fun _ _ _ => hother Packet.noConfusion)

/-- In a step from a reachable state, what is sent is within the bounds of what is offered,
    but for notices to those that were granted QoS 0. -/
theorem sendsWithin_offers_iff (h : (broker cfg).Reachable w)
    (hst : (broker cfg).step w e = some w') :
    w.SendsWithin (w.offers cfg e) w' ↔ ¬w.Overgrants e := by
  rw [World.offers]
  cases hj : w.joining cfg e with
  | some j =>
    have hpacket := (joining_eq_some hj).1
    refine iff_of_true ?_ (not_overgrants fun c m _ hp => by cases hpacket.symm.trans hp)
    dsimp only
    cases hr : w.resumed j with
    | some s => exact sendsWithin_resume h hst hj (resumed_eq_some.1 hr)
    | none =>
      rw [step_joins_anew hst hj fun s hs => by cases hr.symm.trans (resumed_eq_some.2 hs)]
      exact sendsWithin_nil (silent_joined cfg w j (isSome_contexts_of_joining hst hj))
  | none =>
    cases hc : w.param e.action.channelId with
    | none =>
      have hnobody : ∀ {c : MqttClient} {q : Prop}, w.param e.action.channelId = some c → q :=
        fun hc' => by cases hc.symm.trans hc'
      exact iff_of_true (sendsWithin_nil (silent_step hst hj (fun _ _ hc => hnobody hc)
        (fun _ _ hc => hnobody hc) fun _ hc => hnobody hc)) (not_overgrants fun _ _ hc => hnobody hc)
    | some c => exact sendsWithin_offersOf_iff h hst hj hc

/-! ## Runs -/

/-- In a run, every PUBLISH that is newly sent is within the bounds of its offer exactly when no
    message that finds nobody comes while a subscriber of `$sys/trash` was granted QoS 0. -/
theorem keepsQos_iff {l : List (World × Event)} (h : (broker cfg).Run l w) :
    (∀ x ∈ l, x.1.KeepsQos cfg x.2) ↔ ∀ x ∈ l, ¬x.1.Overgrants x.2 := by
  refine forall₂_congr fun x hx => ?_
  obtain ⟨hreach, t, hst⟩ := h.of_mem hx
  rw [← sendsWithin_offers_iff hreach hst, World.KeepsQos]
  refine ⟨fun hkeeps => hkeeps t hst, fun hsends w' hst' => ?_⟩
  rwa [← Option.some.inj (hst.symm.trans hst')]

/-- A client that was granted QoS 1 for `$sys/trash` and for a filter is sent a message of
    QoS 2 and a notice. -/
theorem keepsQos_told : ∃ (l : List (World × Event)) (w : World), (broker mqttdCfg).Run l w ∧
    w.newlySent.map (fun x => x.2.qos) = [1, 1] ∧ ∀ x ∈ l, x.1.KeepsQos mqttdCfg x.2 := by
  have hruns : runs (fun w _ => (w.subscribersAt .trash).all fun s =>
        decide (w.lastGrant s.client.session sysTrash ≠ some 0))
      [.accept 1, .read 1 (adminConnectBytes 0x02 [0x61]), .read 1 (subscribeBytes sysTrash 0x01),
        .read 1 (subscribeBytes [0x2b] 0x01),
        .read 1 (publishBytes 0x04 [0x74] [0x00, 0x07] [0x01]),
        .read 1 (publishBytes 0x02 [0x74, 0x2f, 0x74] [0x00, 0x08] [0x01])]
      (fun w => decide (w.newlySent.map (fun x => x.2.qos) = [1, 1])) = true := by
    decide +kernel
  obtain ⟨l, w, hl, hok, hsent⟩ := exists_run hruns
  refine ⟨l, w, hl, of_decide_eq_true hsent, (keepsQos_iff hl).2 fun x hx hover => ?_⟩
  obtain ⟨-, -, s, hs, hzero⟩ := hover
  exact of_decide_eq_true (List.all_eq_true.1 (hok x hx) s hs) hzero

/-- An admin is granted QoS 0 for `$sys/trash`, and is told with QoS 1 of a message that finds
    nobody. -/
theorem notice_exceeds_grant : ¬∀ (l : List (World × Event)) (w : World),
    (broker mqttdCfg).Run l w → ∀ x ∈ l, x.1.KeepsQos mqttdCfg x.2 := by
  intro h
  let e := (Action.read 1 (publishBytes 0x02 [0x74] [0x00, 0x07] [0x01])).event
  let m : MqttPublish := ⟨⟨.publish, 2, 6⟩, false, 1, false, [0x74], 7, [0x01]⟩
  have hp : e.packet = some (.publish m) := by
    decide +kernel
  have hruns : runs (fun _ _ => true)
      [.accept 1, .read 1 (adminConnectBytes 0x02 [0x61]), .read 1 (subscribeBytes sysTrash 0x00)]
      (fun w => ((broker mqttdCfg).step w e).any fun _ => (w.param 1).any fun _ =>
        (w.findsReceiver e.iteration m == false) && (w.subscribersAt .trash).any fun s =>
          decide (w.lastGrant s.client.session sysTrash = some 0)) = true := by
    decide +kernel
  obtain ⟨l, w, w', hl, -, hst, hrun⟩ := exists_run_step hruns
  obtain ⟨c, hc, hrun⟩ := Option.any_eq_true _ _ |>.1 hrun
  obtain ⟨hfinds, hzero⟩ := Bool.and_eq_true_iff.1 hrun
  obtain ⟨s, hs, hzero⟩ := List.any_eq_true.1 hzero
  have hkeeps := h _ _ (hl.step hst) (w, e) (List.mem_append_right _ (List.mem_singleton_self _))
  exact (sendsWithin_offers_iff hl.reachable hst).1 (hkeeps w' hst)
    ((overgrants_iff hc hp).2 ⟨(findsNobody_iff _ _ _).2 (beq_iff_eq.1 hfinds), s, hs,
      of_decide_eq_true hzero⟩)

end MqttBroker
