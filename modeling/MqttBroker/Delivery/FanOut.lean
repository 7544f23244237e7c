import MqttBroker.Delivery.Sends
import MqttBroker.Delivery.Storing
import MqttBroker.Delivery.SysTopics

/-!
# Forwarding, delivery by delivery

A PUBLISH of a client is forwarded to the subscribers of the topics it comes to:
the one of its name in `_topics`, and those in `_wild_topics` that match
(`World.recipients`). `handle_publish` makes one delivery for each pair of such a
topic and a subscriber of it, and then the notices to the subscribers of
`$sys/trash`, if it takes the message for one without a receiver
(`settles_handlePublish`). Nothing else changes (`World.FansOut`), as long as
there are packet ids for all of them (`publish_fans_out`).
-/

namespace MqttBroker

open Prog

namespace World

variable (w : World) (it : Iteration) (m : MqttPublish)

/-- The places of the topics that a message comes to, in the order of forwarding. -/
def places : List TopicPtr :=
  .entry false m.topicName ::
    ((it.order (w.topics true).elems).filter fun t => topicMatch t.topicFilter m.topicName).map
      fun t => .entry true t.topicFilter

/-- The subscribers a message is forwarded to, each at the place of its topic. -/
def recipients : List (TopicPtr × Subscriber) :=
  (w.places it m).flatMap fun p => (w.subscribersAt p).map fun s => (p, s)

/-- The deliveries of a message to its recipients. -/
def forwards : List Delivery := (w.places it m).flatMap (w.deliveriesAt m)

/-- The deliveries of the notice that a message found no receiver. -/
def notices : List Delivery :=
  (w.subscribersAt .trash).map fun s =>
    ⟨s.client, min 1 s.maxQos, false, w.trashTopic.topicFilter, m.topicName⟩

/-- The deliveries of a message. -/
def deliveries : List Delivery :=
  w.forwards it m ++ if w.findsReceiver it m then [] else w.notices m

end World

variable {cfg : Config} {w v w' : World} {e : Event} {it : Iteration} {m : MqttPublish}
  {k : ChannelId} {c : MqttClient}

theorem forwards_eq_map : w.forwards it m = (w.recipients it m).map fun x => x.2.delivery false m := by
  rw [World.recipients, List.map_flatMap, World.forwards]
  simp only [List.map_map]
  rfl

/-- The recipients are the subscribers of the topics that the message comes to. -/
theorem mem_recipients {p : TopicPtr} {s : Subscriber} : (p, s) ∈ w.recipients it m ↔
    s ∈ w.subscribersAt p ∧ ∃ b f, p = .entry b f ∧ m.Reaches b f := by
  have hplaces : (∃ t, w.topicAt p = some t) →
      (p ∈ w.places it m ↔ ∃ b f, p = .entry b f ∧ m.Reaches b f) := by
    rintro ⟨t, ht⟩
    rw [World.places, List.mem_cons, List.mem_map]
    constructor
    · rintro (rfl | ⟨t', ht', rfl⟩)
      · exact ⟨false, _, rfl, rfl⟩
      · exact ⟨true, _, rfl, (List.mem_filter.1 ht').2⟩
    · rintro ⟨b, f, rfl, hreach⟩
      cases b with
      | false =>
        left
        rw [show f = m.topicName from hreach]
      | true =>
        obtain ⟨hmem, rfl⟩ := Keyed.mem_of_find ht
        exact .inr ⟨t, List.mem_filter.2 ⟨(it.perm _).mem_iff.2 hmem, hreach⟩, rfl⟩
  -- The place of the message's name may be without a topic, and then nobody is in it.
  have hthere : s ∈ w.subscribersAt p → ∃ t, w.topicAt p = some t := by
    intro hs
    rw [World.subscribersAt] at hs
    cases ht : w.topicAt p with
    | none => simp [ht] at hs
    | some t => exact ⟨t, rfl⟩
  rw [World.recipients, List.mem_flatMap]
  constructor
  · rintro ⟨p', hp', hs⟩
    obtain ⟨s', hs', heq⟩ := List.mem_map.1 hs
    cases heq
    exact ⟨hs', (hplaces (hthere hs')).1 hp'⟩
  · rintro ⟨hs, hreach⟩
    exact ⟨p, (hplaces (hthere hs)).2 hreach, List.mem_map_of_mem hs⟩

/-- Nobody receives a message twice for one topic. -/
theorem nodup_recipients : (w.recipients it m).Nodup := by
  have hplaces : (w.places it m).Nodup := by
    have hkeys : ((it.order (w.topics true).elems).map Topic.topicFilter).Nodup :=
      ((it.perm _).map _).nodup_iff.2 (w.topics true).nodup
    rw [World.places, List.nodup_cons]
    refine ⟨by simp, ?_⟩
    have hwild := hkeys.sublist ((List.filter_sublist
      (p := fun t : Topic => topicMatch t.topicFilter m.topicName)).map _)
    have := hwild.map (f := TopicPtr.entry true) fun _ _ h => (TopicPtr.entry.inj h).2
    rwa [List.map_map] at this
  rw [World.recipients, List.nodup_flatMap]
  constructor
  · intro p _
    have hnodup : (w.subscribersAt p).Nodup := by
      rw [World.subscribersAt]
      cases w.topicAt p with
      | none => exact List.nodup_nil
      | some t => exact List.Nodup.of_map _ t.clients.nodup
    exact hnodup.map fun _ _ h => (Prod.mk.inj h).2
  · refine hplaces.imp fun {p q} hpq x hx hy => hpq ?_
    obtain ⟨s, -, rfl⟩ := List.mem_map.1 hx
    obtain ⟨s', -, heq⟩ := List.mem_map.1 hy
    exact (Prod.mk.inj heq).1.symm

/-! ## `handle_publish` -/

theorem World.Makes.notices {ds : List Delivery} (h : w.Makes ds v) :
    v.notices = w.notices := by
  funext m
  rw [World.notices, h.subscribersAt, h.trash, World.notices]

/-- A message is published to the topic of its name, if that is there. -/
theorem delivering_publishExact (hm : m.Sendable) (w : World) :
    Delivering (tryCatch (do publishTopic (← topicsAt m.topicName) m) fun _ => pure false)
      (w.deliveriesAt m (.entry false m.topicName))
      (!(w.subscribersAt (.entry false m.topicName)).isEmpty) w := by
  rw [Delivering, Settles, tryCatch_topicsAt_apply]
  cases ht : w.topicAt (.entry false m.topicName) with
  | some t => exact delivering_tryCatch (delivering_publishTopic hm _ w)
  | none =>
    have hnone : w.subscribersAt (.entry false m.topicName) = [] := by
      rw [World.subscribersAt, ht]
      rfl
    rw [World.deliveriesAt, hnone]
    exact delivering_pure false w

/-- The loop over the wild topics. -/
theorem delivering_publishWild (hm : m.Sendable) (it : Iteration) (sent : Bool) (w : World) :
    Delivering (publishWild m sent (it.order (w.topics true).elems))
      (((it.order (w.topics true).elems).filter fun t => topicMatch t.topicFilter m.topicName).flatMap
        fun t => w.deliveriesAt m (.entry true t.topicFilter))
      ((it.order (w.topics true).elems).foldl (findReceiver m) sent) w := by
  have hfilter : ∀ l : List Topic, (l.filter fun t => topicMatch t.topicFilter m.topicName).flatMap
      (fun t => w.deliveriesAt m (.entry true t.topicFilter)) = l.flatMap fun t =>
        if topicMatch t.topicFilter m.topicName then w.deliveriesAt m (.entry true t.topicFilter)
        else [] := by
    intro l
    induction l with
    | nil => rfl
    | cons t l ih =>
      rw [List.filter_cons, List.flatMap_cons, ← ih]
      split_ifs <;> rfl
  rw [hfilter]
  refine delivering_foldEach fun t ht sent ds v hv => ?_
  have hsubscribers : v.subscribersAt (.entry true t.topicFilter) = t.clients.elems := by
    have htopic : w.topicAt (.entry true t.topicFilter) = some t :=
      Keyed.find_eq_some.2 ⟨(it.perm _).mem_iff.1 ht, rfl⟩
    rw [hv.subscribersAt, World.subscribersAt, htopic]
    rfl
  rw [findReceiver]
  split_ifs with hmatch
  · rw [← hv.deliveriesAt, ← hsubscribers]
    exact delivering_publishTopic hm _ v
  · exact delivering_pure sent v

/-- A message without a receiver is told to the subscribers of `$sys/trash`. -/
theorem delivering_publishTrash
    (hsize : w.trashTopic.topicFilter.length + m.topicName.length + 4 ≤ 0x0fffffff) :
    Delivering (publishTrash m) (w.notices m) () w := by
  obtain ⟨p, hp⟩ := mqttPublish_of_sizes (by decide : 1 < 3) hsize false false 0xffff
  obtain ⟨-, hqos, -, htopic, hpayload, -⟩ := mqttPublish_eq_ok hp
  have hnotices : w.notices m = w.deliveriesAt p .trash ++ [] := by
    rw [List.append_nil, World.deliveriesAt, World.notices]
    simp only [Subscriber.delivery, hqos, htopic, hpayload]
  refine delivering_get_bind ?_
  rw [hp, hnotices]
  have hpublish := delivering_publishTopic (sendable_of_eq_ok hp (by decide) hsize) .trash w
  exact settles_ok_bind (delivering_bind hpublish fun v _ => delivering_pure () v)

/-- `handle_publish`, from where the message is forwarded and was noted. -/
theorem settles_forwardPublish (hm : m.Sendable)
    (hsize : w.trashTopic.topicFilter.length + m.topicName.length + 4 ≤ 0x0fffffff)
    (it : Iteration) : Settles (forwardPublish it m) (w.HasIdsFor (w.deliveries it m))
      (fun _ w' => (w.noteRetain m.retain m.topicName m.payload).Makes (w.deliveries it m) w')
      w := by
  have hnote : w.HasIdsFor (w.deliveries it m) =
        (w.noteRetain m.retain m.topicName m.payload).HasIdsFor
          ((w.noteRetain m.retain m.topicName m.payload).deliveries it m) ∧
      w.deliveries it m = (w.noteRetain m.retain m.topicName m.payload).deliveries it m ∧
      (w.noteRetain m.retain m.topicName m.payload).trashTopic = w.trashTopic := by
    rw [World.noteRetain_eq]
    exact ⟨rfl, rfl, rfl⟩
  obtain ⟨hids, hdeliveries, htrash⟩ := hnote
  rw [hids, hdeliveries]
  rw [← htrash] at hsize
  refine settles_modify_bind ?_
  generalize w.noteRetain m.retain m.topicName m.payload = u at hsize
  suffices h : Delivering _ (u.deliveries it m) () u from h.mono Iff.rfl fun _ _ _ h => h.2
  have htopics : Returns (tryCatch (do publishTopic (← topicsAt m.topicName) m) fun _ => pure false)
      (fun _ v => v.topics true = u.topics true) u :=
    returns_tryCatch_topicsAt (fun _ _ => (returns_publishTopic_entry hm false m.topicName u).mono
      fun _ _ h => h.2.2 rfl) fun _ => rfl
  rw [World.deliveries, World.forwards, World.places, List.flatMap_cons, List.flatMap_map,
    List.append_assoc]
  refine delivering_bind_of_returns (delivering_publishExact hm u) htopics fun v hv hvtopics =>
    delivering_get_bind ?_
  rw [← hvtopics, ← hv.deliveriesAt]
  refine delivering_bind (delivering_publishWild hm it _ v) fun x hx => ?_
  have hfinds : (it.order (v.topics true).elems).foldl (findReceiver m)
      (!(u.subscribersAt (.entry false m.topicName)).isEmpty) = u.findsReceiver it m := by
    rw [hvtopics, World.findsReceiver]
  have hux := hv.trans hx
  rw [hfinds, ← hux.notices]
  cases u.findsReceiver it m with
  | true => exact delivering_pure () x
  | false =>
    refine delivering_publishTrash ?_
    rwa [hux.trash]

/-- The state when a message of the client `c` at the channel `k` has been taken and
    answered, and is forwarded next. -/
def World.accepted (w : World) (k : ChannelId) (c : MqttClient) (m : MqttPublish) : World :=
  (w.served k c (.publish m)).noteRetain m.retain m.topicName m.payload

theorem accepted_eq (w : World) (k : ChannelId) (c : MqttClient) (m : MqttPublish) :
    w.accepted k c m = { w with
      session := (w.accepted k c m).session
      log := (w.accepted k c m).log } := by
  rw [World.accepted, World.noteRetain_eq, served_eq]

/-- Taking a message enters the packet id of one of QoS 2, to be released. -/
theorem session_accepted (w : World) (k : ChannelId) (c : MqttClient) (m : MqttPublish)
    (s : SessionRef) : (w.accepted k c m).session s = { w.session s with
      packetIdForPubrel := (w.session s).packetIdForPubrel ++
        if s = c.session ∧ m.qos = 2 then [m.packetId] else [] } := by
  have hnote : (w.accepted k c m).session = (w.served k c (.publish m)).session := by
    rw [World.accepted, World.noteRetain_eq]
  rw [hnote, w.session_served, Function.update_apply, Session.served]
  split_ifs with hs hq <;> simp_all [Session.addPacketIdForPubrel]

/-- Handling a PUBLISH makes its deliveries, if there are packet ids for them. -/
theorem settles_handlePublish (hm : m.Sendable)
    (hsize : w.trashTopic.topicFilter.length + m.topicName.length + 4 ≤ 0x0fffffff)
    (hc : w.param k = some c) (it : Iteration) :
    Settles (handlePublish it k m) (w.HasIdsFor (w.deliveries it m))
      (fun _ w' => (w.accepted k c m).Makes (w.deliveries it m) w') w := by
  have hv := served_eq w k c (.publish m)
  have hvtrash : (w.served k c (.publish m)).trashTopic = w.trashTopic := by rw [hv]
  have hvdeliveries : (w.served k c (.publish m)).deliveries it m = w.deliveries it m := by
    rw [hv]
    rfl
  have hvids : (w.served k c (.publish m)).HasIdsFor (w.deliveries it m) ↔
      w.HasIdsFor (w.deliveries it m) := by
    refine forall_congr' fun s => ?_
    rw [w.session_served, Function.update_apply, Session.served]
    split_ifs with hs hq
    · rw [hs]
      rfl
    · rw [hs]
    · rfl
  have hforward := settles_forwardPublish (w := w.served k c (.publish m)) hm
    (by rwa [hvtrash]) it
  rw [hvdeliveries, hvids] at hforward
  rw [Settles, handlePublish, agent_bind_apply hc, modify_bind_apply]
  exact hforward

/-- Handling a PUBLISH stores it in the topics it comes to. -/
theorem returns_handlePublish_stores (hm : m.Sendable)
    (hsize : w.trashTopic.topicFilter.length + m.topicName.length + 4 ≤ 0x0fffffff)
    (hc : w.param k = some c) (it : Iteration) :
    Returns (handlePublish it k m) (fun _ w' => ∀ b f, w'.topicAt (.entry b f) =
      if m.retain = true ∧ m.Reaches b f then (w.topicAt (.entry b f)).map fun t => t.retain m
      else w.topicAt (.entry b f)) w := by
  have hv := served_eq w k c (.publish m)
  have hvtrash : (w.served k c (.publish m)).trashTopic = w.trashTopic := by rw [hv]
  have hvtopic : ∀ b f, (w.served k c (.publish m)).topicAt (.entry b f) =
      w.topicAt (.entry b f) := by
    intro b f
    rw [hv]
    rfl
  have hforward := returns_forwardPublish_stores (w := w.served k c (.publish m)) hm
    (by rwa [hvtrash]) it
  simp only [hvtopic] at hforward
  rw [Returns, handlePublish, agent_bind_apply hc, modify_bind_apply]
  exact hforward

/-! ## The whole of a step -/

/-- A packet that is written, and to which channel. -/
def Effect.written : Effect → Option (ChannelId × Packet)
  | .write k _ p => some (k, p)
  | _ => none

/-- The packets that were written. -/
def World.written (w : World) : List (ChannelId × Packet) := w.log.filterMap Effect.written

/-- The PUBLISHes that were written. -/
def World.publishes (w : World) : List (ChannelId × MqttPublish) :=
  w.written.filterMap fun x => x.2.toPublish.map fun p => (x.1, p)

theorem written_record (w : World) (e : Effect) :
    (w.record e).written = w.written ++ e.written.toList := w.filterMap_record Effect.written e

/-- What the call on an event writes. -/
def World.writes (cfg : Config) (w : World) (e : Event) : List (ChannelId × Packet) :=
  ((broker cfg).step w e).elim [] fun w' => w'.written.drop w.written.length

theorem writes_of_written {ps : List (ChannelId × Packet)} (hst : (broker cfg).step w e = some w')
    (h : w'.written = w.written ++ ps) : w.writes cfg e = ps := by
  rw [World.writes, hst]
  show w'.written.drop _ = ps
  rw [h, List.drop_left]

/-- What is written for a delivery. -/
def Delivered.written (x : Delivered) : ChannelId × Packet :=
  (x.client.channelId, .publish x.publish)

theorem World.Delivers.written {xs : List Delivered} (h : w.Delivers xs w') :
    w'.written = w.written ++ xs.map Delivered.written := h.filterMap_log fun _ => rfl

/-- What the sender of a message is answered. -/
def MqttPublish.answer (m : MqttPublish) (k : ChannelId) : List (ChannelId × Packet) :=
  if m.qos = 1 then [(k, .puback (mqttPuback m.packetId))]
  else if m.qos = 2 then [(k, .pubrec (mqttPubrec m.packetId))]
  else []

theorem written_accepted (w : World) (k : ChannelId) (c : MqttClient) (m : MqttPublish) :
    (w.accepted k c m).written = w.written ++ m.answer k := by
  have hnote : (w.accepted k c m).written = (w.served k c (.publish m)).written := by
    rw [World.accepted, World.noteRetain]
    split_ifs
    · simp [written_record, Effect.written]
    · rfl
  have hsession : ∀ (v : World) s f, (v.modifySession s f).written = v.written := fun _ _ _ => rfl
  rw [hnote, World.served, World.receivePublish, MqttPublish.answer]
  split_ifs <;> simp [World.write, written_record, hsession, Effect.written]

/-- From `w` to `w'` the client `c` at the channel `k` is answered its message `m`, the
    deliveries `xs` are made, and nothing else happens. -/
structure World.FansOut (w : World) (k : ChannelId) (c : MqttClient) (m : MqttPublish)
    (xs : List Delivered) (w' : World) : Prop where
  written : w'.written = w.written ++ m.answer k ++ xs.map Delivered.written
  fresh : ∀ x ∈ xs, x.Kept →
    x.publish.packetId ≠ 0 ∧ (w.session x.client.session).inUse x.publish.packetId = false
  distinct s : ((xs.filter fun x => x.KeptIn s).map fun x => x.publish.packetId).Nodup
  publishForAck s : (w'.session s).publishForAck = (w.session s).publishForAck ++ madeFor 1 s xs
  publishForRec s : (w'.session s).publishForRec = (w.session s).publishForRec ++ madeFor 2 s xs
  packetIdForPubcomp s : (w'.session s).packetIdForPubcomp = (w.session s).packetIdForPubcomp
  packetIdForPubrel s : (w'.session s).packetIdForPubrel = (w.session s).packetIdForPubrel ++
    if s = c.session ∧ m.qos = 2 then [m.packetId] else []
  subscriptions s : (w'.session s).subscriptions = (w.session s).subscriptions
  subscribersAt : w'.subscribersAt = w.subscribersAt
  topicAt b f : ¬m.Reaches b f → w'.topicAt (.entry b f) = w.topicAt (.entry b f)

theorem World.Delivers.fansOut {xs : List Delivered} (h : (w.accepted k c m).Delivers xs w')
    (htopics : ∀ b f, ¬m.Reaches b f → w'.topicAt (.entry b f) = w.topicAt (.entry b f)) :
    w.FansOut k c m xs w' where
  written := by rw [h.written, written_accepted]
  fresh x hx hkept := by
    rw [x.packetId hkept]
    have hfresh := h.fresh x hx
    rwa [session_accepted] at hfresh
  distinct s := by
    have hids : ((xs.filter fun x => x.KeptIn s).map fun x => x.publish.packetId) = idsIn s xs :=
      List.map_congr_left fun x hx => x.packetId (of_decide_eq_true (List.mem_filter.1 hx).2).2
    rw [hids]
    exact h.distinct s
  publishForAck s := by rw [h.session, session_accepted]
  publishForRec s := by rw [h.session, session_accepted]
  packetIdForPubcomp s := by rw [h.session, session_accepted]
  packetIdForPubrel s := by rw [h.session, session_accepted]
  subscriptions s := by rw [h.session, session_accepted]
  subscribersAt := by
    rw [h.subscribersAt, accepted_eq]
    rfl
  topicAt := htopics

/-- A PUBLISH carries a message to a subscriber. -/
structure Delivered.Carries (x : Delivered) (s : Subscriber) (m : MqttPublish) : Prop where
  client : x.client = s.client
  dup : x.publish.dup = false
  retain : x.publish.retain = false
  qos : x.publish.qos = min m.qos s.maxQos
  topicName : x.publish.topicName = m.topicName
  payload : x.publish.payload = m.payload

theorem Delivered.carries {x : Delivered} {s : Subscriber} (h : x.toDelivery = s.delivery false m) :
    x.Carries s m := by
  obtain ⟨hdup, hqos, hretain, htopic, hpayload, -⟩ := mqttPublish_eq_ok x.built
  rw [h] at hqos hretain htopic hpayload
  exact ⟨congrArg Delivery.client h, hdup, hretain, hqos, htopic, hpayload⟩

/-- A decoded PUBLISH can be forwarded, and be told of in a notice. -/
theorem sendable_of_decoded (h : (broker cfg).Reachable w) (hm : (Packet.publish m).Decoded) :
    m.Sendable ∧ w.trashTopic.topicFilter.length + m.topicName.length + 4 ≤ 0x0fffffff := by
  obtain ⟨hqos, -, -, hsize⟩ := hm
  rw [(sys_of_reachable h).trash, show sysTrash.length = 10 from rfl]
  exact ⟨⟨hqos, by omega⟩, by omega⟩

/-- A PUBLISH of a client at a channel makes its deliveries, if there are packet ids
    for them, and only then is a step. -/
theorem step_publish_iff (h : (broker cfg).Reachable w) (ha : w.Admits e.action)
    (hp : e.packet = some (.publish m)) (hc : w.param e.action.channelId = some c) :
    (((broker cfg).step w e).isSome ↔ w.HasIdsFor (w.deliveries e.iteration m)) ∧
      ∀ w', (broker cfg).step w e = some w' →
        (w.accepted e.action.channelId c m).Makes (w.deliveries e.iteration m) w' := by
  obtain ⟨hm, hsize⟩ := sendable_of_decoded h (decoded_of_admits hp ha).2
  have hsettles := settles_handlePublish hm hsize hc e.iteration
  have hmakes : ∀ w', (broker cfg).step w e = some w' → w.HasIdsFor (w.deliveries e.iteration m) ∧
      (w.accepted e.action.channelId c m).Makes (w.deliveries e.iteration m) w' :=
    fun w' hst => returns_step hst hp hsettles.returns
  refine ⟨⟨fun hst => ?_, fun hids => ?_⟩, fun w' hst => (hmakes w' hst).2⟩
  · obtain ⟨w', hst⟩ := Option.isSome_iff_exists.1 hst
    exact (hmakes w' hst).1
  · obtain ⟨_, w', hrun, -⟩ := hsettles.exists_value hids
    exact Option.isSome_iff_exists.2 ⟨w', step_of_packetHandler ha hp hrun⟩

/-- A PUBLISH of a client fans out to its recipients, and to the subscribers of
    `$sys/trash` where it is found to have none. -/
theorem step_fansOut (h : (broker cfg).Reachable w) (hst : (broker cfg).step w e = some w')
    (hp : e.packet = some (.publish m)) (hc : w.param e.action.channelId = some c) :
    ∃ xs ns : List Delivered, xs.map Delivered.toDelivery = w.forwards e.iteration m ∧
      ns.map Delivered.toDelivery = (if w.findsReceiver e.iteration m then [] else w.notices m) ∧
      w.FansOut e.action.channelId c m (xs ++ ns) w' := by
  have ha := ((step_eq_some cfg).1 hst).1
  obtain ⟨zs, hzs, hdelivers⟩ := (step_publish_iff h ha hp hc).2 w' hst
  obtain ⟨xs, ns, rfl, hxs, hns⟩ := List.map_eq_append_iff.1 hzs
  refine ⟨xs, ns, hxs, hns, hdelivers.fansOut fun b f hnot => ?_⟩
  obtain ⟨hm, hsize⟩ := sendable_of_decoded h (decoded_of_admits hp ha).2
  rw [returns_step (Q := fun w' => ∀ b f, w'.topicAt (.entry b f) = _) hst hp
    (returns_handlePublish_stores hm hsize hc e.iteration), if_neg fun h => hnot h.2]

/-- From a reachable state with packet ids for its deliveries, a PUBLISH of a client is
    forwarded once for every topic it comes to and subscriber of it, besides notices to
    `$sys/trash`. -/
theorem publish_fans_out (h : (broker cfg).Reachable w) (ha : w.Admits e.action)
    (hp : e.packet = some (.publish m)) (hc : w.param e.action.channelId = some c)
    (hids : w.HasIdsFor (w.deliveries e.iteration m)) :
    ∃ (w' : World) (pairs : List (TopicPtr × Subscriber)) (xs ns : List Delivered),
      (broker cfg).step w e = some w' ∧ pairs.Nodup ∧
      (∀ p s, (p, s) ∈ pairs ↔ s ∈ w.subscribersAt p ∧ ∃ b f, p = .entry b f ∧ m.Reaches b f) ∧
      List.Forall₂ (fun pair x => x.Carries pair.2 m) pairs xs ∧
      (∀ n ∈ ns, n.toDelivery ∈ w.notices m) ∧
      w.FansOut e.action.channelId c m (xs ++ ns) w' := by
  obtain ⟨w', hst⟩ := Option.isSome_iff_exists.1 ((step_publish_iff h ha hp hc).1.2 hids)
  obtain ⟨xs, ns, hxs, hns, hfans⟩ := step_fansOut h hst hp hc
  refine ⟨w', w.recipients e.iteration m, xs, ns, hst, nodup_recipients,
    fun p s => mem_recipients, ?_, fun n hn => ?_, hfans⟩
  · rw [forwards_eq_map, ← List.forall₂_eq_eq_eq, List.forall₂_map_left_iff,
      List.forall₂_map_right_iff] at hxs
    exact hxs.flip.imp fun pair x hx => Delivered.carries hx
  · have hmem := List.mem_map_of_mem (f := Delivered.toDelivery) hn
    rw [hns] at hmem
    split_ifs at hmem
    · exact absurd hmem List.not_mem_nil
    · exact hmem

/-- A client with two filters that match is sent a message twice. -/
theorem fans_out_twice : ∃ (w w' : World) (c : MqttClient) (m : MqttPublish)
    (pairs : List (TopicPtr × Subscriber)) (xs ns : List Delivered) (s t : Subscriber),
    (broker mqttdCfg).Reachable w ∧ w.param 1 = some c ∧ s.client = t.client ∧
      (.entry false [0x74], s) ∈ pairs ∧ (.entry true [0x2b], t) ∈ pairs ∧
      List.Forall₂ (fun pair x => x.Carries pair.2 m) pairs xs ∧ w.FansOut 1 c m (xs ++ ns) w' := by
  let e := (Action.read 1 (publishBytes 0x02 [0x74] [0x00, 0x07] [0x01])).event
  let m : MqttPublish := ⟨⟨.publish, 2, 6⟩, false, 1, false, [0x74], 7, [0x01]⟩
  have hp : e.packet = some (.publish m) := by
    decide +kernel
  have hruns : runs (fun _ _ => true)
      [.accept 1, .accept 2, .read 1 (connectBytes 0x02 [0x61] []),
        .read 2 (connectBytes 0x02 [0x62] []), .read 2 (subscribeBytes [0x74] 0x01),
        .read 2 (subscribeBytes [0x2b] 0x02)]
      (fun w => decide (w.Admits e.action) && (w.param 1).any fun _ =>
        (w.subscribersAt (.entry false [0x74])).any fun s =>
          (w.subscribersAt (.entry true [0x2b])).any fun t => decide (s.client = t.client) &&
            (w.deliveries e.iteration m).all fun d => decide ((w.deliveries e.iteration m).length +
              (w.session d.client.session).load ≤ 65535)) = true := by
    decide +kernel
  obtain ⟨l, w, hl, -, hrun⟩ := exists_run hruns
  obtain ⟨ha, hrun⟩ := Bool.and_eq_true_iff.1 hrun
  obtain ⟨c, hc, hrun⟩ := Option.any_eq_true _ _ |>.1 hrun
  obtain ⟨s, hs, hrun⟩ := List.any_eq_true.1 hrun
  obtain ⟨t, ht, hrun⟩ := List.any_eq_true.1 hrun
  obtain ⟨hclient, hload⟩ := Bool.and_eq_true_iff.1 hrun
  have hids := hasIdsFor_of_load fun d hd => of_decide_eq_true (List.all_eq_true.1 hload d hd)
  obtain ⟨w', pairs, xs, ns, -, -, hpairs, hcarries, -, hfans⟩ :=
    publish_fans_out hl.reachable (of_decide_eq_true ha) hp hc hids
  exact ⟨w, w', c, m, pairs, xs, ns, s, t, hl.reachable, hc, of_decide_eq_true hclient,
    (hpairs _ _).2 ⟨hs, false, _, rfl, rfl⟩, (hpairs _ _).2 ⟨ht, true, _, rfl, by decide⟩, hcarries,
    hfans⟩

end MqttBroker
