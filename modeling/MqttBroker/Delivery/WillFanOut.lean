import MqttBroker.Delivery.FanOut

/-!
# Wills and messages

`publish_will_message` publishes the will of a client as `handle_publish` would
publish a message that says the same (`World.WillAgrees`), but it looks for the
topic of its name only: the subscribers of wild topics get nothing. And it takes
a packet id of the client that is gone, although nothing is filed there, so it
may hang where `handle_publish` would not. These are all the differences
(`willAgrees_iff`).
-/

namespace MqttBroker

open Prog

variable {cfg : Config} {w u v w' : World} {it : Iteration} {m : MqttPublish} {k : ChannelId}
  {c sender : MqttClient}

/-! ## `publish_will_message` -/

/-- The deliveries of the will of a client. -/
def World.willDeliveries (w : World) (c : MqttClient) : List Delivery :=
  (w.subscribersAt (.entry false c.willTopic)).map fun s =>
    ⟨s.client, min c.willQos s.maxQos, false, c.willTopic, c.willMessage⟩

/-- The state when the will of a client was noted, and the packet ids of the client have
    moved. -/
def World.willNoted (w : World) (c : MqttClient) (next : UInt16) : World :=
  (w.noteWill c).modifySession c.session fun _ =>
    { w.session c.session with nextPacketId := next }

theorem topicAt_willNoted (w : World) (c : MqttClient) (next : UInt16) :
    (w.willNoted c next).topicAt = w.topicAt := by
  rw [World.willNoted, World.noteWill_eq]
  rfl

theorem inUse_willNoted (w : World) (c : MqttClient) (next : UInt16) (s : SessionRef) :
    ((w.willNoted c next).session s).inUse = (w.session s).inUse := by
  rw [World.willNoted, World.session_modifySession, World.noteWill_eq]
  split_ifs with hs
  · rw [hs]
    rfl
  · rfl

theorem hasIdsFor_willNoted (w : World) (c : MqttClient) (next : UInt16) (ds : List Delivery) :
    (w.willNoted c next).HasIdsFor ds ↔ w.HasIdsFor ds :=
  hasIdsFor_congr (inUse_willNoted w c next)

/-- The PUBLISH that is made of a will goes to the subscribers of the topic of its name. -/
theorem settles_publishTopic_will (hqos : c.willQos < 3)
    (hsize : c.willTopic.length + c.willMessage.length + 4 ≤ 0x0fffffff) {id : UInt16}
    {p : MqttPublish}
    (hp : mqttPublish false c.willQos c.willRetain c.willTopic id c.willMessage = .ok p)
    (w : World) (next : UInt16) : Settles (publishTopic (.entry false c.willTopic) p)
      (w.HasIdsFor (w.willDeliveries c))
      (fun _ u => (w.willNoted c next).Makes (w.willDeliveries c) u) (w.willNoted c next) := by
  obtain ⟨-, hpqos, -, htopic, hpayload, -⟩ := mqttPublish_eq_ok hp
  have hdeliveries : (w.willNoted c next).deliveriesAt p (.entry false c.willTopic) =
      w.willDeliveries c := by
    rw [World.deliveriesAt, World.willDeliveries, World.subscribersAt, World.subscribersAt,
      topicAt_willNoted]
    simp only [Subscriber.delivery, hpqos, htopic, hpayload]
  have hpublish := delivering_publishTopic (sendable_of_eq_ok hp hqos hsize)
    (.entry false c.willTopic) (w.willNoted c next)
  rw [Delivering, hdeliveries, hasIdsFor_willNoted] at hpublish
  exact hpublish.mono Iff.rfl fun _ _ _ h => h.2

/-- A will is published to the subscribers of the topic of its name. If that is there, a
    packet id of the client is needed, too. -/
theorem settles_publishWillMessage (hwill : c.willFlag = true) (hqos : c.willQos < 3)
    (hsize : c.willTopic.length + c.willMessage.length + 4 ≤ 0x0fffffff) (w : World) :
    Settles (publishWillMessage c)
      (w.topicAt (.entry false c.willTopic) = none ∨
        (w.session c.session).HasFreeId ∧ w.HasIdsFor (w.willDeliveries c))
      (fun _ u => ∃ next, (w.willNoted c next).Makes (w.willDeliveries c) u) w := by
  have hsession : (w.noteWill c).session = w.session := by rw [World.noteWill_eq]
  have htopicAt : (w.noteWill c).topicAt = w.topicAt := by
    rw [World.noteWill_eq]
    rfl
  rw [publishWillMessage, if_pos hwill]
  refine settles_modify_bind (settles_modify_bind ?_)
  rw [← World.noteWill, Settles, tryCatch_topicsAt_apply, htopicAt]
  cases ht : w.topicAt (.entry false c.willTopic) with
  | none =>
    -- Nobody takes a packet id, so the counter is where it was.
    have hnone : w.willDeliveries c = [] := by
      rw [World.willDeliveries, World.subscribersAt, ht]
      rfl
    have hsame : w.willNoted c (w.session c.session).nextPacketId =
        w.noteWill c := by
      rw [World.willNoted, ← hsession, World.modifySession, Function.update_eq_self]
    refine ⟨.inl rfl, (w.session c.session).nextPacketId, ?_⟩
    rw [hnone, hsame]
    exact makes_nil _
  | some t =>
    rw [or_iff_right (Option.some_ne_none t)]
    refine settles_tryCatch (settles_bind (settles_newPacketId _ c.session)
      (fun h => hsession ▸ h.1) fun id x hfree hx => ?_)
    obtain ⟨next, rfl⟩ := hx
    rw [hsession] at hfree ⊢
    obtain ⟨p, hp⟩ := mqttPublish_of_sizes hqos hsize false c.willRetain id
    rw [hp, ← World.willNoted]
    exact settles_ok_bind (settles_bind (settles_publishTopic_will hqos hsize hp w next) And.right
      fun _ x hids hx => settles_pure ⟨hfree, hids⟩ ⟨next, hx⟩)

theorem written_willNoted (w : World) (c : MqttClient) (next : UInt16) :
    (w.willNoted c next).written = w.written := by
  have hrun : (w.record (.will c)).written = w.written :=
    (written_record w _).trans (List.append_nil _)
  show (w.noteWill c).written = w.written
  rw [World.noteWill, World.noteRetain]
  split_ifs
  · exact (written_record _ _).trans ((List.append_nil _).trans hrun)
  · exact hrun

/-! ## Both at once -/

/-- A PUBLISH that is written to a channel. -/
abbrev Posting := ChannelId × MqttPublish

namespace Posting

/-- The packet as it is written. -/
def written (x : Posting) : ChannelId × Packet := (x.1, .publish x.2)

/-- The PUBLISH without its packet id. -/
def unnumbered (x : Posting) : Posting := (x.1, { x.2 with packetId := 0 })

end Posting

/-- The PUBLISH that is written for a delivery. -/
def Delivered.posting (x : Delivered) : Posting := (x.client.channelId, x.publish)

/-- `publish_will_message` for the client `c` agrees with `handle_publish` for the message `m`
    from the channel `k`, wherever that returns: it writes the same PUBLISHes to the same
    channels, but for the packet ids, the answer to the sender and the notices to
    `$sys/trash`, and the topic retains the same message. -/
def World.WillAgrees (w : World) (c : MqttClient) (it : Iteration) (k : ChannelId)
    (m : MqttPublish) : Prop :=
  ∀ v, handlePublish it k m w = (.value (), v) → ∃ (u : World) (xs ns ys : List Posting),
    publishWillMessage c w = (.value (), u) ∧
    v.written = w.written ++ m.answer k ++ (xs ++ ns).map Posting.written ∧
    u.written = w.written ++ ys.map Posting.written ∧
    (∀ n ∈ ns, n.2.topicName = sysTrash) ∧
    (xs.map Posting.unnumbered).Perm (ys.map Posting.unnumbered) ∧
    (u.retainedAt c.willTopic).map MqttPublish.content =
      (v.retainedAt c.willTopic).map MqttPublish.content

/-- Deliveries of one topic are PUBLISHes of that topic. -/
theorem posting_topicName {xs : List Delivered} {ds : List Delivery} {topicName : Bytes}
    (h : xs.map Delivered.toDelivery = ds) (hds : ∀ d ∈ ds, d.topicName = topicName) :
    ∀ x ∈ xs.map Delivered.posting, x.2.topicName = topicName := by
  intro x hx
  obtain ⟨x, hxs, rfl⟩ := List.mem_map.1 hx
  have hmem := List.mem_map_of_mem (f := Delivered.toDelivery) hxs
  rw [h] at hmem
  exact (mqttPublish_eq_ok x.built).2.2.2.1.trans (hds _ hmem)

theorem topicName_of_mem_deliveriesAt {p : TopicPtr} {d : Delivery} (hd : d ∈ w.deliveriesAt m p) :
    d.topicName = m.topicName := by
  obtain ⟨s, -, rfl⟩ := List.mem_map.1 hd
  rfl

theorem topicName_of_mem_forwards {d : Delivery} (hd : d ∈ w.forwards it m) :
    d.topicName = m.topicName := by
  obtain ⟨p, -, hd⟩ := List.mem_flatMap.1 hd
  exact topicName_of_mem_deliveriesAt hd

theorem topicName_of_mem_notices {d : Delivery}
    (hd : d ∈ if w.findsReceiver it m then [] else w.notices m) :
    d.topicName = w.trashTopic.topicFilter := by
  split_ifs at hd
  · exact absurd hd List.not_mem_nil
  · obtain ⟨s, -, rfl⟩ := List.mem_map.1 hd
    rfl

/-- As many PUBLISHes of a list have the topic as are in its first part, where all of that
    part have it and none of the other. -/
theorem countP_topicName {xs ns : List Posting} {topicName : Bytes}
    (hxs : ∀ x ∈ xs, x.2.topicName = topicName) (hns : ∀ n ∈ ns, n.2.topicName ≠ topicName) :
    (xs ++ ns).countP (fun x => x.2.topicName = topicName) = xs.length := by
  rw [List.countP_append, List.countP_eq_length.2 fun x hx => decide_eq_true (hxs x hx),
    List.countP_eq_zero.2 fun n hn h => hns n hn (of_decide_eq_true h), Nat.add_zero]

/-- Two ways to cut a list where the topic changes cut it at the same place. -/
theorem length_eq_of_topicName {xs xs' ns ns' : List Posting} {topicName noticeName : Bytes}
    (hne : topicName ≠ noticeName) (h : xs ++ ns = xs' ++ ns')
    (hxs : ∀ x ∈ xs, x.2.topicName = topicName) (hns : ∀ n ∈ ns, n.2.topicName = noticeName)
    (hxs' : ∀ x ∈ xs', x.2.topicName = topicName) (hns' : ∀ n ∈ ns', n.2.topicName = noticeName) :
    xs.length = xs'.length := by
  have hcount := congrArg (List.countP fun x : Posting => x.2.topicName = topicName) h
  rwa [countP_topicName hxs fun n hn h => hne (h.symm.trans (hns n hn)),
    countP_topicName hxs' fun n hn h => hne (h.symm.trans (hns' n hn))] at hcount

/-- PUBLISHes that say the same have the same topic. -/
theorem topicName_of_perm {xs ys : List Posting} {topicName : Bytes}
    (h : (xs.map Posting.unnumbered).Perm (ys.map Posting.unnumbered))
    (hys : ∀ y ∈ ys, y.2.topicName = topicName) : ∀ x ∈ xs, x.2.topicName = topicName := by
  intro x hx
  obtain ⟨y, hy, hxy⟩ := List.mem_map.1 (h.mem_iff.1 (List.mem_map_of_mem hx))
  have htopic : y.unnumbered.2.topicName = x.unnumbered.2.topicName := by rw [hxy]
  exact htopic.symm.trans (hys y hy)

theorem posting_written (xs : List Delivered) :
    (xs.map Delivered.posting).map Posting.written = xs.map Delivered.written := List.map_map

/-- Packets tell the PUBLISHes they are. -/
theorem written_injective {xs ys : List Posting}
    (h : xs.map Posting.written = ys.map Posting.written) : xs = ys := by
  refine List.map_injective_iff.2 (fun x y hxy => ?_) h
  obtain ⟨hk, hp⟩ := Prod.mk.inj hxy
  exact Prod.ext hk (Packet.publish.inj hp)

/-- The same delivery is the same PUBLISH, but for the packet id. -/
theorem Delivered.unnumbered_eq {x y : Delivered} (h : x.toDelivery = y.toDelivery) :
    x.posting.unnumbered = y.posting.unnumbered := by
  have hbuilt : ∀ {dup retain : Bool} {qos : Nat} {topicName payload : Bytes} {id id' : UInt16}
      {p p' : MqttPublish}, mqttPublish dup qos retain topicName id payload = .ok p →
      mqttPublish dup qos retain topicName id' payload = .ok p' →
        ({ p with packetId := 0 } : MqttPublish) = { p' with packetId := 0 } := by
    intro dup retain qos topicName payload id id' p p' hp hp'
    simp only [mqttPublish] at hp hp'
    split_ifs at hp hp' <;> cases hp <;> cases hp' <;> rfl
  have hx := x.built
  rw [h] at hx
  have hclient := congrArg Delivery.client h
  rw [Posting.unnumbered, Posting.unnumbered, Delivered.posting, Delivered.posting, hclient]
  exact congrArg (Prod.mk _) (hbuilt hx y.built)

theorem unnumbered_map_eq {xs ys : List Delivered}
    (h : xs.map Delivered.toDelivery = ys.map Delivered.toDelivery) :
    (xs.map Delivered.posting).map Posting.unnumbered =
      (ys.map Delivered.posting).map Posting.unnumbered := by
  rw [← List.forall₂_eq_eq_eq, List.forall₂_map_left_iff, List.forall₂_map_right_iff] at h
  rw [List.map_map, List.map_map, ← List.forall₂_eq_eq_eq, List.forall₂_map_left_iff,
    List.forall₂_map_right_iff]
  exact h.imp fun x y => Delivered.unnumbered_eq

/-- What is forwarded is delivered to the subscribers of the topic of its name, and then to
    those of the wild topics that match. -/
theorem forwards_eq_exact_iff (w : World) (it : Iteration) (m : MqttPublish) :
    w.forwards it m = w.deliveriesAt m (.entry false m.topicName) ↔
      ∀ f, topicMatch f m.topicName = true → w.subscribersAt (.entry true f) = [] := by
  rw [World.forwards, World.places, List.flatMap_cons, List.append_right_eq_self,
    List.flatMap_eq_nil_iff]
  constructor
  · intro h f hmatch
    cases ht : w.topicAt (.entry true f) with
    | none =>
      rw [World.subscribersAt, ht]
      rfl
    | some t =>
      obtain ⟨hmem, rfl⟩ := Keyed.mem_of_find ht
      exact List.map_eq_nil_iff.1 (h _ (List.mem_map_of_mem
        (List.mem_filter.2 ⟨(it.perm _).mem_iff.2 hmem, hmatch⟩)))
  · intro h p hp
    obtain ⟨t, ht, rfl⟩ := List.mem_map.1 hp
    exact List.map_eq_nil_iff.2 (h _ (List.mem_filter.1 ht).2)

/-- The deliveries of a will are those of a message that says the same, to the subscribers
    of the topic of its name. -/
theorem deliveriesAt_of_content (h : m.content = c.willContent) :
    w.deliveriesAt m (.entry false m.topicName) = w.willDeliveries c := by
  obtain ⟨hqos, -, htopic, hpayload⟩ : m.qos = c.willQos ∧ m.retain = c.willRetain ∧
      m.topicName = c.willTopic ∧ m.payload = c.willMessage := by
    simpa [MqttPublish.content, MqttClient.willContent] using h
  rw [World.deliveriesAt, World.willDeliveries]
  simp only [Subscriber.delivery, hqos, htopic, hpayload]

/-- The same message is retained by the topic of its name. -/
theorem retained_content_eq (hcontent : m.content = c.willContent) (hwill : c.willFlag = true)
    {p : MqttPublish} (hp : p.content = c.willContent)
    (hu : ∀ b f, u.topicAt (.entry b f) =
      if c.willFlag = true ∧ c.willRetain = true ∧ b = false ∧ f = c.willTopic then
        (w.topicAt (.entry b f)).map fun t => t.retain p
      else w.topicAt (.entry b f))
    (hv : ∀ b f, v.topicAt (.entry b f) =
      if m.retain = true ∧ m.Reaches b f then (w.topicAt (.entry b f)).map fun t => t.retain m
      else w.topicAt (.entry b f)) :
    (u.retainedAt c.willTopic).map MqttPublish.content =
      (v.retainedAt c.willTopic).map MqttPublish.content := by
  have hretain : m.retain = c.willRetain := congrArg (fun x => x.2.1) hcontent
  have htopic : m.Reaches false c.willTopic :=
    (congrArg (fun x => x.2.2.1) hcontent : m.topicName = c.willTopic).symm
  have hpayload : p.payload = m.payload := congrArg (fun x => x.2.2.2) (hp.trans hcontent.symm)
  rw [World.retainedAt, hu, World.retainedAt, hv, hretain]
  by_cases hr : c.willRetain = true
  · rw [if_pos ⟨hwill, hr, rfl, rfl⟩, if_pos ⟨hr, htopic⟩]
    cases w.topicAt (.entry false c.willTopic) with
    | none => rfl
    | some t =>
      simp only [Option.map_some, Option.bind_some, Topic.retain, hpayload]
      split_ifs
      · rfl
      · exact congrArg some (hp.trans hcontent.symm)
  · rw [if_neg fun h => hr h.2.1, if_neg fun h => hr h.1]

/-- From a reachable state, a will is published like a message that says the same exactly
    when there is nobody subscribed to a wild topic that matches, and the topic of its name
    is not there or the session of the client has a free packet id; or when
    `handle_publish` runs out of packet ids. -/
theorem willAgrees_iff (h : (broker cfg).Reachable w) (hwill : c.willFlag = true)
    (hm : (Packet.publish m).Decoded) (hcontent : m.content = c.willContent)
    (hsender : w.param k = some sender) (it : Iteration) :
    w.WillAgrees c it k m ↔ (w.HasIdsFor (w.deliveries it m) →
      (∀ f, topicMatch f m.topicName = true → w.subscribersAt (.entry true f) = []) ∧
        (w.topicAt (.entry false m.topicName) = none ∨ (w.session c.session).HasFreeId)) := by
  have hsys := (sys_of_reachable h).trash
  obtain ⟨hsend, hsize⟩ := sendable_of_decoded h hm
  obtain ⟨hqos, -, htopic, hpayload⟩ : m.qos = c.willQos ∧ m.retain = c.willRetain ∧
      m.topicName = c.willTopic ∧ m.payload = c.willMessage := by
    simpa [MqttPublish.content, MqttClient.willContent] using hcontent
  have hwillQos : c.willQos < 3 := hqos ▸ hsend.1
  have hwillSize : c.willTopic.length + c.willMessage.length + 4 ≤ 0x0fffffff := by
    rw [← htopic, ← hpayload]
    exact hsend.2
  have hpublish := settles_handlePublish hsend hsize hsender it
  have hstores := returns_handlePublish_stores hsend hsize hsender it
  have hwills := settles_publishWillMessage hwill hwillQos hwillSize w
  have hwillStores := returns_publishWillMessage_stores hwillQos hwillSize w
  rw [← deliveriesAt_of_content hcontent, ← htopic] at hwills
  rw [← forwards_eq_exact_iff w it m]
  -- What is forwarded has the topic of the message, and the notices have another one.
  have hne : m.topicName ≠ sysTrash := fun heq => hm.2.2.1 (by rw [heq]; rfl)
  have hnotices : ∀ {ns : List Delivered}, ns.map Delivered.toDelivery =
      (if w.findsReceiver it m then [] else w.notices m) →
        ∀ n ∈ ns.map Delivered.posting, n.2.topicName = sysTrash :=
    fun hns => posting_topicName hns fun d hd => (topicName_of_mem_notices hd).trans hsys
  constructor
  · intro hagrees hids
    obtain ⟨_, v, hv, zs, hzs, hdelivers⟩ := hpublish.exists_value hids
    obtain ⟨xs₀, ns₀, rfl, hxs₀, hns₀⟩ := List.map_eq_append_iff.1 hzs
    obtain ⟨u, xs, ns, ys, hu, hvwritten, huwritten, hns, hperm, -⟩ := hagrees v hv
    obtain ⟨hfree, next, ys₀, hys₀, hwilldelivers⟩ := hwills.returns.of_value hu
    rw [hwilldelivers.written, written_willNoted, List.append_cancel_left_eq,
      ← posting_written] at huwritten
    rw [hdelivers.written, written_accepted, List.append_cancel_left_eq,
      ← posting_written] at hvwritten
    obtain rfl := written_injective huwritten
    have hlists := written_injective hvwritten
    rw [List.map_append] at hlists
    have hxtopic : ∀ x ∈ xs, x.2.topicName = m.topicName :=
      topicName_of_perm hperm (posting_topicName hys₀ fun _ => topicName_of_mem_deliveriesAt)
    -- As many are forwarded as are published of the will.
    have hcount := length_eq_of_topicName hne hlists
      (posting_topicName hxs₀ fun _ => topicName_of_mem_forwards) (hnotices hns₀) hxtopic hns
    have hlength := hperm.length_eq
    simp only [List.length_map] at hcount hlength
    refine ⟨?_, hfree.imp_right And.left⟩
    have hpart : w.deliveriesAt m (.entry false m.topicName) <+: w.forwards it m :=
      List.prefix_append _ _
    refine (hpart.eq_of_length ?_).symm
    rw [← hys₀, ← hxs₀, List.length_map, List.length_map, ← hlength, hcount]
  · intro hwhen v hv
    obtain ⟨hids, zs, hzs, hdelivers⟩ := hpublish.returns.of_value hv
    obtain ⟨hexact, hfree⟩ := hwhen hids
    obtain ⟨xs, ns, rfl, hxs, hns⟩ := List.map_eq_append_iff.1 hzs
    rw [hexact] at hxs
    have hwillIds : w.HasIdsFor (w.deliveriesAt m (.entry false m.topicName)) := by
      rw [← hexact]
      exact hids.left
    obtain ⟨_, u, hu, next, ys, hys, hwilldelivers⟩ :=
      hwills.exists_value (hfree.imp_right fun hfree => ⟨hfree, hwillIds⟩)
    obtain ⟨p, hp, hustored⟩ := hwillStores.of_value hu
    refine ⟨u, xs.map Delivered.posting, ns.map Delivered.posting, ys.map Delivered.posting, hu,
      ?_, ?_, hnotices hns, ?_, ?_⟩
    · rw [hdelivers.written, written_accepted, ← List.map_append, posting_written]
    · rw [hwilldelivers.written, written_willNoted, posting_written]
    · rw [unnumbered_map_eq (hxs.trans hys.symm)]
    · exact retained_content_eq hcontent hwill hp hustored (hstores.of_value hv)

/-- The will of a client is published to the subscriber of its topic, as a message is. -/
theorem willAgrees_exact : ∃ (w : World) (c : MqttClient) (m : MqttPublish),
    (broker mqttdCfg).Reachable w ∧ w.param 1 = some c ∧ c.willFlag = true ∧
      m.content = c.willContent ∧ w.subscribersAt (.entry false m.topicName) ≠ [] ∧
        w.WillAgrees c ⟨id, fun _ => .refl _⟩ 2 m := by
  let m : MqttPublish := ⟨⟨.publish, 0, 4⟩, false, 0, false, [0x74], 0, [0x01]⟩
  have hruns : runs (fun _ _ => true)
      [.accept 1, .accept 2,
        .read 1 (connectBytes 0x06 [0x61] (lengthPrefixed [0x74] ++ lengthPrefixed [0x01])),
        .read 2 (connectBytes 0x02 [0x62] []), .read 2 (subscribeBytes [0x74] 0x01)]
      (fun w => (w.param 1).any fun c => (w.param 2).any fun _ =>
        c.willFlag && decide (m.content = c.willContent) &&
          !(w.subscribersAt (.entry false m.topicName)).isEmpty &&
            (w.topics true).elems.isEmpty && decide ((w.session c.session).inUse 1 = false)) =
        true := by
    decide +kernel
  obtain ⟨l, w, hl, -, hrun⟩ := exists_run hruns
  obtain ⟨c, hc, hrun⟩ := Option.any_eq_true _ _ |>.1 hrun
  obtain ⟨sender, hsender, hrun⟩ := Option.any_eq_true _ _ |>.1 hrun
  simp only [Bool.and_eq_true, Bool.not_eq_true', List.isEmpty_eq_false_iff, List.isEmpty_iff,
    decide_eq_true_eq] at hrun
  obtain ⟨⟨⟨⟨hwill, hcontent⟩, hsub⟩, hwild⟩, hfree⟩ := hrun
  refine ⟨w, c, m, hl.reachable, hc, hwill, hcontent, hsub, (willAgrees_iff hl.reachable hwill
    ⟨by decide, by decide, by decide, by decide⟩ hcontent hsender _).2 fun _ =>
      ⟨fun f _ => ?_, .inr ⟨1, by decide, hfree⟩⟩⟩
  rw [World.subscribersAt, World.topicAt, Keyed.find, hwild]
  rfl

/-- The subscriber of a wild topic is sent a message, but not a will that says the same. -/
theorem will_missed_by_wild_subscriber : ¬∀ (w : World) (j k : ChannelId) (c sender : MqttClient)
    (m : MqttPublish) (it : Iteration), (broker mqttdCfg).Reachable w → w.param j = some c →
    c.willFlag = true → (Packet.publish m).Decoded → m.content = c.willContent →
    w.param k = some sender → w.WillAgrees c it k m := by
  intro h
  let m : MqttPublish := ⟨⟨.publish, 0, 4⟩, false, 0, false, [0x74], 0, [0x01]⟩
  let it : Iteration := ⟨id, fun _ => .refl _⟩
  have hruns : runs (fun _ _ => true)
      [.accept 1, .accept 2,
        .read 1 (connectBytes 0x06 [0x61] (lengthPrefixed [0x74] ++ lengthPrefixed [0x01])),
        .read 2 (connectBytes 0x02 [0x62] []), .read 2 (subscribeBytes [0x2b] 0x01)]
      (fun w => (w.param 1).any fun c => (w.param 2).any fun _ =>
        c.willFlag && decide (m.content = c.willContent) &&
          decide ((publishWillMessage c w).2.written = w.written) &&
          decide ((handlePublish it 2 m w).2.written = w.written ++ [(2, .publish m)]) &&
          (w.deliveries it m).all fun d => decide ((w.deliveries it m).length +
            (w.session d.client.session).load ≤ 65535)) = true := by
    decide +kernel
  obtain ⟨l, w, hl, -, hrun⟩ := exists_run hruns
  obtain ⟨c, hc, hrun⟩ := Option.any_eq_true _ _ |>.1 hrun
  obtain ⟨sender, hsender, hrun⟩ := Option.any_eq_true _ _ |>.1 hrun
  simp only [Bool.and_eq_true, List.all_eq_true, decide_eq_true_eq] at hrun
  obtain ⟨⟨⟨⟨hwill, hcontent⟩, hnothing⟩, hone⟩, hload⟩ := hrun
  have hm : (Packet.publish m).Decoded := ⟨by decide, by decide, by decide, by decide⟩
  obtain ⟨hsend, hsize⟩ := sendable_of_decoded hl.reachable hm
  obtain ⟨_, v, hv, -⟩ :=
    (settles_handlePublish hsend hsize hsender it).exists_value (hasIdsFor_of_load hload)
  obtain ⟨u, xs, ns, ys, hu, hvwritten, huwritten, hns, hperm, -⟩ :=
    h w 1 2 c sender m it hl.reachable hc hwill hm hcontent hsender v hv
  rw [hu] at hnothing
  rw [hv] at hone
  rw [hnothing, List.self_eq_append_right, List.map_eq_nil_iff] at huwritten
  subst huwritten
  obtain rfl := List.map_eq_nil_iff.1 (List.perm_nil.1 hperm)
  rw [hone, List.append_assoc, List.append_cancel_left_eq] at hvwritten
  have hnotice : ns.map Posting.written = [(2, .publish m)] := hvwritten.symm
  obtain ⟨n, hn, heq⟩ := List.mem_map.1 (hnotice.symm ▸ List.mem_singleton_self _)
  have htopic := hns n hn
  rw [Packet.publish.inj (Prod.mk.inj heq).2] at htopic
  exact absurd htopic (by decide)

end MqttBroker
