import MqttBroker.Server.Steps

/-!
# What publishing writes

The PUBLISHes that were written, without their ids and their QoS (`World.sent`),
and what exactly publishing adds to them. A message of moderate size
(`MqttPublish.Sendable`) can be made into a PUBLISH for every client, so nothing
is thrown on the way, and each function publishes to all it means to
(`returns_publishTopic`, `returns_forwardPublish`).
-/

namespace MqttBroker

open Prog

/-- A PUBLISH that was written, and to whom. -/
structure Sent where
  channelId : ChannelId
  holder : Option MqttClient
  retain : Bool
  topicName : Bytes
  payload : Bytes
  deriving DecidableEq

/-- The PUBLISH that is written. -/
def Effect.sent : Effect → Option Sent
  | .write k holder (.publish p) => some ⟨k, holder, p.retain, p.topicName, p.payload⟩
  | _ => none

/-- The PUBLISHes that were written. -/
def World.sent (w : World) : List Sent := w.log.filterMap Effect.sent

theorem sent_record (w : World) {e : Effect} (h : e.sent = none) : (w.record e).sent = w.sent := by
  simp [World.sent, World.record, h]

/-- A message for a client, as it is written. -/
def World.sentTo (w : World) (c : MqttClient) (retain : Bool) (m : MqttPublish) : Sent :=
  ⟨c.channelId, w.param c.channelId, retain, m.topicName, m.payload⟩

/-- Nothing happens but that the PUBLISHes `xs` are written, as far as the
    sessions and the rest of the history do not matter. -/
def World.Posts (w : World) (xs : List Sent) (w' : World) : Prop :=
  w'.sent = w.sent ++ xs ∧ w' = { w with session := w'.session, log := w'.log }

variable {w v w' : World} {xs ys : List Sent}

theorem posts_nil (w : World) : w.Posts [] w := ⟨(List.append_nil _).symm, rfl⟩

theorem World.Posts.trans (h : w.Posts xs v) (h' : v.Posts ys w') : w.Posts (xs ++ ys) w' := by
  refine ⟨by rw [h'.1, h.1, List.append_assoc], ?_⟩
  rw [h'.2, h.2]

theorem World.Posts.frame (h : w.Posts xs w') :
    w'.contexts = w.contexts ∧ w'.topics = w.topics ∧ w'.trashTopic = w.trashTopic := by
  rw [h.2]
  exact ⟨rfl, rfl, rfl⟩

theorem World.Posts.param (h : w.Posts xs w') : w'.param = w.param := by
  rw [h.2]
  rfl

theorem World.Posts.sentTo (h : w.Posts xs w') : w'.sentTo = w.sentTo := by
  funext c retain m
  rw [World.sentTo, h.param, World.sentTo]

/-- A loop sends what its iterations send, one after the other. -/
theorem returns_forEach_posts {α : Type} {l : List α} {f : α → Server Unit} (xs : α → List Sent)
    (hf : ∀ a ∈ l, ∀ ys v, w.Posts ys v → Returns (f a) (fun _ u => v.Posts (xs a) u) v) :
    Returns (forEach l f) (fun _ v => w.Posts (l.flatMap xs) v) w := by
  refine returns_forEach (I := fun done v => w.Posts (done.flatMap xs) v) ?_ (posts_nil w)
  intro done a ha v hv
  refine (hf a ha _ v hv).mono fun _ u hu => ?_
  rw [List.flatMap_append, List.flatMap_singleton]
  exact hv.trans hu

/-! ## `mqtt_client::publish` -/

/-- A message that can be made into a PUBLISH for every client. -/
def MqttPublish.Sendable (m : MqttPublish) : Prop :=
  m.qos < 3 ∧ m.topicName.length + m.payload.length + 4 ≤ 0x0fffffff

theorem mqttPublish_of_sizes {qos : Nat} {topicName payload : Bytes} (hq : qos < 3)
    (hsize : topicName.length + payload.length + 4 ≤ 0x0fffffff) (dup retain : Bool)
    (id : UInt16) : ∃ p, mqttPublish dup qos retain topicName id payload = .ok p := by
  simp only [mqttPublish]
  rw [if_neg (by omega), if_neg (by simp), if_neg]
  · exact ⟨_, rfl⟩
  · split_ifs <;> omega

/-- What is made of a message that can be sent can be sent, too. -/
theorem sendable_of_eq_ok {dup retain : Bool} {qos : Nat} {topicName payload : Bytes} {id : UInt16}
    {p : MqttPublish} (h : mqttPublish dup qos retain topicName id payload = .ok p) (hq : qos < 3)
    (hsize : topicName.length + payload.length + 4 ≤ 0x0fffffff) : p.Sendable := by
  obtain ⟨-, hqos, -, htopic, hpayload, -⟩ := mqttPublish_eq_ok h
  rw [MqttPublish.Sendable, hqos, htopic, hpayload]
  exact ⟨hq, hsize⟩

theorem returns_newPacketId (w : World) (s : SessionRef) : Returns (newPacketId s) (fun _ v =>
    ∃ t : Session, v = w.modifySession s fun _ => t) w := by
  refine returns_get_bind ?_
  cases (w.session s).newPacketId with
  | none => trivial
  | some r => exact returns_modify_bind (returns_pure ⟨r.2, rfl⟩)

theorem returns_publish {m : MqttPublish} (hm : m.Sendable) (client : MqttClient) (maxQos : Nat)
    (retained : Bool) (w : World) : Returns (client.publish maxQos retained m)
      (fun _ w' => w.Posts [w.sentTo client retained m] w') w := by
  rw [Returns, publish_apply]
  cases (w.session client.session).newPacketId with
  | none => trivial
  | some r =>
    obtain ⟨p, hp⟩ := mqttPublish_of_sizes
      (Nat.lt_of_le_of_lt (Nat.min_le_left m.qos maxQos) hm.1) hm.2 false retained r.1
    obtain ⟨-, -, hretain, htopic, hpayload, -⟩ := mqttPublish_eq_ok hp
    simp only [hp]
    refine ⟨?_, rfl⟩
    show (w.log ++ [Effect.addressed client p] ++ [Effect.write client.channelId
      (w.param client.channelId) (.publish p)]).filterMap Effect.sent = _
    rw [List.append_assoc, List.filterMap_append, World.sentTo, ← hretain, ← htopic, ← hpayload]
    rfl

/-! ## Topics -/

theorem returns_publishTopic {m : MqttPublish} (hm : m.Sendable) (p : TopicPtr) (w : World) :
    Returns (publishTopic p m) (fun sent w' => sent = !(w.subscribersAt p).isEmpty ∧
      (w.storeRetained p m).Posts
        ((w.subscribersAt p).map fun s => w.sentTo s.client false m) w') w := by
  refine returns_modify_bind (returns_get_bind ?_)
  have hsubscribers := w.subscribersAt_storeRetained p m p
  have hparam : (w.storeRetained p m).sentTo = w.sentTo := by
    funext c retain m'
    rw [World.sentTo, World.storeRetained_eq]
    rfl
  rw [World.subscribersAt] at hsubscribers
  rw [hsubscribers, ← hparam]
  refine returns_bind (returns_forEach_posts (w := w.storeRetained p m)
    (fun s => [(w.storeRetained p m).sentTo s.client false m]) ?_) ?_
  · intro s _ xs t ht
    rw [← ht.sentTo]
    exact returns_publish hm s.client s.maxQos false t
  · intro _ t ht
    rw [← List.map_eq_flatMap] at ht
    exact returns_pure ⟨rfl, ht⟩

/-! ## Forwarding -/

/-- PUBLISHes of the topic of `m` are written, and the channels, the subscribers
    and `$sys/trash` stay. -/
structure World.Forwards (w : World) (m : MqttPublish) (w' : World) : Prop where
  sent : ∃ xs, (∀ x ∈ xs, x.topicName = m.topicName) ∧ w'.sent = w.sent ++ xs
  contexts : w'.contexts = w.contexts
  subscribersAt : w'.subscribersAt = w.subscribersAt
  trashTopic : w'.trashTopic = w.trashTopic

variable {m : MqttPublish}

theorem World.Forwards.trans (h : w.Forwards m v) (h' : v.Forwards m w') : w.Forwards m w' where
  sent := by
    obtain ⟨xs, hxs, hs⟩ := h.sent
    obtain ⟨ys, hys, hs'⟩ := h'.sent
    refine ⟨xs ++ ys, fun x hx => (List.mem_append.1 hx).elim (hxs x) (hys x), ?_⟩
    rw [hs', hs, List.append_assoc]
  contexts := h'.contexts.trans h.contexts
  subscribersAt := h'.subscribersAt.trans h.subscribersAt
  trashTopic := h'.trashTopic.trans h.trashTopic

theorem forwards_refl (w : World) (m : MqttPublish) : w.Forwards m w :=
  ⟨⟨[], by simp, (List.append_nil _).symm⟩, rfl, rfl, rfl⟩

/-- Storing a retained message in a table. -/
theorem storeRetained_entry (w : World) (b : Bool) (f : Bytes) (m : MqttPublish) :
    (w.storeRetained (.entry b f) m).trashTopic = w.trashTopic ∧
      (b = false → (w.storeRetained (.entry b f) m).topics true = w.topics true) := by
  rw [World.storeRetained]
  split_ifs
  · refine ⟨by rw [World.modifyTopic_entry_eq], ?_⟩
    rintro rfl
    rw [World.modifyTopic]
    split
    · rfl
    · simp [World.setTopic]
  · exact ⟨rfl, fun _ => rfl⟩

/-- A topic of one of the tables is published to. -/
theorem returns_publishTopic_entry (hm : m.Sendable) (b : Bool) (f : Bytes) (w : World) :
    Returns (publishTopic (.entry b f) m) (fun sent w' =>
      sent = !(w.subscribersAt (.entry b f)).isEmpty ∧ w.Forwards m w' ∧
        (b = false → w'.topics true = w.topics true)) w := by
  refine (returns_publishTopic hm (.entry b f) w).mono fun sent w' ⟨hsent, hposts⟩ => ?_
  obtain ⟨hcontexts, htopics, htrash⟩ := hposts.frame
  obtain ⟨hstrash, hstopics⟩ := storeRetained_entry w b f m
  have htopic : ∀ x ∈ (w.subscribersAt (.entry b f)).map fun s => w.sentTo s.client false m,
      x.topicName = m.topicName := by
    intro x hx
    obtain ⟨s, -, rfl⟩ := List.mem_map.1 hx
    rfl
  have hlog : (w.storeRetained (.entry b f) m).sent = w.sent := by
    rw [World.sent, World.storeRetained_eq, World.sent]
  refine ⟨hsent, ⟨⟨_, htopic, hposts.1.trans (by rw [hlog])⟩, ?_, ?_, htrash.trans hstrash⟩, ?_⟩
  · rw [hcontexts, World.storeRetained_eq]
  · funext p
    rw [← w.subscribersAt_storeRetained (.entry b f) m p]
    cases p with
    | trash => exact congrArg (fun t : Topic => t.clients.elems) htrash
    | entry b' g =>
      rw [World.subscribersAt, World.topicAt, htopics]
      rfl
  · exact fun hb => (congrFun htopics true).trans (hstopics hb)

/-- What `handle_publish` makes of a wild topic: one that matches tells whether
    the message has a receiver, whatever was found before. -/
def findReceiver (m : MqttPublish) (sent : Bool) (t : Topic) : Bool :=
  if topicMatch t.topicFilter m.topicName then !t.clients.elems.isEmpty else sent

/-- The message has a receiver, as far as `handle_publish` finds out: the last
    wild topic in the iteration that matches has subscribers or, without one, the
    topic of its name has. -/
def World.findsReceiver (w : World) (it : Iteration) (m : MqttPublish) : Bool :=
  (it.order (w.topics true).elems).foldl (findReceiver m)
    (!(w.subscribersAt (.entry false m.topicName)).isEmpty)

/-- The loop over the wild topics. -/
theorem returns_publishWild (hm : m.Sendable) (it : Iteration) (sent : Bool) (w : World) :
    Returns (publishWild m sent (it.order (w.topics true).elems)) (fun sent' w' =>
      sent' = (it.order (w.topics true).elems).foldl (findReceiver m) sent ∧
      w.Forwards m w') w := by
  refine returns_foldEach (I := fun done sent' w' =>
    sent' = done.foldl (findReceiver m) sent ∧ w.Forwards m w')
    (fun done t ht sent' v hv => ?_) ⟨rfl, forwards_refl w m⟩
  have hsubscribers : v.subscribersAt (.entry true t.topicFilter) = t.clients.elems := by
    have htopic : w.topicAt (.entry true t.topicFilter) = some t :=
      Keyed.find_eq_some.2 ⟨(it.perm _).mem_iff.1 ht, rfl⟩
    rw [hv.2.subscribersAt, World.subscribersAt, htopic]
    rfl
  rw [List.foldl_append, ← hv.1]
  dsimp only [List.foldl_cons, List.foldl_nil, findReceiver]
  split_ifs with hmatch
  · refine (returns_publishTopic_entry hm true t.topicFilter v).mono fun sent w' h => ?_
    rw [hsubscribers] at h
    exact ⟨h.1, hv.2.trans h.2.1⟩
  · exact returns_pure ⟨rfl, hv.2⟩

/-- A message without a receiver is told to the subscribers of `$sys/trash`. -/
def World.trashed (w : World) (m : MqttPublish) : List Sent :=
  (w.subscribersAt .trash).map fun s =>
    ⟨s.client.channelId, w.param s.client.channelId, false, w.trashTopic.topicFilter, m.topicName⟩

theorem returns_publishTrash
    (hsize : w.trashTopic.topicFilter.length + m.topicName.length + 4 ≤ 0x0fffffff) :
    Returns (publishTrash m) (fun _ w' => w'.sent = w.sent ++ w.trashed m) w := by
  obtain ⟨p, hp⟩ := mqttPublish_of_sizes (by decide : 1 < 3) hsize false false 0xffff
  obtain ⟨-, -, hretain, htopic, hpayload, -⟩ := mqttPublish_eq_ok hp
  have hsent := sendable_of_eq_ok hp (by decide) hsize
  have hstore : w.storeRetained .trash p = w := by
    rw [World.storeRetained, hretain]
    rfl
  refine returns_get_bind ?_
  rw [hp]
  refine returns_ok_bind (returns_bind (returns_publishTopic hsent .trash w) fun _ w' h => ?_)
  refine returns_pure ?_
  rw [hstore] at h
  rw [h.2.1, World.trashed, ← htopic, ← hpayload]
  rfl

/-- Forwarding writes the message to its receivers, and tells `$sys/trash` when
    it finds none. -/
theorem returns_forwardPublish (hm : m.Sendable)
    (hsize : w.trashTopic.topicFilter.length + m.topicName.length + 4 ≤ 0x0fffffff)
    (it : Iteration) : Returns (forwardPublish it m) (fun _ w' => ∃ xs,
      (∀ x ∈ xs, x.topicName = m.topicName) ∧
      w'.sent = w.sent ++ xs ++ if w.findsReceiver it m then [] else w.trashed m) w := by
  have hnote : w.Forwards m (w.noteRetain m.retain m.topicName m.payload) ∧
      (w.noteRetain m.retain m.topicName m.payload).topics true = w.topics true := by
    rw [World.noteRetain]
    split_ifs
    · exact ⟨⟨⟨[], by simp, by rw [sent_record w rfl, List.append_nil]⟩, rfl, rfl, rfl⟩, rfl⟩
    · exact ⟨forwards_refl w m, rfl⟩
  have hexact : Returns (tryCatch (do publishTopic (← topicsAt m.topicName) m) fun _ => pure false)
      (fun sent v => sent = !(w.subscribersAt (.entry false m.topicName)).isEmpty ∧
        w.Forwards m v ∧ v.topics true = w.topics true)
      (w.noteRetain m.retain m.topicName m.payload) := by
    generalize w.noteRetain m.retain m.topicName m.payload = u at hnote
    obtain ⟨hforwards, htopics⟩ := hnote
    rw [← hforwards.subscribersAt]
    refine returns_tryCatch_topicsAt (fun t _ => ?_) fun hu => ⟨?_, hforwards, htopics⟩
    · exact (returns_publishTopic_entry hm false m.topicName u).mono fun sent v h =>
        ⟨h.1, hforwards.trans h.2.1, (h.2.2 rfl).trans htopics⟩
    · rw [World.subscribersAt, hu]
      rfl
  refine returns_modify_bind (returns_bind hexact fun sent v hv => returns_get_bind
    (returns_bind (returns_publishWild hm it sent v) fun sent' u hu => ?_))
  obtain ⟨hsent, hv, hvtopics⟩ := hv
  obtain ⟨hsent', hu⟩ := hu
  have hforwards := hv.trans hu
  obtain ⟨xs, hxs, hlog⟩ := hforwards.sent
  have hfinds : sent' = w.findsReceiver it m := by
    rw [hsent', hvtopics, hsent]
    rfl
  rw [← hfinds]
  cases sent' with
  | true => exact returns_pure ⟨xs, hxs, by rw [hlog, if_pos rfl, List.append_nil]⟩
  | false =>
    rw [← hforwards.trashTopic] at hsize
    refine (returns_publishTrash hsize).mono fun _ t ht => ⟨xs, hxs, ?_⟩
    have hparam : u.param = w.param := by
      funext k
      rw [World.param, hforwards.contexts, World.param]
    rw [ht, hlog, World.trashed, hforwards.trashTopic, hparam, hforwards.subscribersAt]
    rfl

/-! ## Wills -/

/-- A will that can be sent is published in one of three ways: there is none, the
    topic of its name is not there, or it is published to that topic. -/
theorem returns_publishWillMessage_of {c : MqttClient} {Q : World → Prop} (hqos : c.willQos < 3)
    (hsize : c.willTopic.length + c.willMessage.length + 4 ≤ 0x0fffffff)
    (hnone : c.willFlag = false → Q (w.record (.will c)))
    (hmissing : c.willFlag = true → w.topicAt (.entry false c.willTopic) = none →
      Q (w.noteWill c))
    (htopic : c.willFlag = true → ∀ (s : Session) (id : UInt16) (p : MqttPublish),
      mqttPublish false c.willQos c.willRetain c.willTopic id c.willMessage = .ok p →
        Returns (publishTopic (.entry false c.willTopic) p) (fun _ => Q)
          ((w.noteWill c).modifySession c.session fun _ => s)) :
    Returns (publishWillMessage c) (fun _ => Q) w := by
  rw [publishWillMessage]
  refine returns_modify_bind ?_
  split_ifs with hwill
  swap
  · exact returns_pure (hnone (Bool.not_eq_true _ ▸ hwill))
  refine returns_modify_bind ?_
  have hmissing := hmissing hwill
  have htopic := htopic hwill
  have hnote : (w.noteWill c).topicAt (.entry false c.willTopic) =
      w.topicAt (.entry false c.willTopic) := by
    rw [World.noteWill_eq]
    rfl
  rw [← hnote] at hmissing
  rw [← World.noteWill]
  generalize w.noteWill c = u at hmissing htopic
  refine returns_tryCatch_topicsAt (fun t _ => ?_) hmissing
  refine returns_bind (returns_newPacketId u c.session) fun id v hv => ?_
  obtain ⟨s, rfl⟩ := hv
  -- The will can be sent, whatever its packet id is.
  obtain ⟨p, hp⟩ := mqttPublish_of_sizes hqos hsize false c.willRetain id
  have hreturns := htopic s id p hp
  rw [hp]
  exact returns_ok_bind (returns_bind hreturns fun _ _ h => returns_pure h)

end MqttBroker
