import MqttBroker.Delivery.Answers
import MqttBroker.Delivery.DeadTopics
import MqttBroker.Delivery.FanOut

/-!
# Granting subscriptions

`handle_subscribe` goes over the entries of a SUBSCRIBE once, and for each of them
adds a return code to the SUBACK, enters the client at the topic of the filter,
and enters the subscription in the session (`subscribeEntry_apply`). So a filter
that comes twice is entered as it comes last (`subscriberAt_entered`). Then the
retained messages are delivered that match, to a client that is found at each of
the topics (`delivering_publishRetainedMessage`), and nothing is thrown
(`subscribe_exact`).
-/

namespace MqttBroker

open Prog

variable {cfg : Config} {w v w' : World} {e : Event} {it : Iteration} {m : MqttPublish}
  {k : ChannelId} {c : MqttClient} {p : MqttSubscribe}

/-! ## One entry -/

/-- `handle_subscribe` subscribes the client to `$sys/trash`. -/
def SubscribeEntry.grantsTrash (entry : SubscribeEntry) (sender : MqttClient) : Bool :=
  entry.maxQos < 3 && sender.admin && entry.topicFilter = sysTrash

/-- The return code for an entry. -/
def SubscribeEntry.returnCode (entry : SubscribeEntry) (sender : MqttClient) : Nat :=
  if entry.granted || entry.grantsTrash sender then entry.maxQos else 0x80

/-- What is answered and remembered for an entry. -/
def Granting.grant (sender : MqttClient) (g : Granting) (entry : SubscribeEntry) : Granting where
  suback := { g.suback with
    remainingLength := (g.suback.remainingLength + 1) % 2 ^ 32
    returnCodes := g.suback.returnCodes ++ [entry.returnCode sender] }
  subscribedTopics := g.subscribedTopics ++
    if entry.granted && !entry.isWild then [entry.topicFilter] else []
  subscribedWildTopics := g.subscribedWildTopics ++
    if entry.granted && entry.isWild then [entry.topicFilter] else []

/-- What is done in the tables for an entry. -/
def World.enter (sender : MqttClient) (w : World) (entry : SubscribeEntry) : World :=
  if entry.granted then w.subscribeEntry sender entry
  else if entry.grantsTrash sender then w.modifyTopic .trash fun t => t.subscribe sender 2
  else w

theorem code_apply {g : Granting} {returnCode : Nat} (h : returnCode < 3 ∨ returnCode = 0x80)
    (w : World) : g.code returnCode w = (.value { g with suback := { g.suback with
      remainingLength := (g.suback.remainingLength + 1) % 2 ^ 32
      returnCodes := g.suback.returnCodes ++ [returnCode] } }, w) := by
  rw [Granting.code, MqttSuback.addReturnCode, if_neg (by omega)]
  rfl

/-- The loop body of `handle_subscribe`. -/
theorem subscribeEntry_apply (c : MqttClient) (g : Granting) (entry : SubscribeEntry) (w : World) :
    subscribeEntry c g entry w = (.value (g.grant c entry), w.enter c entry) := by
  have hsame : entry.granted = false → entry.grantsTrash c = false → (g.code 0x80 w =
      (.value (g.grant c entry), w.enter c entry)) := by
    intro hgranted htrash
    rw [code_apply (.inr rfl)]
    simp [Granting.grant, World.enter, SubscribeEntry.returnCode, hgranted, htrash]
  rw [subscribeEntry]
  split_ifs with hq hd hadmin htrash hwild
  · have hgranted : entry.granted = false := by simp [SubscribeEntry.granted, hd]
    have hgrants : entry.grantsTrash c = true := by
      simp [SubscribeEntry.grantsTrash, hq, hadmin, htrash]
    rw [modify_bind_apply, code_apply (.inl hq)]
    simp [Granting.grant, World.enter, SubscribeEntry.returnCode, hgranted, hgrants]
  · exact hsame (by simp [SubscribeEntry.granted, hd]) (by simp [SubscribeEntry.grantsTrash, htrash])
  · exact hsame (by simp [SubscribeEntry.granted, hd])
      (by simp [SubscribeEntry.grantsTrash, hadmin])
  · have hgranted : entry.granted = true := by simp [SubscribeEntry.granted, hq, hd]
    rw [modify_bind_apply, code_apply (.inl hq)]
    simp [Granting.grant, World.enter, SubscribeEntry.returnCode, hgranted, hwild,
      World.subscribeEntry]
  · have hgranted : entry.granted = true := by simp [SubscribeEntry.granted, hq, hd]
    rw [modify_bind_apply, code_apply (.inl hq)]
    simp [Granting.grant, World.enter, SubscribeEntry.returnCode, hgranted, hwild,
      World.subscribeEntry]
  · exact hsame (by simp [SubscribeEntry.granted, hq]) (by simp [SubscribeEntry.grantsTrash, hq])

/-! ## All entries -/

/-- The tables after the entries of a SUBSCRIBE. -/
def World.entered (w : World) (sender : MqttClient) (entries : List SubscribeEntry) : World :=
  entries.foldl (World.enter sender) w

/-- The loop of `handle_subscribe`. -/
theorem foldEach_subscribeEntry (c : MqttClient) (entries : List SubscribeEntry) (g : Granting)
    (w : World) : foldEach entries g (subscribeEntry c) w =
      (.value (entries.foldl (Granting.grant c) g), w.entered c entries) := by
  induction entries generalizing g w with
  | nil => rfl
  | cons entry entries ih =>
    rw [foldEach, bind_apply, subscribeEntry_apply]
    exact ih _ _

/-- The SUBACK has a return code for each entry, and the filters of the granted ones are
    remembered. -/
theorem foldl_grant (c : MqttClient) (entries : List SubscribeEntry) (g : Granting) :
    (entries.foldl (Granting.grant c) g).suback.packetId = g.suback.packetId ∧
    (entries.foldl (Granting.grant c) g).suback.returnCodes =
      g.suback.returnCodes ++ entries.map (fun entry => entry.returnCode c) ∧
    (entries.foldl (Granting.grant c) g).subscribedTopics = g.subscribedTopics ++
      (entries.filter fun entry => entry.granted && !entry.isWild).map
        SubscribeEntry.topicFilter ∧
    (entries.foldl (Granting.grant c) g).subscribedWildTopics = g.subscribedWildTopics ++
      (entries.filter fun entry => entry.granted && entry.isWild).map
        SubscribeEntry.topicFilter := by
  induction entries generalizing g with
  | nil => simp
  | cons entry entries ih =>
    obtain ⟨hid, hcodes, htopics, hwild⟩ := ih (g.grant c entry)
    rw [List.foldl_cons, hid, hcodes, htopics, hwild, List.filter_cons, List.filter_cons]
    refine ⟨rfl, by simp [Granting.grant], ?_, ?_⟩
    · simp only [Granting.grant]
      split_ifs <;> simp
    · simp only [Granting.grant]
      split_ifs <;> simp

/-- Entries change the topics and the subscriptions of the session. -/
theorem entered_eq (w : World) (c : MqttClient) (entries : List SubscribeEntry) :
    w.entered c entries = { w with
      topics := (w.entered c entries).topics
      trashTopic := (w.entered c entries).trashTopic
      session := (w.entered c entries).session } := by
  have hone : ∀ (w : World) (entry : SubscribeEntry), w.enter c entry = { w with
      topics := (w.enter c entry).topics
      trashTopic := (w.enter c entry).trashTopic
      session := (w.enter c entry).session } := by
    intro w entry
    rw [World.enter]
    split_ifs
    · rw [World.subscribeEntry, World.subscribe_eq]
      rfl
    · rfl
    · rfl
  rw [World.entered]
  induction entries generalizing w with
  | nil => rfl
  | cons entry entries ih =>
    rw [List.foldl_cons, ih, hone]

/-- The subscriptions of the session are overwritten, in order, by the granted entries. -/
def enterSubscriptions (subscriptions : Keyed Subscription.topicFilter)
    (entries : List SubscribeEntry) : Keyed Subscription.topicFilter :=
  (entries.filter SubscribeEntry.granted).foldl
    (fun subscriptions entry => subscriptions.put ⟨entry.topicFilter, entry.maxQos, entry.isWild⟩)
    subscriptions

theorem session_entered (w : World) (c : MqttClient) (entries : List SubscribeEntry)
    (s : SessionRef) : (w.entered c entries).session s = { w.session s with
      subscriptions := if s = c.session then
        enterSubscriptions (w.session s).subscriptions entries
      else (w.session s).subscriptions } := by
  have hone : ∀ (w : World) (entry : SubscribeEntry), (w.enter c entry).session s =
      if s = c.session ∧ entry.granted = true then
        (w.session s).addSubscription entry.topicFilter entry.maxQos entry.isWild
      else w.session s := by
    intro w entry
    rw [World.enter]
    by_cases hgranted : entry.granted = true
    · rw [if_pos hgranted, World.subscribeEntry, World.session_modifySession, World.subscribe_eq]
      by_cases hs : s = c.session
      · rw [if_pos hs, if_pos ⟨hs, hgranted⟩, hs]
      · rw [if_neg hs, if_neg fun h => hs h.1]
    · have hnot : ¬(s = c.session ∧ entry.granted = true) := fun h => hgranted h.2
      rw [if_neg hgranted, if_neg hnot]
      split_ifs <;> rfl
  rw [World.entered]
  induction entries generalizing w with
  | nil => simp [enterSubscriptions]
  | cons entry entries ih =>
    rw [List.foldl_cons, ih, hone, enterSubscriptions, enterSubscriptions, List.filter_cons]
    by_cases hs : s = c.session
    · by_cases hgranted : entry.granted = true <;> simp [hs, hgranted, Session.addSubscription]
    · simp [hs]

/-! ## The subscribers of a topic -/

/-- The subscriber of a client id at a place. -/
def World.subscriberAt (w : World) (p : TopicPtr) (clientId : Bytes) : Option Subscriber :=
  (w.subscribersAt p).find? fun s => s.clientId = clientId

theorem subscriberAt_eq (w : World) (p : TopicPtr) (clientId : Bytes) :
    w.subscriberAt p clientId = (w.topicAt p).bind fun t => t.find clientId := by
  rw [World.subscriberAt, World.subscribersAt]
  cases w.topicAt p <;> rfl

/-- The QoS that is entered for the client at a place. -/
def SubscribeEntry.qosAt (entry : SubscribeEntry) (sender : MqttClient) (p : TopicPtr) :
    Option Nat :=
  if entry.granted ∧ p = .entry entry.isWild entry.topicFilter then some entry.maxQos
  else if entry.grantsTrash sender ∧ p = .trash then some 2
  else none

theorem subscriberAt_subscribe (w : World) (c : MqttClient) (f : Bytes) (q : Nat) (b : Bool)
    (p : TopicPtr) (clientId : Bytes) : (w.subscribe c f q b).subscriberAt p clientId =
      if p = .entry b f ∧ clientId = c.clientId then some ⟨c, q⟩
      else w.subscriberAt p clientId := by
  rw [subscriberAt_eq, subscriberAt_eq]
  cases p with
  | trash =>
    rw [if_neg fun h => TopicPtr.noConfusion h.1, World.subscribe_eq]
    rfl
  | entry b' f' =>
    rw [World.topicAt_subscribe]
    simp only [TopicPtr.entry.injEq]
    by_cases hp : b' = b ∧ f' = f
    · obtain ⟨rfl, rfl⟩ := hp
      rw [if_pos ⟨rfl, rfl⟩, Option.bind_some, Topic.find_subscribe]
      simp only [and_self, true_and]
      split_ifs with hid
      · rfl
      · cases w.topicAt (.entry b' f') <;> rfl
    · rw [if_neg hp, if_neg fun h => hp h.1]

theorem subscriberAt_enter (w : World) (c : MqttClient) (entry : SubscribeEntry) (p : TopicPtr)
    (clientId : Bytes) : (w.enter c entry).subscriberAt p clientId =
      if clientId = c.clientId then
        ((entry.qosAt c p).map fun q => ⟨c, q⟩).or (w.subscriberAt p clientId)
      else w.subscriberAt p clientId := by
  rw [World.enter, SubscribeEntry.qosAt]
  by_cases hgranted : entry.granted = true
  · have hnot : ¬(entry.grantsTrash c = true ∧ p = .trash) := by
      rintro ⟨htrash, -⟩
      simp only [SubscribeEntry.granted, SubscribeEntry.grantsTrash, Bool.and_eq_true,
        decide_eq_true_eq] at hgranted htrash
      exact hgranted.2 (by rw [htrash.2]; rfl)
    rw [if_pos hgranted]
    refine (subscriberAt_subscribe w c _ _ _ p clientId).trans ?_
    by_cases hp : p = .entry entry.isWild entry.topicFilter
    · simp [hp, hgranted]
    · simp [hp, hgranted, hnot]
  · rw [if_neg hgranted]
    by_cases htrash : entry.grantsTrash c = true
    · rw [if_pos htrash, subscriberAt_eq, subscriberAt_eq]
      cases p with
      | trash =>
        refine (Topic.find_subscribe _ c 2 clientId).trans ?_
        simp only [hgranted, htrash]
        split_ifs <;> simp_all [World.topicAt]
      | entry b f => simp [hgranted, World.topicAt, World.modifyTopic, World.setTopic]
    · simp [hgranted, htrash]

/-- A client is entered as the last entry says that enters it. -/
theorem subscriberAt_entered (w : World) (c : MqttClient) (entries : List SubscribeEntry)
    (p : TopicPtr) (clientId : Bytes) : (w.entered c entries).subscriberAt p clientId =
      if clientId = c.clientId then
        ((entries.filterMap fun entry => entry.qosAt c p).getLast?.map fun q => ⟨c, q⟩).or
          (w.subscriberAt p clientId)
      else w.subscriberAt p clientId := by
  induction entries using List.reverseRecOn with
  | nil => simp [World.entered]
  | append_singleton entries entry ih =>
    have hlast : w.entered c (entries ++ [entry]) = (w.entered c entries).enter c entry :=
      List.foldl_append
    rw [hlast, subscriberAt_enter, ih, List.filterMap_append]
    by_cases hid : clientId = c.clientId
    · cases hq : entry.qosAt c p <;> simp [hid, hq]
    · simp [hid]

theorem retainedAt_entered (w : World) (c : MqttClient) (entries : List SubscribeEntry) :
    (w.entered c entries).retainedAt = w.retainedAt := by
  rw [World.entered]
  induction entries generalizing w with
  | nil => rfl
  | cons entry entries ih =>
    rw [List.foldl_cons, ih, World.enter]
    split_ifs
    · exact w.retainedAt_subscribe c _ _ _
    · rfl
    · rfl

/-! ## Retained messages -/

/-- The client, as a subscriber of the topic at a place. -/
def World.asSubscriber (w : World) (c : MqttClient) (p : TopicPtr) : Subscriber :=
  ⟨c, ((w.subscriberAt p c.clientId).map Subscriber.maxQos).getD 0⟩

theorem World.Makes.subscriberAt {ds : List Delivery} (h : w.Makes ds v) :
    v.subscriberAt = w.subscriberAt := by
  funext p clientId
  rw [World.subscriberAt, h.subscribersAt, World.subscriberAt]

/-- A retained message is published to the client at a channel that is a subscriber. -/
theorem delivering_publishRetained {ds : List Delivery} (hv : w.Makes ds v) (hm : m.Sendable)
    (hc : w.param k = some c) {p : TopicPtr} (hs : (w.subscriberAt p c.clientId).isSome) :
    Delivering (publishRetained p k m) [(w.asSubscriber c p).delivery true m] () v := by
  obtain ⟨s, hs⟩ := Option.isSome_iff_exists.1 hs
  rw [World.asSubscriber, hs]
  refine delivering_get_bind ?_
  rw [hv.param, hc]
  refine delivering_tryCatch (delivering_get_bind ?_)
  rw [← subscriberAt_eq, hv.subscriberAt, hs]
  exact delivering_publish hm ⟨c, s.maxQos⟩ true v

/-- The deliveries of the retained messages that a filter matches. -/
def World.retainedDeliveries (w : World) (it : Iteration) (c : MqttClient) (b : Bool) (f : Bytes) :
    List Delivery :=
  (w.retainedMatching it b f).map fun m => (w.asSubscriber c (.entry b f)).delivery true m

/-- `publish_retained_message` delivers, for every filter, the retained messages that it
    matches. -/
theorem delivering_publishRetainedMessage (it : Iteration) {fs gs : List Bytes}
    (hm : ∀ f m, w.retainedAt f = some m → m.Sendable) (hc : w.param k = some c)
    (hfs : ∀ f ∈ fs, (w.subscriberAt (.entry false f) c.clientId).isSome)
    (hgs : ∀ g ∈ gs, (w.subscriberAt (.entry true g) c.clientId).isSome) :
    Delivering (publishRetainedMessage it k fs gs)
      (fs.flatMap (w.retainedDeliveries it c false) ++
        gs.flatMap (w.retainedDeliveries it c true)) () w := by
  have hkept : ∀ p m, Within TopicsKept (publishRetained p k m) := fun _ m =>
    within_publishRetained fun client maxQos => topicsKept_publish client maxQos true m
  refine delivering_forEach_bind_within (F := TopicsKept) (fun f _ => within_get_bind fun v => ?_)
    (fun f hf ds v hv hrel => ?_) fun v hv hrel => ?_
  · cases (v.topicAt (.entry false f)).bind Topic.retainedMessage with
    | none => exact TopicsKept.refl v
    | some m => exact hkept _ m v
  · refine delivering_get_bind ?_
    have hret : (v.topicAt (.entry false f)).bind Topic.retainedMessage = w.retainedAt f := by
      rw [World.topicAt, hrel]
      rfl
    rw [hret, World.retainedDeliveries, World.retainedMatching, if_neg Bool.false_ne_true]
    cases hw : w.retainedAt f with
    | none => exact delivering_pure () v
    | some m => exact delivering_publishRetained hv (hm f m hw) hc (hfs f hf)
  · refine (delivering_forEach_within (F := TopicsKept) (w := v) (fun g _ => ?_)
      fun g hg ds u hu htopics => ?_)
    · refine within_get_bind fun u => within_forEach (fun t _ => ?_) u
      cases t.retainedMessage with
      | none => exact within_pure ()
      | some m => exact within_ite (hkept _ m) (within_pure ())
    · refine delivering_get_bind ?_
      have hwu := hv.trans hu
      rw [TopicsKept.trans hrel htopics, World.retainedDeliveries, World.retainedMatching,
        if_pos rfl, List.filterMap_eq_flatMap_toList, List.map_flatMap]
      -- The loop over the topics, for a filter with wildcards.
      refine delivering_forEach fun t ht ds' x hx => ?_
      cases hret : t.retainedMessage with
      | none =>
        rw [ite_self]
        exact delivering_pure () x
      | some m =>
        by_cases hmatch : topicMatch g t.topicFilter = true
        · have hw : w.retainedAt t.topicFilter = some m := w.retainedAt_eq_some.2
            ⟨t, Keyed.find_eq_some.2 ⟨(it.perm _).mem_iff.1 ht, rfl⟩, hret⟩
          dsimp only
          rw [if_pos hmatch, if_pos hmatch]
          exact delivering_publishRetained (hwu.trans hx) (hm _ m hw) hc (hgs g hg)
        · dsimp only
          rw [if_neg hmatch, if_neg hmatch]
          exact delivering_pure () x

/-! ## `handle_subscribe` -/

/-- The SUBACK for a SUBSCRIBE. -/
def MqttSubscribe.suback (p : MqttSubscribe) (sender : MqttClient) : MqttSuback :=
  (p.topicFilters.foldl (Granting.grant sender) ⟨mqttSuback p.packetId, [], []⟩).suback

/-- The state when a SUBSCRIBE of the client `c` at the channel `k` has been answered
    with its SUBACK. -/
def World.granted (w : World) (k : ChannelId) (c : MqttClient) (p : MqttSubscribe) : World :=
  ((w.record (.handled c (.subscribe p))).entered c p.topicFilters).write k (.suback (p.suback c))

/-- The deliveries of the retained messages, entry by entry. -/
def World.subscribeDeliveries (w : World) (it : Iteration) (k : ChannelId) (c : MqttClient)
    (p : MqttSubscribe) : List Delivery :=
  p.granted.flatMap fun entry =>
    (w.granted k c p).retainedDeliveries it c entry.isWild entry.topicFilter

/-- They are all made to the client. -/
theorem client_of_mem_subscribeDeliveries {d : Delivery}
    (h : d ∈ w.subscribeDeliveries it k c p) : d.client = c := by
  obtain ⟨entry, -, h⟩ := List.mem_flatMap.1 h
  obtain ⟨m, -, rfl⟩ := List.mem_map.1 h
  rfl

theorem session_granted (w : World) (k : ChannelId) (c : MqttClient) (p : MqttSubscribe)
    (s : SessionRef) : (w.granted k c p).session s = { w.session s with
      subscriptions := if s = c.session then
        enterSubscriptions (w.session s).subscriptions p.topicFilters
      else (w.session s).subscriptions } :=
  session_entered _ c p.topicFilters s

theorem subscriberAt_granted (w : World) (k : ChannelId) (c : MqttClient) (p : MqttSubscribe)
    (place : TopicPtr) (clientId : Bytes) : (w.granted k c p).subscriberAt place clientId =
      if clientId = c.clientId then
        ((p.topicFilters.filterMap fun entry => entry.qosAt c place).getLast?.map
          fun q => ⟨c, q⟩).or (w.subscriberAt place clientId)
      else w.subscriberAt place clientId :=
  subscriberAt_entered _ c p.topicFilters place clientId

/-- A client is a subscriber of the topics of its granted entries. -/
theorem exists_subscriberAt_granted (w : World) (k : ChannelId) (c : MqttClient)
    {p : MqttSubscribe} {entry : SubscribeEntry} (hentry : entry ∈ p.topicFilters)
    (hgranted : entry.granted = true) : ∃ q, (w.granted k c p).subscriberAt
      (.entry entry.isWild entry.topicFilter) c.clientId = some ⟨c, q⟩ := by
  have hmem : entry.maxQos ∈ p.topicFilters.filterMap fun e =>
      e.qosAt c (.entry entry.isWild entry.topicFilter) :=
    List.mem_filterMap.2 ⟨entry, hentry, by rw [SubscribeEntry.qosAt, if_pos ⟨hgranted, rfl⟩]⟩
  obtain ⟨q, hq⟩ := Option.isSome_iff_exists.1 (List.getLast?_isSome.2 (List.ne_nil_of_mem hmem))
  refine ⟨q, ?_⟩
  rw [subscriberAt_granted, if_pos rfl, hq]
  rfl

theorem written_granted (w : World) (k : ChannelId) (c : MqttClient) (p : MqttSubscribe) :
    (w.granted k c p).written = w.written ++ [(k, .suback (p.suback c))] := by
  have hlog : ((w.record (.handled c (.subscribe p))).entered c p.topicFilters).written =
      w.written := by
    rw [World.written, entered_eq]
    exact (written_record w _).trans (List.append_nil _)
  rw [World.granted, World.write, written_record, hlog]
  rfl

/-- When the SUBACK is written, the retained messages are left to publish. -/
theorem handleSubscribe_apply (hc : w.param k = some c) (it : Iteration) (p : MqttSubscribe) :
    handleSubscribe it k p w = publishRetainedMessage it k
      ((p.topicFilters.filter fun entry => entry.granted && !entry.isWild).map
        SubscribeEntry.topicFilter)
      ((p.topicFilters.filter fun entry => entry.granted && entry.isWild).map
        SubscribeEntry.topicFilter) (w.granted k c p) := by
  obtain ⟨-, -, htopics, hwild⟩ := foldl_grant c p.topicFilters ⟨mqttSuback p.packetId, [], []⟩
  rw [handleSubscribe, agent_bind_apply hc, bind_apply, foldEach_subscribeEntry]
  refine (congrArg₂ (fun fs gs => publishRetainedMessage it k fs gs (w.granted k c p))
    htopics hwild).trans ?_
  rw [List.nil_append, List.nil_append]

/-- Filters of one kind make their deliveries. -/
theorem flatMap_retainedDeliveries {α : Type} (u : World) (it : Iteration) (c : MqttClient)
    {isWild : α → Bool} {topicFilter : α → Bytes} {b : Bool} {l : List α}
    (hb : ∀ x ∈ l, isWild x = b) : (l.map topicFilter).flatMap (u.retainedDeliveries it c b) =
      l.flatMap fun x => u.retainedDeliveries it c (isWild x) (topicFilter x) := by
  rw [List.flatMap_map]
  exact List.flatMap_congr fun x hx => by rw [hb x hx]

/-- The granted entries of a SUBSCRIBE, of which those without wildcards come first. -/
theorem mem_granted {entry : SubscribeEntry} (h : entry ∈ p.granted) :
    entry ∈ p.topicFilters ∧ entry.granted = true := by
  rw [MqttSubscribe.granted, List.mem_append, List.mem_filter, List.mem_filter,
    Bool.and_eq_true, Bool.and_eq_true] at h
  exact h.elim (fun h => ⟨h.1, h.2.1⟩) fun h => ⟨h.1, h.2.1⟩

/-- Handling a SUBSCRIBE makes the deliveries of the retained messages, if there are
    packet ids for them. It never throws. -/
theorem settles_handleSubscribe (h : w.RetainedInv) (hc : w.param k = some c) (it : Iteration)
    (p : MqttSubscribe) : Settles (handleSubscribe it k p)
      (w.HasIdsFor (w.subscribeDeliveries it k c p))
      (fun _ w' => (w.granted k c p).Makes (w.subscribeDeliveries it k c p) w') w := by
  have hids : w.HasIdsFor (w.subscribeDeliveries it k c p) ↔
      (w.granted k c p).HasIdsFor (w.subscribeDeliveries it k c p) := by
    refine forall_congr' fun s => ?_
    rw [session_granted]
    rfl
  have hparam : (w.granted k c p).param = w.param := by
    rw [World.granted, entered_eq]
    rfl
  have hretained : (w.granted k c p).retainedAt = w.retainedAt :=
    retainedAt_entered (w.record (.handled c (.subscribe p))) c p.topicFilters
  -- `publish_retained_message` looks for the client in the topics it has just entered.
  have hsome : ∀ {b} {l : List SubscribeEntry}, (∀ entry ∈ l, entry ∈ p.granted) →
      (∀ entry ∈ l, entry.isWild = b) → ∀ f ∈ l.map SubscribeEntry.topicFilter,
        ((w.granted k c p).subscriberAt (.entry b f) c.clientId).isSome := by
    intro b l hl hb f hf
    obtain ⟨entry, hentry, rfl⟩ := List.mem_map.1 hf
    obtain ⟨hin, hgranted⟩ := mem_granted (hl entry hentry)
    rw [← hb entry hentry]
    obtain ⟨q, hq⟩ := exists_subscriberAt_granted w k c hin hgranted
    rw [hq]
    rfl
  have hexact : ∀ entry ∈ p.topicFilters.filter fun entry => entry.granted && !entry.isWild,
      entry.isWild = false := by
    intro entry hentry
    simpa using ((Bool.and_eq_true_iff).1 (List.mem_filter.1 hentry).2).2
  have hwilds : ∀ entry ∈ p.topicFilters.filter fun entry => entry.granted && entry.isWild,
      entry.isWild = true :=
    fun entry hentry => ((Bool.and_eq_true_iff).1 (List.mem_filter.1 hentry).2).2
  have hpublish := delivering_publishRetainedMessage (w := w.granted k c p) (k := k) it
    (fun f m hm => (h.message (hretained ▸ hm)).2) (hparam ▸ hc)
    (hsome (fun entry hentry => List.mem_append_left _ hentry) hexact)
    (hsome (fun entry hentry => List.mem_append_right _ hentry) hwilds)
  rw [flatMap_retainedDeliveries _ it c hexact, flatMap_retainedDeliveries _ it c hwilds,
    ← List.flatMap_append, ← MqttSubscribe.granted] at hpublish
  rw [Settles, handleSubscribe_apply hc]
  exact hpublish.mono hids.symm fun _ _ _ h => h.2

/-! ## The whole of a step -/

/-- The broker refuses an entry that was marked when it was decoded, and one for a
    `$`-topic, but for `$sys/trash` when an admin asks. -/
def SubscribeEntry.RefusedTo (entry : SubscribeEntry) (sender : MqttClient) : Prop :=
  entry.maxQos = 0x80 ∨ (entry.topicFilter.head? = some dollar ∧
    ¬(sender.admin = true ∧ entry.topicFilter = sysTrash))

instance (entry : SubscribeEntry) (sender : MqttClient) : Decidable (entry.RefusedTo sender) :=
  inferInstanceAs (Decidable (_ ∨ _))

/-- From `w` to `w'` the client `c` at the channel `k` is sent the SUBACK `suback` for the
    SUBSCRIBE `p`, its subscriptions are entered, and then the deliveries `xs` are
    made. -/
structure World.SubscribesExactly (w : World) (k : ChannelId) (c : MqttClient) (p : MqttSubscribe)
    (suback : MqttSuback) (xs : List Delivered) (w' : World) : Prop where
  written : w'.written = w.written ++ (k, .suback suback) :: xs.map Delivered.written
  packetId : suback.packetId = p.packetId
  returnCodes : suback.returnCodes = p.topicFilters.map fun entry =>
    if entry.RefusedTo c then 0x80 else entry.maxQos
  requested : ∀ entry ∈ p.topicFilters, ¬entry.RefusedTo c → entry.maxQos < 3
  marked : ∀ entry ∈ p.topicFilters,
    (entry.maxQos = 0x80 ↔ (isTopicFilterValid entry.topicFilter).1 = false)
  subscriptions s : (w'.session s).subscriptions = if s = c.session then
      enterSubscriptions (w.session s).subscriptions p.topicFilters
    else (w.session s).subscriptions
  entered f last : (p.topicFilters.filter fun entry => entry.topicFilter = f).getLast? = some last →
    last.granted = true → w'.subscriberAt (.entry last.isWild f) c.clientId = some ⟨c, last.maxQos⟩
  unnamed b f : (∀ entry ∈ p.topicFilters, entry.topicFilter ≠ f) →
    w'.subscriberAt (.entry b f) c.clientId = w.subscriberAt (.entry b f) c.clientId
  others place clientId : clientId ≠ c.clientId →
    w'.subscriberAt place clientId = w.subscriberAt place clientId

theorem returnCode_eq {entry : SubscribeEntry} (h : entry.Read) (c : MqttClient) :
    entry.returnCode c = if entry.RefusedTo c then 0x80 else entry.maxQos := by
  have hqos : entry.maxQos < 3 ↔ entry.maxQos ≠ 0x80 := by
    obtain ⟨-, h⟩ := h
    split_ifs at h <;> omega
  have hiff : (entry.granted || entry.grantsTrash c) = true ↔ ¬entry.RefusedTo c := by
    simp only [SubscribeEntry.granted, SubscribeEntry.grantsTrash, SubscribeEntry.RefusedTo, hqos,
      Bool.or_eq_true, Bool.and_eq_true, decide_eq_true_eq]
    tauto
  rw [SubscribeEntry.returnCode, if_congr hiff rfl rfl, ite_not]

/-- The entries of the SUBSCRIBE of an event. -/
theorem read_of_packet (hp : e.packet = some (.subscribe p)) :
    ∀ entry ∈ p.topicFilters, entry.Read := by
  obtain ⟨sb, rest, -, hread⟩ := packet_eq_some hp
  exact read_of_channelRead hread

/-- Of the entries that name a filter, the last one says the QoS. -/
theorem getLast?_qosAt {entries : List SubscribeEntry} (hread : ∀ entry ∈ entries, entry.Read)
    {f : Bytes} {last : SubscribeEntry}
    (hlast : (entries.filter fun entry => entry.topicFilter = f).getLast? = some last)
    (hgranted : last.granted = true) (c : MqttClient) :
    (entries.filterMap fun entry => entry.qosAt c (.entry last.isWild f)).getLast? =
      some last.maxQos := by
  have hqos : entries.filterMap (fun entry => entry.qosAt c (.entry last.isWild f)) =
      entries.filterMap fun entry =>
        if decide (entry.topicFilter = f) then some entry.maxQos else none := by
    refine List.filterMap_congr fun entry hentry => ?_
    obtain ⟨hmem, hfilter⟩ := List.mem_filter.1 (List.mem_of_getLast? hlast)
    by_cases hf : entry.topicFilter = f
    · -- Entries with the same filter are granted alike, and are wild alike.
      have hread' := (hread last hmem).2
      have hread := (hread entry hentry).2
      simp only [SubscribeEntry.granted, Bool.and_eq_true, decide_eq_true_eq] at hgranted
      rw [of_decide_eq_true hfilter] at hread' hgranted
      rw [hf] at hread
      split_ifs at hread hread' with hv
      · have hentry : entry.granted = true := by
          simpa [SubscribeEntry.granted, hread.1, hf] using hgranted.2
        rw [SubscribeEntry.qosAt, if_pos ⟨hentry, by rw [hf, hread.2, hread'.2]⟩, decide_eq_true hf,
          if_pos rfl]
      · omega
    · have hne : (TopicPtr.entry last.isWild f) ≠ .entry entry.isWild entry.topicFilter :=
        fun h => hf (TopicPtr.entry.inj h).2.symm
      rw [SubscribeEntry.qosAt, if_neg fun h => hne h.2, if_neg fun h => TopicPtr.noConfusion h.2,
        decide_eq_false hf]
      rfl
  rw [hqos, ← List.filterMap_filter, List.filterMap_eq_map', List.getLast?_map, hlast]
  rfl

/-- Where the deliveries after a SUBACK are made, the SUBSCRIBE was handled exactly. -/
theorem subscribesExactly_of_delivers {xs : List Delivered}
    (hread : ∀ entry ∈ p.topicFilters, entry.Read) (h : (w.granted k c p).Delivers xs w') :
    w.SubscribesExactly k c p (p.suback c) xs w' := by
  obtain ⟨hid, hcodes, -, -⟩ := foldl_grant c p.topicFilters ⟨mqttSuback p.packetId, [], []⟩
  have hsubscriber : w'.subscriberAt = (w.granted k c p).subscriberAt :=
    World.Makes.subscriberAt ⟨xs, rfl, h⟩
  constructor
  · rw [h.written, written_granted, List.append_assoc]
    rfl
  · exact hid
  · exact hcodes.trans (List.map_congr_left fun entry hentry => returnCode_eq (hread entry hentry) c)
  · intro entry hentry hnot
    obtain ⟨-, hentry⟩ := hread entry hentry
    split_ifs at hentry
    · exact hentry.1
    · exact absurd (.inl hentry.1) hnot
  · intro entry hentry
    obtain ⟨-, hentry⟩ := hread entry hentry
    split_ifs at hentry with hv
    · exact ⟨fun hq => by omega, fun hnot => absurd (hv.symm.trans hnot) Bool.noConfusion⟩
    · exact ⟨fun _ => Bool.eq_false_iff.2 hv, fun _ => hentry.1⟩
  · intro s
    rw [h.session, session_granted]
  · intro f last hlast hgranted
    rw [hsubscriber, subscriberAt_granted, if_pos rfl, getLast?_qosAt hread hlast hgranted c]
    rfl
  · intro b f hnone
    have hqos : p.topicFilters.filterMap (fun entry => entry.qosAt c (.entry b f)) = [] := by
      refine List.filterMap_eq_nil_iff.2 fun entry hentry => ?_
      rw [SubscribeEntry.qosAt, if_neg fun h => hnone entry hentry (TopicPtr.entry.inj h.2).2.symm,
        if_neg fun h => TopicPtr.noConfusion h.2]
    rw [hsubscriber, subscriberAt_granted, if_pos rfl, hqos]
    rfl
  · intro place clientId hne
    rw [hsubscriber, subscriberAt_granted, if_neg hne]

/-- From a reachable state with packet ids for the retained messages, a SUBSCRIBE of a
    client is handled without anything being thrown, and exactly. -/
theorem subscribe_exact (h : (broker cfg).Reachable w) (ha : w.Admits e.action)
    (hp : e.packet = some (.subscribe p)) (hc : w.param e.action.channelId = some c)
    (hids : idsNeeded c.session (w.subscribeDeliveries e.iteration e.action.channelId c p) ≤
      (w.session c.session).freeIds.card) :
    ∃ (w' : World) (suback : MqttSuback) (xs : List Delivered),
      handleSubscribe e.iteration e.action.channelId p w = (.value (), w') ∧
      (broker cfg).step w e = some w' ∧
      xs.map Delivered.toDelivery = w.subscribeDeliveries e.iteration e.action.channelId c p ∧
      w.SubscribesExactly e.action.channelId c p suback xs w' := by
  rw [← hasIdsFor_iff_session fun d hd => by rw [client_of_mem_subscribeDeliveries hd]] at hids
  obtain ⟨_, w', hrun, xs, hxs, hdelivers⟩ :=
    (settles_handleSubscribe (retainedInv_of_reachable h) hc e.iteration p).exists_value hids
  exact ⟨w', p.suback c, xs, hrun, step_of_packetHandler ha hp hrun, hxs,
    subscribesExactly_of_delivers (read_of_packet hp) hdelivers⟩

/-- A filter that comes twice is entered as it comes last, and one for a `$`-topic is
    refused. The retained message is sent for each of the filters that match it. -/
theorem subscribe_exact_twice : ∃ (w w' : World) (c : MqttClient) (p : MqttSubscribe)
    (suback : MqttSuback) (xs : List Delivered), (broker mqttdCfg).Reachable w ∧
      w.param 1 = some c ∧ suback.returnCodes = [1, 2, 0, 0x80] ∧
      w'.subscriberAt (.entry false [0x74]) c.clientId = some ⟨c, 0⟩ ∧ xs.length = 3 ∧
      w.SubscribesExactly 1 c p suback xs w' := by
  let e := (Action.read 1 [0x82, 0x13, 0x00, 0x09, 0x00, 0x01, 0x74, 0x01, 0x00, 0x01, 0x2b, 0x02,
    0x00, 0x01, 0x74, 0x00, 0x00, 0x02, 0x24, 0x78, 0x01]).event
  let p : MqttSubscribe := ⟨⟨.subscribe, 2, 19⟩, 9,
    [⟨[0x74], 1, false⟩, ⟨[0x2b], 2, true⟩, ⟨[0x74], 0, false⟩, ⟨[0x24, 0x78], 1, false⟩]⟩
  have hp : e.packet = some (.subscribe p) := by
    decide +kernel
  have hruns : runs (fun _ _ => true)
      [.accept 1, .accept 2, .read 1 (connectBytes 0x02 [0x61] []),
        .read 2 (connectBytes 0x02 [0x62] []), .read 2 (subscribeBytes [0x74] 0x01),
        .read 2 (publishBytes 0x01 [0x74] [] [0x01])]
      (fun w => decide (w.Admits e.action) && (w.param 1).any fun c => !c.admin &&
        decide ((w.subscribeDeliveries e.iteration 1 c p).length = 3) &&
        (w.subscribeDeliveries e.iteration 1 c p).all fun d =>
          decide ((w.subscribeDeliveries e.iteration 1 c p).length +
            (w.session d.client.session).load ≤ 65535)) = true := by
    decide +kernel
  obtain ⟨l, w, hl, -, hrun⟩ := exists_run hruns
  obtain ⟨ha, hrun⟩ := Bool.and_eq_true_iff.1 hrun
  obtain ⟨c, hc, hrun⟩ := Option.any_eq_true _ _ |>.1 hrun
  obtain ⟨hrun, hload⟩ := Bool.and_eq_true_iff.1 hrun
  obtain ⟨hadmin, hlength⟩ := Bool.and_eq_true_iff.1 hrun
  have hids := hasIdsFor_of_load fun d hd => of_decide_eq_true (List.all_eq_true.1 hload d hd)
  obtain ⟨w', suback, xs, -, -, hxs, hexact⟩ := subscribe_exact hl.reachable (of_decide_eq_true ha)
    hp hc (hids c.session)
  refine ⟨w, w', c, p, suback, xs, hl.reachable, hc, ?_,
    hexact.entered [0x74] ⟨[0x74], 0, false⟩ (by rfl) (by rfl), ?_, hexact⟩
  · have hsys : ([0x24, 0x78] : Bytes) ≠ sysTrash := by decide
    rw [hexact.returnCodes]
    simp [p, SubscribeEntry.RefusedTo, dollar, hsys]
  · rw [← of_decide_eq_true hlength]
    exact (xs.length_map Delivered.toDelivery).symm.trans (congrArg List.length hxs)

end MqttBroker
