import MqttBroker.Server.Messages

/-!
# What the threads share

Shan.Net runs the handlers of different channels on several threads, and the
mutexes of `mqtt_server` are held for a table operation at a time. What the
handlers share is the state of the broker, with the topics as objects of their
own: a `topic_ptr` that a handler holds (a `TopicRef`) may point to a topic that
is not in the tables any more.

The operations here are those done under one lock. The messages in the sessions,
what is written and whether a channel is closed are left out: no table depends on
them.

A state of the broker is shared in one way (`World.share`), and `Shared.Shows`
tells that the shared state shows a state of the broker.
-/

namespace MqttBroker

/-- The address of a `topic`. -/
abbrev TopicRef := Nat

/-- The state the handlers share. -/
structure Shared where
  param : ChannelId → Option MqttClient
  clients : Bytes → Option MqttClient
  sessions : Bytes → Option SessionRef
  subscriptions : SessionRef → Keyed Subscription.topicFilter
  nextSession : SessionRef
  topics : Bool → Bytes → Option TopicRef
  topic : TopicRef → Topic
  nextTopic : TopicRef
  trashTopic : Topic

namespace Shared

variable (s : Shared)

/-! ## Operations -/

/-- `ctx->param(client_ptr)`. -/
def setParam (k : ChannelId) (param : Option MqttClient) : Shared :=
  { s with param := Function.update s.param k param }

/-- `mqtt_server::reg_client_ptr`: `insert` does not replace an entry. -/
def regClientPtr (client : MqttClient) : Shared :=
  match s.clients client.clientId with
  | some _ => s
  | none => { s with clients := Function.update s.clients client.clientId (some client) }

/-- `mqtt_server::delete_client_ptr`. -/
def deleteClientPtr (clientId : Bytes) : Shared :=
  { s with clients := Function.update s.clients clientId none }

/-- `std::make_shared<session>()` and `mqtt_server::reg_session_ptr`. -/
def regSessionPtr (clientId : Bytes) : Shared :=
  { s with
    sessions := match s.sessions clientId with
      | some _ => s.sessions
      | none => Function.update s.sessions clientId (some s.nextSession)
    subscriptions := Function.update s.subscriptions s.nextSession Keyed.empty
    nextSession := s.nextSession + 1 }

/-- `mqtt_server::delete_session_ptr`. -/
def deleteSessionPtr (clientId : Bytes) : Shared :=
  { s with sessions := Function.update s.sessions clientId none }

/-- Change the subscriptions of a session. -/
def modifySubscriptions (r : SessionRef)
    (f : Keyed Subscription.topicFilter → Keyed Subscription.topicFilter) : Shared :=
  { s with subscriptions := Function.update s.subscriptions r (f (s.subscriptions r)) }

/-- Change a topic, in the tables or not. -/
def modifyTopic (r : TopicRef) (f : Topic → Topic) : Shared :=
  { s with topic := Function.update s.topic r (f (s.topic r)) }

/-- What is entered under a topic filter. -/
def setEntry (topicFilter : Bytes) (isWild : Bool) (r : Option TopicRef) : Shared :=
  { s with topics := fun b f => if b = isWild ∧ f = topicFilter then r else s.topics b f }

/-- `mqtt_server::get_topic_ptr_to_subscribe`. -/
def getTopicPtrToSubscribe (topicFilter : Bytes) (isWild : Bool) : TopicRef × Shared :=
  match s.topics isWild topicFilter with
  | some r => (r, s)
  | none =>
    let r := s.nextTopic
    let s := s.modifyTopic r fun _ => Topic.new topicFilter
    (r, { s.setEntry topicFilter isWild (some r) with nextTopic := r + 1 })

/-- `_topics.erase(topic_filter)` and `_wild_topics.erase(topic_filter)`. -/
def eraseTopic (topicFilter : Bytes) (isWild : Bool) : Shared := s.setEntry topicFilter isWild none

/-- One iteration of `mqtt_server::unsubscribe_all`, under `_topic_mutex`. -/
def unsubscribe (client : MqttClient) (sub : Subscription) : Shared :=
  match s.topics sub.isWild sub.topicFilter with
  | none => s
  | some r =>
    let s := s.modifyTopic r fun t => t.unsubscribe client
    if (s.topic r).empty then s.eraseTopic sub.topicFilter sub.isWild else s

/-! ## What the operations leave -/

@[simp] theorem topic_modifyTopic (r : TopicRef) (f : Topic → Topic) (r' : TopicRef) :
    (s.modifyTopic r f).topic r' = if r' = r then f (s.topic r) else s.topic r' :=
  Function.update_apply _ _ _ _

/-- The topic subscribed to is entered. -/
theorem topics_getTopicPtrToSubscribe (f g : Bytes) (b b' : Bool) :
    (s.getTopicPtrToSubscribe f b).2.topics b' g =
      if b' = b ∧ g = f then some (s.getTopicPtrToSubscribe f b).1 else s.topics b' g := by
  rw [getTopicPtrToSubscribe]
  cases hr : s.topics b f with
  | none => rfl
  | some r =>
    split_ifs with h
    · rw [h.1, h.2, hr]
    · rfl

/-- A new topic is none of those that are there. -/
theorem topic_getTopicPtrToSubscribe (f : Bytes) (b : Bool) {r : TopicRef} (hr : r < s.nextTopic) :
    (s.getTopicPtrToSubscribe f b).2.topic r = s.topic r := by
  rw [getTopicPtrToSubscribe]
  split
  · rfl
  · exact Function.update_of_ne (Nat.ne_of_lt hr) _ _

/-- Only topics are made. -/
theorem getTopicPtrToSubscribe_eq (f : Bytes) (b : Bool) : (s.getTopicPtrToSubscribe f b).2 =
    { s with
      topics := (s.getTopicPtrToSubscribe f b).2.topics
      topic := (s.getTopicPtrToSubscribe f b).2.topic
      nextTopic := (s.getTopicPtrToSubscribe f b).2.nextTopic } := by
  rw [getTopicPtrToSubscribe]
  split <;> rfl

/-- The entry that an iteration of `unsubscribe_all` erases. -/
def unsubscribeErases (client : MqttClient) (sub : Subscription) : Bool :=
  (s.topics sub.isWild sub.topicFilter).any fun r => ((s.topic r).unsubscribe client).empty

theorem topics_unsubscribe (c : MqttClient) (sub : Subscription) (b : Bool) (f : Bytes) :
    (s.unsubscribe c sub).topics b f =
      if (b = sub.isWild ∧ f = sub.topicFilter) ∧ s.unsubscribeErases c sub = true then none
      else s.topics b f := by
  rw [unsubscribe, unsubscribeErases]
  cases hr : s.topics sub.isWild sub.topicFilter with
  | none => simp
  | some r =>
    simp only [topic_modifyTopic, if_true, Option.any_some, eraseTopic, setEntry]
    split_ifs <;> simp_all [modifyTopic]

theorem topic_unsubscribe (c : MqttClient) (sub : Subscription) (r : TopicRef) :
    (s.unsubscribe c sub).topic r =
      if s.topics sub.isWild sub.topicFilter = some r then (s.topic r).unsubscribe c
      else s.topic r := by
  rw [unsubscribe]
  cases hr : s.topics sub.isWild sub.topicFilter with
  | none => simp
  | some r' =>
    have htopic : (if ((s.modifyTopic r' fun t => t.unsubscribe c).topic r').empty then
        (s.modifyTopic r' fun t => t.unsubscribe c).eraseTopic sub.topicFilter sub.isWild
        else s.modifyTopic r' fun t => t.unsubscribe c).topic =
          (s.modifyTopic r' fun t => t.unsubscribe c).topic := by
      split_ifs <;> rfl
    refine (congrFun htopic r).trans ?_
    simp only [topic_modifyTopic, Option.some_inj, eq_comm (a := r)]
    split_ifs with h
    · rw [h]
    · rfl

/-- An iteration of `unsubscribe_all` is about the topics only. -/
theorem unsubscribe_eq (c : MqttClient) (sub : Subscription) : s.unsubscribe c sub =
    { s with topics := (s.unsubscribe c sub).topics, topic := (s.unsubscribe c sub).topic } := by
  rw [unsubscribe]
  split
  · rfl
  · dsimp only
    split_ifs <;> rfl

end Shared

/-! ## A state of the broker, shared -/

/-- The state of the broker, as the handlers share it: the topics of `_topics` have
    the even addresses, those of `_wild_topics` the odd ones. -/
def World.share (w : World) : Shared where
  param := w.param
  clients := w.getClientPtr
  sessions := w.sessions
  subscriptions := fun r => (w.session r).subscriptions
  nextSession := w.nextSession
  topics := fun b f =>
    ((w.topics b).elems.findIdx? fun t => t.topicFilter = f).map fun n => 2 * n + b.toNat
  topic := fun r => ((w.topics (r % 2 = 1)).elems[r / 2]?).getD w.trashTopic
  nextTopic := 2 * max (w.topics false).elems.length (w.topics true).elems.length
  trashTopic := w.trashTopic

/-- The shared state shows the state of the broker: the tables agree, and the
    addresses of the topics in them are different, and taken. -/
structure Shared.Shows (s : Shared) (w : World) : Prop where
  param : s.param = w.param
  clients : s.clients = w.getClientPtr
  sessions : s.sessions = w.sessions
  subscriptions (r : SessionRef) : s.subscriptions r = (w.session r).subscriptions
  nextSession : s.nextSession = w.nextSession
  topics (b : Bool) (f : Bytes) : (s.topics b f).map s.topic = w.topicAt (.entry b f)
  trashTopic : s.trashTopic = w.trashTopic
  table {b : Bool} {f : Bytes} {r : TopicRef} : s.topics b f = some r → r < s.nextTopic
  apart {b b' : Bool} {f g : Bytes} {r : TopicRef} :
    s.topics b f = some r → s.topics b' g = some r → b' = b ∧ g = f

/-- What is at the address that a topic filter is shared under. -/
theorem share_topics_eq_some {w : World} {b : Bool} {f : Bytes} {r : TopicRef}
    (h : w.share.topics b f = some r) : ∃ (n : Nat) (t : Topic),
      (w.topics b).elems[n]? = some t ∧ t.topicFilter = f ∧ 2 * n + b.toNat = r := by
  obtain ⟨n, hn, rfl⟩ := Option.map_eq_some_iff.1 h
  obtain ⟨hlt, hf, -⟩ := List.findIdx?_eq_some_iff_getElem.1 hn
  exact ⟨n, _, List.getElem?_eq_getElem hlt, of_decide_eq_true hf, rfl⟩

theorem share_topic {w : World} {b : Bool} {n : Nat} {t : Topic}
    (h : (w.topics b).elems[n]? = some t) : w.share.topic (2 * n + b.toNat) = t := by
  have hdiv : (2 * n + b.toNat) / 2 = n := by
    have := b.toNat_le
    omega
  have hmod : decide ((2 * n + b.toNat) % 2 = 1) = b := by cases b <;> simp
  simp only [World.share, hdiv, hmod, h, Option.getD_some]

theorem shows_share (w : World) : w.share.Shows w where
  param := rfl
  clients := rfl
  sessions := rfl
  subscriptions _ := rfl
  nextSession := rfl
  topics b f := by
    cases hr : w.share.topics b f with
    | none =>
      refine (Keyed.find_eq_none.2 fun t ht heq => ?_).symm
      have hnone := List.findIdx?_eq_none_iff.1 (Option.map_eq_none_iff.1 hr) t ht
      exact of_decide_eq_false hnone heq
    | some r =>
      obtain ⟨n, t, ht, hf, rfl⟩ := share_topics_eq_some hr
      rw [Option.map_some, share_topic ht]
      exact (Keyed.find_eq_some.2 ⟨List.mem_of_getElem? ht, hf⟩).symm
  trashTopic := rfl
  table {b f r} h := by
    obtain ⟨n, t, ht, -, rfl⟩ := share_topics_eq_some h
    obtain ⟨hlt, -⟩ := List.getElem?_eq_some_iff.1 ht
    have hmax : (w.topics b).elems.length ≤
        max (w.topics false).elems.length (w.topics true).elems.length := by
      cases b with
      | false => exact le_max_left _ _
      | true => exact le_max_right _ _
    have hb := b.toNat_le
    exact show 2 * n + b.toNat <
      2 * max (w.topics false).elems.length (w.topics true).elems.length by omega
  apart {b b' f g r} h h' := by
    obtain ⟨n, t, ht, rfl, rfl⟩ := share_topics_eq_some h
    obtain ⟨n', t', ht', rfl, heq⟩ := share_topics_eq_some h'
    have heq : 2 * n' + b'.toNat = 2 * n + b.toNat := heq
    have hb := b.toNat_le
    have hb' := b'.toNat_le
    have hn : n' = n := by omega
    have htoNat : b'.toNat = b.toNat := by omega
    obtain rfl : b' = b := by
      cases b' <;> cases b <;> first | rfl | cases htoNat
    subst hn
    exact ⟨rfl, congrArg Topic.topicFilter (Option.some.inj (ht'.symm.trans ht))⟩

end MqttBroker
