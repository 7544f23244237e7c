import MqttBroker.Interleaving.Handlers
import MqttBroker.Server.Broker

/-!
# Concurrent subscriptions

While `handle_subscribe` runs for a client, handlers of other clients run. When
it is done, the topics it entered the client in are those under their filters,
unless one of them was erased after `get_topic_ptr_to_subscribe`
(`reaches_iff`). There are two ways (`Harms`): `handle_unsubscribe` erases the
filter without looking at the topic again, and `unsubscribe_all` finds the topic
without subscribers between `get_topic_ptr_to_subscribe` and
`topic::subscribe`.
-/

namespace MqttBroker

/-! ## What is claimed -/

/-- The topics that `handle_subscribe` has entered the client in. -/
def Subscribing.granted : Subscribing → List Obtained
  | entry _ granted | subscribe _ _ _ granted => granted

/-- The topic between `get_topic_ptr_to_subscribe` and `topic::subscribe`. -/
def Subscribing.pending : Subscribing → Option Obtained
  | entry _ _ => none
  | subscribe e t _ _ => some ⟨e.isWild, e.topicFilter, t⟩

/-- The topics that `handle_subscribe` has obtained. -/
def Subscribing.obtained (place : Subscribing) : List Obtained :=
  place.granted ++ place.pending.toList

/-- The entries that `handle_subscribe` has not come to. -/
def Subscribing.entries : Subscribing → List SubscribeEntry
  | entry entries _ | subscribe _ _ entries _ => entries

/-- An entry of a SUBSCRIBE enters the client in a topic of the tables. -/
def SubscribeEntry.enters (e : SubscribeEntry) : Bool :=
  e.maxQos < 3 && e.topicFilter.head? ≠ some dollar

/-- The topics obtained so far, and to be obtained. -/
def Subscribing.places (place : Subscribing) : List TopicPtr :=
  (place.obtained.map fun o => .entry o.isWild o.topicFilter) ++
    (place.entries.filter SubscribeEntry.enters).map fun e => .entry e.isWild e.topicFilter

/-- The topic that was obtained is the one under its filter, and has the client. -/
def Shared.Reaches (s : Shared) (c : MqttClient) (o : Obtained) : Prop :=
  s.topics o.isWild o.topicFilter = some o.ref ∧
    ∃ maxQos, (s.topic o.ref).find c.clientId = some ⟨c, maxQos⟩

/-- The client of `handle_disconnect` or `handle_channel_disconnected`: to begin
    with, the one it will find at its channel. -/
def Leaving.client (s : Shared) : Leaving → Option MqttClient
  | disconnect k | channelDisconnected k _ => s.param k
  | detach _ c | will c _ | publish c _ _ | unsubscribeAll c _ | deleteClient c => some c
  | done => none

/-- The client of `handle_connect`. -/
def Connecting.client (n : Newcomer) : Connecting → MqttClient
  | lookUp | deleteClient _ | detach _ | session | regSession => n.client
  | regClient c _ | setParam c _ | resume c _ | subscribe c _ _ _ => c

/-- The client that a handler runs for. -/
def Handler.client (s : Shared) : Handler → Option MqttClient
  | subscribing c _ | unsubscribing c _ => some c
  | leaving place => place.client s
  | connecting n place => some (place.client n)

/-- The entry that the next step of a handler erases. -/
def Handler.erases (s : Shared) : Handler → Option (Bool × Bytes)
  | unsubscribing _ (.erase e _) => some (e.isWild, e.topicFilter)
  | leaving (.unsubscribeAll c (sub :: _)) =>
    if s.unsubscribeErases c sub then some (sub.isWild, sub.topicFilter) else none
  | _ => none

/-- The next step of a handler erases a filter after `handle_subscribe` obtained the
    topic: in `handle_unsubscribe`; or in `unsubscribe_all`, with the topic not yet
    subscribed to and, apart from the client of the handler, empty. -/
def Subscribing.HarmedBy (place : Subscribing) (s : Shared) : Handler → Prop
  | .unsubscribing _ (.erase e _) =>
    ∃ o ∈ place.obtained, o.isWild = e.isWild ∧ o.topicFilter = e.topicFilter
  | .leaving (.unsubscribeAll c (sub :: _)) =>
    ∃ o ∈ place.pending, (o.isWild = sub.isWild ∧ o.topicFilter = sub.topicFilter) ∧
      ((s.topic o.ref).unsubscribe c).empty = true
  | _ => False

/-- The step of the handler `j` harms the `handle_subscribe` that is the handler `i`. -/
def Harms {ι : Type} (p : Pool ι Handler Shared) (i j : ι) : Prop :=
  ∃ c place, p.thread i = .subscribing c place ∧ place.HarmedBy p.shared (p.thread j)

instance (place : Subscribing) (s : Shared) : (h : Handler) → Decidable (place.HarmedBy s h)
  | .unsubscribing _ (.erase e _) => inferInstanceAs (Decidable
      (∃ o ∈ place.obtained, o.isWild = e.isWild ∧ o.topicFilter = e.topicFilter))
  | .leaving (.unsubscribeAll c (sub :: _)) => inferInstanceAs (Decidable
      (∃ o ∈ place.pending, (o.isWild = sub.isWild ∧ o.topicFilter = sub.topicFilter) ∧
        ((s.topic o.ref).unsubscribe c).empty = true))
  | .subscribing _ _ | .connecting _ _ | .unsubscribing _ (.entry _)
  | .unsubscribing _ (.unsubscribe _ _ _) | .unsubscribing _ (.empty _ _ _)
  | .leaving (.disconnect _) | .leaving (.channelDisconnected _ _) | .leaving (.detach _ _)
  | .leaving (.will _ _) | .leaving (.publish _ _ _) | .leaving (.unsubscribeAll _ [])
  | .leaving (.deleteClient _) | .leaving .done => isFalse id

instance {ι : Type} (p : Pool ι Handler Shared) (i j : ι) : Decidable (Harms p i j) :=
  match hi : p.thread i with
  | .subscribing c place => decidable_of_iff (place.HarmedBy p.shared (p.thread j))
      ⟨fun h => ⟨c, place, hi, h⟩, fun ⟨_, _, hi', h⟩ => by cases hi.symm.trans hi'; exact h⟩
  | .unsubscribing _ _ | .leaving _ | .connecting _ _ =>
    isFalse fun ⟨_, _, hi', _⟩ => nomatch hi.symm.trans hi'

variable {s s' : Shared} {h h' : Handler} {x : Bytes} {c : MqttClient}

/-! ## What a step can do -/

/-- From `s` to `s'`, entries of the tables of topics are only made with new topics,
    and none is lost but `erased`. -/
structure Shared.Moves (s : Shared) (erased : Option (Bool × Bytes)) (s' : Shared) : Prop where
  kept {b f r} : s.topics b f = some r → s'.topics b f = if erased = some (b, f) then none else some r
  fresh {b f r} : s'.topics b f = some r → s.topics b f = some r ∨
    r = s.nextTopic ∧ s.nextTopic < s'.nextTopic
  next_le : s.nextTopic ≤ s'.nextTopic

/-- Moreover, nothing is done to a client of the id `x`: it stays in the topics, and
    is not put at a channel. -/
structure Shared.Spares (s : Shared) (x : Bytes) (erased : Option (Bool × Bytes)) (s' : Shared) :
    Prop extends Shared.Moves s erased s' where
  find {r} : r < s.nextTopic → (s'.topic r).find x = (s.topic r).find x
  param {k c} : s'.param k = some c → s.param k = some c ∨ c.clientId ≠ x

/-- The tables stay, and topics are changed, but not for the client id. -/
theorem spares_of_topics (htopics : s'.topics = s.topics) (hnext : s'.nextTopic = s.nextTopic)
    (hfind : ∀ r, (s'.topic r).find x = (s.topic r).find x)
    (hparam : ∀ k c, s'.param k = some c → s.param k = some c ∨ c.clientId ≠ x) :
    s.Spares x none s' where
  kept hr := by simp [htopics, hr]
  fresh hr := .inl (htopics ▸ hr)
  next_le := hnext.ge
  find _ := hfind _
  param := hparam _ _

theorem spares_refl (s : Shared) (x : Bytes) : s.Spares x none s :=
  spares_of_topics rfl rfl (fun _ => rfl) fun _ _ => .inl

/-- What is done to the directories is no matter. -/
theorem Shared.Spares.of_eq {erased : Option (Bool × Bytes)} {s'' : Shared}
    (h : s.Spares x erased s') (htopics : s''.topics = s'.topics)
    (hnext : s''.nextTopic = s'.nextTopic) (htopic : s''.topic = s'.topic)
    (hparam : s''.param = s'.param) : s.Spares x erased s'' where
  kept hr := by rw [htopics, h.kept hr]
  fresh hr := by
    rw [htopics] at hr
    rw [hnext]
    exact h.fresh hr
  next_le := by rw [hnext]; exact h.next_le
  find hr := by rw [htopic, h.find hr]
  param hk := h.param (hparam ▸ hk)

theorem spares_of_eq (htopics : s'.topics = s.topics) (hnext : s'.nextTopic = s.nextTopic)
    (htopic : s'.topic = s.topic) (hparam : s'.param = s.param) : s.Spares x none s' :=
  (spares_refl s x).of_eq htopics hnext htopic hparam

theorem spares_setParam (s : Shared) (k : ChannelId) {v : Option MqttClient}
    (hv : ∀ c ∈ v, c.clientId ≠ x) : s.Spares x none (s.setParam k v) := by
  refine spares_of_topics rfl rfl (fun _ => rfl) fun k' c' hk => ?_
  simp only [Shared.setParam, Function.update_apply] at hk
  split_ifs at hk
  · exact .inr (hv c' hk)
  · exact .inl hk

theorem spares_modifyTopic (s : Shared) (t : TopicRef) {u : Topic → Topic}
    (hu : ∀ topic, (u topic).find x = topic.find x) : s.Spares x none (s.modifyTopic t u) := by
  refine spares_of_topics rfl rfl (fun r => ?_) fun _ _ => .inl
  rw [Shared.topic_modifyTopic]
  split_ifs with h
  · rw [hu, h]
  · rfl

/-- `topic::subscribe` of another client. -/
theorem spares_topicSubscribe (s : Shared) (t : TopicRef) (hc : c.clientId ≠ x) (maxQos : Nat) :
    s.Spares x none (s.modifyTopic t fun topic => topic.subscribe c maxQos) :=
  spares_modifyTopic s t fun topic => by rw [Topic.find_subscribe, if_neg hc.symm]

/-- A topic that is not there is made. -/
theorem spares_getTopicPtrToSubscribe (s : Shared) (x f : Bytes) (b : Bool) :
    s.Spares x none (s.getTopicPtrToSubscribe f b).2 := by
  rw [Shared.getTopicPtrToSubscribe]
  cases hr : s.topics b f with
  | some r => exact spares_refl s x
  | none =>
    refine ⟨⟨fun {b' g r} hr' => ?_, fun {b' g r} hr' => ?_, Nat.le_succ _⟩, fun {r} hlt => ?_, .inl⟩
    · have hne : ¬(b' = b ∧ g = f) := by
        rintro ⟨rfl, rfl⟩
        cases hr.symm.trans hr'
      simp only [Shared.setEntry, if_neg hne, if_neg (Option.some_ne_none _).symm]
      exact hr'
    · simp only [Shared.setEntry] at hr'
      split_ifs at hr'
      · exact .inr ⟨(Option.some.inj hr').symm, Nat.lt_succ_self _⟩
      · exact .inl hr'
    · have htopic := s.topic_getTopicPtrToSubscribe f b hlt
      rw [Shared.getTopicPtrToSubscribe, hr] at htopic
      rw [htopic]

theorem spares_eraseTopic (s : Shared) (x f : Bytes) (b : Bool) :
    s.Spares x (some (b, f)) (s.eraseTopic f b) := by
  refine ⟨⟨fun {b' g r} hr => ?_, fun {b' g r} hr => ?_, Nat.le_refl _⟩, fun _ => rfl, .inl⟩
  · simp only [Shared.eraseTopic, Shared.setEntry, hr, Option.some_inj, Prod.mk.injEq,
      eq_comm (a := b), eq_comm (a := f)]
  · simp only [Shared.eraseTopic, Shared.setEntry] at hr
    split_ifs at hr
    exact .inl hr

/-- An iteration of `unsubscribe_all` for a client with another id. -/
theorem spares_unsubscribe (s : Shared) (hc : c.clientId ≠ x) (sub : Subscription) :
    s.Spares x (if s.unsubscribeErases c sub then some (sub.isWild, sub.topicFilter) else none)
      (s.unsubscribe c sub) := by
  refine ⟨⟨fun {b f r} hr => ?_, fun {b f r} hr => ?_, ?_⟩, fun {r} _ => ?_, fun {k c'} hk => ?_⟩
  · rw [Shared.topics_unsubscribe, hr]
    split_ifs <;> simp_all
  · rw [Shared.topics_unsubscribe] at hr
    split_ifs at hr
    exact .inl hr
  · rw [Shared.unsubscribe_eq]
  · rw [Shared.topic_unsubscribe]
    split_ifs
    · rw [Topic.find_unsubscribe, if_neg hc.symm]
    · rfl
  · rw [Shared.unsubscribe_eq] at hk
    exact .inl hk

/-- `handle_subscribe` for another client. -/
theorem spares_subscribing {place place' : Subscribing} (hp : place.next c s = some (place', s'))
    (hc : c.clientId ≠ x) : s.Spares x none s' := by
  cases place with
  | subscribe e t es granted =>
    cases hp
    exact (spares_topicSubscribe s t hc e.maxQos).of_eq rfl rfl rfl rfl
  | entry es granted =>
    cases es with
    | nil => cases hp
    | cons e es =>
      simp only [Subscribing.next, Option.some_inj] at hp
      split_ifs at hp <;> cases hp
      · exact spares_of_eq rfl rfl rfl rfl
      · exact spares_refl s x
      · exact spares_getTopicPtrToSubscribe s x _ _
      · exact spares_refl s x

/-- `handle_unsubscribe` for another client. -/
theorem spares_unsubscribing {place place' : Unsubscribing}
    (hp : place.next c s = some (place', s')) (hc : c.clientId ≠ x) :
    s.Spares x ((Handler.unsubscribing c place).erases s) s' := by
  cases place with
  | entry es =>
    cases es with
    | nil => cases hp
    | cons e es =>
      simp only [Unsubscribing.next, Option.some_inj] at hp
      split at hp <;> cases hp <;> exact spares_refl s x
  | unsubscribe e t es =>
    cases hp
    refine (spares_modifyTopic s t (u := fun topic => topic.unsubscribe c)
      fun topic => ?_).of_eq rfl rfl rfl rfl
    rw [Topic.find_unsubscribe, if_neg hc.symm]
  | empty =>
    cases hp
    exact spares_refl s x
  | erase e es =>
    cases hp
    exact spares_eraseTopic s x _ _

/-- `handle_disconnect` and `handle_channel_disconnected` for another client. -/
theorem spares_leaving {place place' : Leaving} (hp : place.next s = some (place', s'))
    (hx : ∀ c ∈ place.client s, c.clientId ≠ x) :
    s.Spares x ((Handler.leaving place).erases s) s' ∧ ∀ c ∈ place'.client s', c.clientId ≠ x := by
  cases place with
  | disconnect k =>
    cases hc : s.param k with
    | none =>
      simp only [Leaving.next, hc, Option.some_inj] at hp
      cases hp
      exact ⟨spares_refl s x, fun _ hc => absurd hc (Option.some_ne_none _).symm⟩
    | some c =>
      simp only [Leaving.next, hc, Option.some_inj] at hp
      cases hp
      exact ⟨spares_refl s x, fun _ hc' => hx _ (hc.trans hc')⟩
  | channelDisconnected k id =>
    cases hc : s.param k with
    | none =>
      simp only [Leaving.next, hc, Option.some_inj] at hp
      cases hp
      exact ⟨spares_refl s x, fun _ hc => absurd hc (Option.some_ne_none _).symm⟩
    | some c =>
      simp only [Leaving.next, hc, Option.some_inj] at hp
      split_ifs at hp <;> cases hp <;> exact ⟨spares_refl s x, fun _ hc' => hx _ (hc.trans hc')⟩
  | detach k c =>
    cases hp
    exact ⟨spares_setParam s _ fun _ hc => absurd hc (Option.some_ne_none _).symm, hx⟩
  | will c id =>
    simp only [Leaving.next, Option.some_inj] at hp
    split at hp <;> cases hp <;> exact ⟨spares_refl s x, hx⟩
  | publish c id t =>
    cases hp
    refine ⟨?_, hx⟩
    split
    · split_ifs
      · exact spares_modifyTopic s t fun _ => rfl
      · exact spares_refl s x
    · exact spares_refl s x
  | unsubscribeAll c subs =>
    cases subs with
    | nil =>
      -- The subscriptions are all gone, and a clean session is erased.
      cases hp
      refine ⟨?_, hx⟩
      split_ifs
      · exact spares_of_eq rfl rfl rfl rfl
      · exact spares_refl s x
    | cons sub subs =>
      cases hp
      exact ⟨spares_unsubscribe s (hx c rfl) sub, hx⟩
  | deleteClient c =>
    cases hp
    exact ⟨spares_of_eq rfl rfl rfl rfl, fun _ hc =>
      absurd hc (Option.some_ne_none _).symm⟩
  | done => cases hp

/-- `handle_connect` for another client. -/
theorem spares_connecting {n : Newcomer} {place place' : Connecting}
    (hp : place.next n s = some (place', s')) (hx : (place.client n).clientId ≠ x) :
    s.Spares x none s' ∧ (place'.client n).clientId ≠ x := by
  cases place with
  | lookUp =>
    simp only [Connecting.next, Option.some_inj] at hp
    split at hp <;> cases hp <;> exact ⟨spares_refl s x, hx⟩
  | deleteClient old =>
    simp only [Connecting.next, Option.some_inj] at hp
    split_ifs at hp <;> cases hp <;>
      exact ⟨spares_of_eq rfl rfl rfl rfl, hx⟩
  | detach old =>
    cases hp
    exact ⟨spares_setParam s _ fun _ hc => absurd hc (Option.some_ne_none _).symm, hx⟩
  | session =>
    simp only [Connecting.next, Option.some_inj] at hp
    split_ifs at hp
    · cases hp
      exact ⟨spares_of_eq rfl rfl rfl rfl, hx⟩
    · split at hp <;> cases hp <;> exact ⟨spares_refl s x, hx⟩
  | regSession =>
    cases hp
    exact ⟨spares_of_eq rfl rfl rfl rfl, hx⟩
  | regClient c present =>
    cases hp
    refine ⟨?_, hx⟩
    rw [Shared.regClientPtr]
    split
    · exact spares_refl s x
    · exact spares_of_eq rfl rfl rfl rfl
  | setParam c present =>
    cases hp
    refine ⟨spares_setParam s _ fun c' hc => ?_, hx⟩
    rwa [← Option.some.inj hc]
  | resume c subs =>
    cases subs with
    | nil => cases hp
    | cons sub subs =>
      cases hp
      exact ⟨spares_getTopicPtrToSubscribe s x _ _, hx⟩
  | subscribe c sub t subs =>
    cases hp
    exact ⟨spares_topicSubscribe s t hx sub.maxQos, hx⟩

/-- A step of a handler for another client spares the client, and the handler
    stays one for another client. -/
theorem spares_next (hn : handlers.next h s = some (h', s'))
    (hx : ∀ c ∈ h.client s, c.clientId ≠ x) :
    s.Spares x (h.erases s) s' ∧ ∀ c ∈ h'.client s', c.clientId ≠ x := by
  cases h with
  | subscribing c place =>
    obtain ⟨⟨place', s''⟩, hp, heq⟩ := Option.map_eq_some_iff.1 hn
    cases heq
    exact ⟨spares_subscribing hp (hx c rfl), hx⟩
  | unsubscribing c place =>
    obtain ⟨⟨place', s''⟩, hp, heq⟩ := Option.map_eq_some_iff.1 hn
    cases heq
    exact ⟨spares_unsubscribing hp (hx c rfl), hx⟩
  | leaving place =>
    obtain ⟨⟨place', s''⟩, hp, heq⟩ := Option.map_eq_some_iff.1 hn
    cases heq
    exact spares_leaving hp hx
  | connecting n place =>
    obtain ⟨⟨place', s''⟩, hp, heq⟩ := Option.map_eq_some_iff.1 hn
    cases heq
    obtain ⟨hspares, hc⟩ := spares_connecting hp (hx _ rfl)
    exact ⟨hspares, fun c hc' => Option.some.inj hc' ▸ hc⟩

/-- A step of a handler, for whatever client, moves nothing else. -/
theorem moves_next (hn : handlers.next h s = some (h', s')) : s.Moves (h.erases s) s' := by
  -- There is an id that the handler is not for.
  obtain ⟨x, hx⟩ : ∃ x, ∀ c ∈ h.client s, c.clientId ≠ x := by
    cases h.client s with
    | none => exact ⟨[], fun _ hc => absurd hc (Option.some_ne_none _).symm⟩
    | some c => exact ⟨0 :: c.clientId, fun _ hc => Option.some.inj hc ▸ List.ne_cons_self⟩
  exact (spares_next hn hx).1.toMoves

/-- The addresses of the topics in the tables stay taken. -/
theorem Shared.Moves.table {erased : Option (Bool × Bytes)} (hmoves : s.Moves erased s')
    (htable : ∀ {b f r}, s.topics b f = some r → r < s.nextTopic) {b : Bool} {f : Bytes}
    {r : TopicRef} (hr : s'.topics b f = some r) : r < s'.nextTopic := by
  rcases hmoves.fresh hr with hr | ⟨rfl, hlt⟩
  · exact Nat.lt_of_lt_of_le (htable hr) hmoves.next_le
  · exact hlt

/-! ## The subscriber -/

/-- The topics that were obtained are those under their filters. -/
def Subscribing.Intact (place : Subscribing) (s : Shared) : Prop :=
  ∀ o ∈ place.obtained, s.topics o.isWild o.topicFilter = some o.ref

/-- The handler `i` is a `handle_subscribe` for the client, the others are for clients
    with other ids, and the client is in the topics it was entered in. -/
structure Watched {ι : Type} (p : Pool ι Handler Shared) (i : ι) (c : MqttClient)
    (place : Subscribing) : Prop where
  thread : p.thread i = .subscribing c place
  others {j} : j ≠ i → ∀ d ∈ (p.thread j).client p.shared, d.clientId ≠ c.clientId
  table {b f r} : p.shared.topics b f = some r → r < p.shared.nextTopic
  obtained {o} : o ∈ place.obtained → o.ref < p.shared.nextTopic
  entered {o} : o ∈ place.granted → ∃ q, (p.shared.topic o.ref).find c.clientId = some ⟨c, q⟩

variable {place : Subscribing}

/-- An iteration of `unsubscribe_all` for another client erases the filter of a topic
    that was obtained only if it was not subscribed to yet. -/
theorem unsubscribeErases_iff_pending (hintact : place.Intact s)
    (hentered : ∀ o ∈ place.granted, ∃ q, (s.topic o.ref).find c.clientId = some ⟨c, q⟩)
    {d : MqttClient} (hd : d.clientId ≠ c.clientId) (sub : Subscription) :
    (∃ o ∈ place.obtained, s.unsubscribeErases d sub = true ∧
        o.isWild = sub.isWild ∧ o.topicFilter = sub.topicFilter) ↔
      ∃ o ∈ place.pending, (o.isWild = sub.isWild ∧ o.topicFilter = sub.topicFilter) ∧
        ((s.topic o.ref).unsubscribe d).empty = true := by
  have hempty : ∀ o ∈ place.obtained, o.isWild = sub.isWild → o.topicFilter = sub.topicFilter →
      (s.unsubscribeErases d sub = true ↔ ((s.topic o.ref).unsubscribe d).empty = true) := by
    intro o ho hb hf
    have hentry := hintact o ho
    rw [hb, hf] at hentry
    rw [Shared.unsubscribeErases, hentry, Option.any_some]
  constructor
  · rintro ⟨o, ho, herases, hb, hf⟩
    have he := (hempty o ho hb hf).1 herases
    rcases List.mem_append.1 ho with hgranted | hpending
    · -- The topic has the client, and is not empty.
      obtain ⟨q, hfind⟩ := hentered o hgranted
      have hnone := ((Topic.empty_iff _).1 he).2 c.clientId
      rw [Topic.find_unsubscribe, if_neg hd.symm, hfind] at hnone
      cases hnone
    · exact ⟨o, Option.mem_toList.1 hpending, ⟨hb, hf⟩, he⟩
  · -- The topic that is pending is the one under its filter, and found empty there.
    rintro ⟨o, ho, ⟨hb, hf⟩, he⟩
    have ho := List.mem_append_right place.granted (Option.mem_toList.2 ho)
    exact ⟨o, ho, (hempty o ho hb hf).2 he, hb, hf⟩

/-- What erases the filter of a topic that was obtained. -/
theorem erases_iff_harmedBy (hintact : place.Intact s)
    (hentered : ∀ o ∈ place.granted, ∃ q, (s.topic o.ref).find c.clientId = some ⟨c, q⟩)
    (hx : ∀ d ∈ h.client s, d.clientId ≠ c.clientId) :
    (∃ o ∈ place.obtained, h.erases s = some (o.isWild, o.topicFilter)) ↔ place.HarmedBy s h := by
  cases h with
  | subscribing | connecting => simp [Handler.erases, Subscribing.HarmedBy]
  | unsubscribing d p =>
    cases p with
    | erase e es =>
      simp only [Handler.erases, Subscribing.HarmedBy, Option.some_inj, Prod.mk.injEq,
        eq_comm (a := e.isWild), eq_comm (a := e.topicFilter)]
    | entry | unsubscribe | empty => simp [Handler.erases, Subscribing.HarmedBy]
  | leaving p =>
    cases p with
    | unsubscribeAll d subs =>
      cases subs with
      | nil => simp [Handler.erases, Subscribing.HarmedBy]
      | cons sub subs =>
        refine Iff.trans (exists_congr fun o => and_congr_right fun _ => ?_)
          (unsubscribeErases_iff_pending hintact hentered (hx d rfl) sub)
        simp only [Handler.erases, Option.ite_none_right_eq_some, Option.some_inj, Prod.mk.injEq,
          eq_comm (a := sub.isWild), eq_comm (a := sub.topicFilter)]
    | disconnect | channelDisconnected | detach | will | publish | deleteClient | done =>
      simp [Handler.erases, Subscribing.HarmedBy]

/-- What a handler of another client leaves of the topics that were obtained. -/
theorem intact_iff_of_spares {erased : Option (Bool × Bytes)}
    (hspares : s.Moves erased s') (hobtained : ∀ o ∈ place.obtained, o.ref < s.nextTopic) :
    place.Intact s' ↔ place.Intact s ∧
      ¬∃ o ∈ place.obtained, erased = some (o.isWild, o.topicFilter) := by
  constructor
  · intro h
    -- A topic that was obtained is not the one that may have been made now.
    have hbefore : place.Intact s := fun o ho =>
      (hspares.fresh (h o ho)).resolve_right fun hnew => Nat.ne_of_lt (hobtained o ho) hnew.1
    refine ⟨hbefore, ?_⟩
    rintro ⟨o, ho, he⟩
    have hgone := hspares.kept (hbefore o ho)
    rw [h o ho, if_pos he] at hgone
    cases hgone
  · rintro ⟨h, hnot⟩ o ho
    rw [hspares.kept (h o ho), if_neg fun he => hnot ⟨o, ho, he⟩]

/-- A handler of another client stays one. -/
theorem client_ne_of_param (hx : ∀ d ∈ h.client s, d.clientId ≠ x)
    (hparam : ∀ k d, s'.param k = some d → s.param k = some d ∨ d.clientId ≠ x) :
    ∀ d ∈ h.client s', d.clientId ≠ x := by
  cases h with
  | leaving p =>
    cases p with
    | disconnect k | channelDisconnected k =>
      exact fun d hd => (hparam k d hd).elim (hx d) id
    | detach | will | publish | unsubscribeAll | deleteClient | done => exact hx
  | subscribing | unsubscribing | connecting => exact hx

variable {ι : Type} [DecidableEq ι] {p₀ p p' : Pool ι Handler Shared} {i j : ι}
  {l : List (Pool ι Handler Shared × ι)}

/-- A step of another handler. -/
theorem Watched.step_other (hw : Watched p i c place) (hj : j ≠ i)
    (hst : (handlers.interleave p₀).step p j = some p') :
    Watched p' i c place ∧ (place.Intact p'.shared ↔ place.Intact p.shared ∧ ¬Harms p i j) := by
  obtain ⟨h', s', hn, rfl⟩ := Threads.interleave_step hst
  obtain ⟨hspares, hclient⟩ := spares_next hn (hw.others hj)
  refine ⟨⟨?_, fun {j'} hj' => ?_, fun {b f r} hr => ?_, fun ho => ?_, fun ho => ?_⟩, ?_⟩
  · exact (Function.update_of_ne hj.symm _ _).trans hw.thread
  · simp only [Function.update_apply]
    split_ifs
    · exact hclient
    · exact client_ne_of_param (hw.others hj') fun _ _ => hspares.param
  · exact hspares.toMoves.table hw.table hr
  · exact Nat.lt_of_lt_of_le (hw.obtained ho) hspares.next_le
  · rw [hspares.find (hw.obtained (List.mem_append_left _ ho))]
    exact hw.entered ho
  · refine (intact_iff_of_spares hspares.toMoves fun o => hw.obtained).trans ?_
    refine and_congr_right fun hintact => not_congr ?_
    refine (erases_iff_harmedBy hintact (fun o => hw.entered) (hw.others hj)).trans ?_
    refine ⟨fun hh => ⟨c, place, hw.thread, hh⟩, ?_⟩
    rintro ⟨c', place', hthread, hh⟩
    cases hw.thread.symm.trans hthread
    exact hh

/-- `handle_subscribe` comes to every entry of the SUBSCRIBE. -/
theorem places_next {place' : Subscribing} (hp : place.next c s = some (place', s')) :
    place'.places = place.places := by
  cases place with
  | subscribe e t es granted =>
    cases hp
    simp [Subscribing.places, Subscribing.obtained, Subscribing.granted, Subscribing.pending,
      Subscribing.entries]
  | entry es granted =>
    cases es with
    | nil => cases hp
    | cons e es =>
      have henters : e.enters = decide (e.maxQos < 3 ∧ e.topicFilter.head? ≠ some dollar) :=
        (Bool.decide_and _ _).symm
      by_cases hq : e.maxQos < 3 <;> by_cases hsys : e.topicFilter.head? = some dollar
      all_goals
        simp only [Subscribing.next, Option.some_inj, hq, hsys, if_true, if_false] at hp
        try split_ifs at hp
        all_goals
          cases hp
          simp [Subscribing.places, Subscribing.obtained, Subscribing.granted, Subscribing.pending,
            Subscribing.entries, henters, hq, hsys]

/-- What a step of `handle_subscribe` leaves: it obtains a topic under its filter, or
    enters the client in the one it obtained. -/
theorem subscribing_next {place' : Subscribing} (hp : place.next c s = some (place', s')) :
    s.Moves none s' ∧ s'.param = s.param ∧
      ((place'.obtained = place.obtained ∧ place'.granted = place.granted ∧ s'.topic = s.topic) ∨
      (∃ o, place'.obtained = place.obtained ++ [o] ∧ place'.granted = place.granted ∧
        s'.topics o.isWild o.topicFilter = some o.ref ∧
          ∀ r < s.nextTopic, s'.topic r = s.topic r) ∨
      ∃ o q, place'.obtained = place.obtained ∧ place'.granted = place.granted ++ [o] ∧
        ∀ r, s'.topic r = if r = o.ref then (s.topic r).subscribe c q else s.topic r) := by
  -- It erases nothing, whoever it is for; take an id it is not for.
  have hmoves : s.Moves none s' := (spares_subscribing hp (List.ne_cons_self (a := 0))).toMoves
  refine ⟨hmoves, ?_⟩
  cases place with
  | subscribe e t es granted =>
    cases hp
    refine ⟨rfl, .inr (.inr ⟨_, e.maxQos, List.append_nil _, rfl, fun r => ?_⟩)⟩
    refine (s.topic_modifyTopic t (fun topic => topic.subscribe c e.maxQos) r).trans ?_
    split_ifs with hr
    · rw [hr]
    · rfl
  | entry es granted =>
    cases es with
    | nil => cases hp
    | cons e es =>
      simp only [Subscribing.next, Option.some_inj] at hp
      split_ifs at hp <;> cases hp
      · exact ⟨rfl, .inl ⟨rfl, rfl, rfl⟩⟩
      · exact ⟨rfl, .inl ⟨rfl, rfl, rfl⟩⟩
      · refine ⟨by rw [Shared.getTopicPtrToSubscribe_eq], .inr (.inl ⟨_,
          congrArg (· ++ _) (List.append_nil granted).symm, rfl, ?_, fun r hr => ?_⟩)⟩
        · rw [Shared.topics_getTopicPtrToSubscribe, if_pos ⟨rfl, rfl⟩]
        · exact s.topic_getTopicPtrToSubscribe _ _ hr
      · exact ⟨rfl, .inl ⟨rfl, rfl, rfl⟩⟩

/-- The handler goes on: it stays on a list of obtained topics that are there, with the
    client in those it was entered in. -/
theorem Watched.moved {place' : Subscribing} (hw : Watched p i c place)
    (hmoves : p.shared.Moves none s') (hparam : s'.param = p.shared.param)
    (hobtained : ∀ o ∈ place'.obtained, o.ref < s'.nextTopic)
    (hentered : ∀ o ∈ place'.granted, ∃ q, (s'.topic o.ref).find c.clientId = some ⟨c, q⟩) :
    Watched ⟨s', Function.update p.thread i (.subscribing c place')⟩ i c place' where
  thread := Function.update_self _ _ _
  others {j} hj := by
    simp only [Function.update_of_ne hj]
    exact client_ne_of_param (hw.others hj) fun k d hd => .inl (hparam ▸ hd)
  table hr := hmoves.table hw.table hr
  obtained := hobtained _
  entered := hentered _

/-- A step of the handler itself. -/
theorem Watched.step_self (hw : Watched p i c place)
    (hst : (handlers.interleave p₀).step p i = some p') :
    ∃ place', Watched p' i c place' ∧ place'.places = place.places ∧
      (place'.Intact p'.shared ↔ place.Intact p.shared) := by
  obtain ⟨h', v, hn, rfl⟩ := Threads.interleave_step hst
  rw [hw.thread] at hn
  obtain ⟨⟨place', s'⟩, hp, heq⟩ := Option.map_eq_some_iff.1 hn
  cases heq
  obtain ⟨hmoves, hparam, hcases⟩ := subscribing_next hp
  have hintact : place.Intact s' ↔ place.Intact p.shared := by
    rw [intact_iff_of_spares hmoves fun o => hw.obtained]
    simp
  have hobtained : ∀ o ∈ place.obtained, o.ref < s'.nextTopic := fun o ho =>
    Nat.lt_of_lt_of_le (hw.obtained ho) hmoves.next_le
  refine ⟨place', ?_⟩
  rcases hcases with ⟨ho, hg, ht⟩ | ⟨o, ho, hg, hentry, ht⟩ | ⟨o, q, ho, hg, ht⟩
  · -- An entry that is passed over.
    refine ⟨hw.moved hmoves hparam (ho ▸ hobtained) fun o' ho' => ?_, places_next hp, ?_⟩
    · rw [ht]
      exact hw.entered (hg ▸ ho')
    · rw [Subscribing.Intact, ho]
      exact hintact
  · -- A topic is obtained. It may be new, and none of those the client is in.
    refine ⟨hw.moved hmoves hparam (fun o' ho' => ?_) fun o' ho' => ?_, places_next hp, ?_⟩
    · rw [ho] at ho'
      rcases List.mem_append.1 ho' with ho' | ho'
      · exact hobtained o' ho'
      · rw [List.mem_singleton.1 ho']
        exact hmoves.table hw.table hentry
    · rw [hg] at ho'
      rw [ht _ (hw.obtained (List.mem_append_left _ ho'))]
      exact hw.entered ho'
    · rw [Subscribing.Intact, ho, List.forall_mem_append, and_iff_left]
      · exact hintact
      · exact fun o' ho' => List.mem_singleton.1 ho' ▸ hentry
  · -- The client is entered in the topic that was obtained last.
    refine ⟨hw.moved hmoves hparam (ho ▸ hobtained) fun o' ho' => ?_, places_next hp, ?_⟩
    · rw [ht]
      split_ifs with hr
      · exact ⟨q, by rw [Topic.find_subscribe, if_pos rfl]⟩
      · rw [hg] at ho'
        rcases List.mem_append.1 ho' with ho' | ho'
        · exact hw.entered ho'
        · exact absurd (congrArg Obtained.ref (List.mem_singleton.1 ho')) hr
    · rw [Subscribing.Intact, ho]
      exact hintact

/-! ## Runs -/

/-- In a run, the topics that were obtained stay those under their filters as long as
    no step harms the handler. -/
theorem watched_run (h : (handlers.interleave p₀).Run l p) {place₀ : Subscribing}
    (hw : Watched p₀ i c place₀) (hintact : place₀.Intact p₀.shared) :
    ∃ place, Watched p i c place ∧ place.places = place₀.places ∧
      (place.Intact p.shared ↔ ∀ y ∈ l, ¬Harms y.1 i y.2) := by
  induction h with
  | init => exact ⟨place₀, hw, rfl, iff_of_true hintact fun _ hy => absurd hy List.not_mem_nil⟩
  | @step l p p' j hl hst ih =>
    obtain ⟨place, hw, hplaces, hiff⟩ := ih
    simp only [List.forall_mem_append, List.forall_mem_singleton, ← hiff]
    by_cases hj : j = i
    · subst hj
      obtain ⟨place', hw', hplaces', hiff'⟩ := hw.step_self hst
      have hself : ¬Harms p j j := by
        rintro ⟨c', place'', hthread, hh⟩
        rw [hthread] at hh
        exact hh
      exact ⟨place', hw', hplaces'.trans hplaces, hiff'.trans (and_iff_left hself).symm⟩
    · obtain ⟨hw', hiff'⟩ := hw.step_other hj hst
      exact ⟨place, hw', hplaces, hiff'⟩

/-- When `handle_subscribe` is done, it has entered the client in a topic for every entry
    that the SUBACK grants, but for `$sys/trash`, and these topics are the ones under
    their filters, exactly when no step of another handler harmed it. -/
theorem reaches_iff {entries : List SubscribeEntry} {granted : List Obtained}
    (hstart : p₀.thread i = .subscribing c (.entry entries []))
    (hothers : ∀ j ≠ i, ∀ d ∈ (p₀.thread j).client p₀.shared, d.clientId ≠ c.clientId)
    (htable : ∀ b f r, p₀.shared.topics b f = some r → r < p₀.shared.nextTopic)
    (h : (handlers.interleave p₀).Run l p) (hdone : p.thread i = .subscribing c (.entry [] granted)) :
    granted.map (fun o => TopicPtr.entry o.isWild o.topicFilter) =
        (entries.filter SubscribeEntry.enters).map (fun e => .entry e.isWild e.topicFilter) ∧
      ((∀ o ∈ granted, p.shared.Reaches c o) ↔ ∀ y ∈ l, ¬Harms y.1 i y.2) := by
  have hw : Watched p₀ i c (.entry entries []) := ⟨hstart, fun hj => hothers _ hj, fun hr =>
    htable _ _ _ hr, fun ho => absurd ho List.not_mem_nil, fun ho => absurd ho List.not_mem_nil⟩
  obtain ⟨place, hw, hplaces, hiff⟩ := watched_run h hw fun o ho => absurd ho List.not_mem_nil
  cases hw.thread.symm.trans hdone
  simp only [Subscribing.places, Subscribing.obtained, Subscribing.granted, Subscribing.pending,
    Subscribing.entries, Option.toList_none, List.append_nil, List.filter_nil, List.map_nil,
    List.nil_append] at hplaces
  refine ⟨hplaces, Iff.trans ?_ hiff⟩
  rw [Subscribing.Intact, Subscribing.obtained]
  simp only [Subscribing.pending, Option.toList_none, List.append_nil]
  exact forall₂_congr fun o ho => and_iff_left (hw.entered ho)

/-! ## Runs with given handlers -/

/-- `handle_subscribe` for the filter `t`, by a client, and `handle_unsubscribe` from it,
    by another. -/
def subscribingAndUnsubscribing (w : World) (a b : MqttClient) : Pool Bool Handler Shared where
  shared := w.share
  thread
    | false => .subscribing a (.entry [⟨[0x74], 0, false⟩] [])
    | true => .unsubscribing b (.entry [⟨[0x74], false⟩])

/-- Two clients are connected, and one is subscribed to the filter `t`. -/
def subscribedActions : List Action :=
  [.accept 1, .read 1 (connectBytes 0x02 [0x61] []), .accept 2,
    .read 2 (connectBytes 0x02 [0x62] []), .read 2 (subscribeBytes [0x74] 0)]

/-- The other client is still subscribed when `handle_unsubscribe` looks at the topic. -/
theorem reaches_subscribed_before : ∃ (w : World) (a b : MqttClient) (l : _)
    (p : Pool Bool Handler Shared) (o : Obtained), (broker mqttdCfg).Reachable w ∧
      (handlers.interleave (subscribingAndUnsubscribing w a b)).Run l p ∧
      p.thread true = .unsubscribing b (.entry []) ∧ p.shared.Reaches a o := by
  have hruns : runs (fun _ _ => true) subscribedActions (fun w =>
      (w.param 1).any fun a => (w.param 2).any fun b => a.clientId ≠ b.clientId &&
        ((handlers.interleave (subscribingAndUnsubscribing w a b)).exec
          (fun p i => !decide (Harms p false i)) [true, true, false, false, true]).any fun p =>
            p.thread false = .subscribing a (.entry [] [⟨false, [0x74], 0⟩]) &&
              p.thread true = .unsubscribing b (.entry [])) = true := by
    decide +kernel
  obtain ⟨l₀, w, hl₀, -, hp⟩ := exists_run hruns
  obtain ⟨a, -, hp⟩ := Option.any_eq_true _ _ |>.1 hp
  obtain ⟨b, -, hp⟩ := Option.any_eq_true _ _ |>.1 hp
  obtain ⟨hne, hp⟩ := Bool.and_eq_true_iff.1 hp
  obtain ⟨p, hexec, hp⟩ := Option.any_eq_true _ _ |>.1 hp
  obtain ⟨hgranted, hdone⟩ := Bool.and_eq_true_iff.1 hp
  obtain ⟨l, hl, hok⟩ := Machine.exec_run hexec
  refine ⟨w, a, b, l, p, _, ⟨l₀, hl₀⟩, hl, of_decide_eq_true hdone,
    (reaches_iff (i := false) rfl ?_ (fun _ _ _ => (shows_share w).table) hl
      (of_decide_eq_true hgranted)).2.2 (fun y hy => by simpa using hok y hy) _
      (List.mem_singleton_self _)⟩
  intro j hj d hd
  obtain rfl : j = true := Bool.eq_true_of_not_eq_false hj
  obtain rfl : b = d := Option.some.inj hd
  exact (of_decide_eq_true hne).symm

/-- `handle_unsubscribe` finds the topic empty, the other client gets it, and then its
    filter is erased. -/
theorem subscription_lost : ¬∀ (w : World) (a b : MqttClient) (l : _)
    (p : Pool Bool Handler Shared) (granted : List Obtained), (broker mqttdCfg).Reachable w →
      w.param a.channelId = some a → w.param b.channelId = some b → a.clientId ≠ b.clientId →
      (handlers.interleave (subscribingAndUnsubscribing w a b)).Run l p →
      p.thread false = .subscribing a (.entry [] granted) →
      p.thread true = .unsubscribing b (.entry []) → ∀ o ∈ granted, p.shared.Reaches a o := by
  intro h
  have hruns : runs (fun _ _ => true) subscribedActions (fun w =>
      (w.param 1).any fun a => (w.param 2).any fun b =>
        (a.channelId = 1 && b.channelId = 2 && a.clientId ≠ b.clientId) &&
        ((handlers.interleave (subscribingAndUnsubscribing w a b)).exec
          (fun _ _ => true) [true, true, true, false, true, false]).any fun p =>
            p.thread false = .subscribing a (.entry [] [⟨false, [0x74], 0⟩]) &&
              p.thread true = .unsubscribing b (.entry []) &&
              (p.shared.topics false [0x74]).isNone) = true := by
    decide +kernel
  obtain ⟨l₀, w, hl₀, -, hp⟩ := exists_run hruns
  obtain ⟨a, ha, hp⟩ := Option.any_eq_true _ _ |>.1 hp
  obtain ⟨b, hb, hp⟩ := Option.any_eq_true _ _ |>.1 hp
  simp only [Bool.and_eq_true, decide_eq_true_eq] at hp
  obtain ⟨⟨⟨hka, hkb⟩, hne⟩, hp⟩ := hp
  obtain ⟨p, hexec, hp⟩ := Option.any_eq_true _ _ |>.1 hp
  simp only [Bool.and_eq_true, decide_eq_true_eq] at hp
  obtain ⟨⟨hgranted, hdone⟩, hnone⟩ := hp
  obtain ⟨l, hl, -⟩ := Machine.exec_run hexec
  have hreaches := h w a b l p _ ⟨l₀, hl₀⟩ (hka ▸ ha) (hkb ▸ hb) hne hl hgranted hdone _
    (List.mem_singleton_self _)
  exact Option.some_ne_none _ (hreaches.1.symm.trans (Option.isNone_iff_eq_none.1 hnone))

end MqttBroker
