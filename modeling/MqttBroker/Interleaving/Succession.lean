import MqttBroker.Interleaving.Subscriptions

/-!
# A connection and its successor

`handle_disconnect` or `handle_channel_disconnected` runs for a connection, and
`handle_connect` for a newer one with the same client id. When both are done, the
newer client is registered, with its session and in the topics of its
subscriptions, unless the older connection was cleaned up too late
(`succeeded_iff`): its `delete_client_ptr` came after the `reg_client_ptr` of the
newer one, or its `delete_session_ptr` after the newer one had got its session
(`Destroys`).

The other steps that do harm need no condition of their own: a cleanup that has
begun when the newer client is registered ends with `delete_client_ptr`.
-/

namespace MqttBroker

/-- The two connections. -/
inductive Connection
  | old
  | new
  deriving DecidableEq

/-! ## What is claimed -/

/-- `handle_connect` has given the client its session. -/
def Connecting.hasSession : Connecting → Bool
  | regClient _ _ | setParam _ _ | resume _ _ | subscribe _ _ _ _ => true
  | lookUp | deleteClient _ | detach _ | session | regSession => false

/-- `handle_connect` has registered the client. -/
def Connecting.registered : Connecting → Bool
  | setParam _ _ | resume _ _ | subscribe _ _ _ _ => true
  | lookUp | deleteClient _ | detach _ | session | regSession | regClient _ _ => false

/-- The client is registered, with its session, and is in the topics of the
    subscriptions of the session. -/
structure Shared.Succeeded (s : Shared) (c : MqttClient) : Prop where
  client : s.clients c.clientId = some c
  session : s.sessions c.clientId = some c.session
  reaches : ∀ sub ∈ (s.subscriptions c.session).elems,
    ∃ r, s.Reaches c ⟨sub.isWild, sub.topicFilter, r⟩

/-- The next step of the cleanup deletes the newer client, or its session. -/
def Leaving.Destroys : Leaving → Connecting → Prop
  | deleteClient _, place => place.registered = true
  | unsubscribeAll c [], place => c.cleanSession = true ∧ place.hasSession = true
  | _, _ => False

/-- The step of the connection `i` is one of the older connection that destroys what
    the newer one has. -/
def Destroys (p : Pool Connection Handler Shared) (i : Connection) : Prop :=
  i = .old ∧ ∃ leaving n connecting, p.thread .old = .leaving leaving ∧
    p.thread .new = .connecting n connecting ∧ leaving.Destroys connecting

instance : (leaving : Leaving) → (place : Connecting) → Decidable (leaving.Destroys place)
  | .deleteClient _, place => inferInstanceAs (Decidable (place.registered = true))
  | .unsubscribeAll c [], place =>
    inferInstanceAs (Decidable (c.cleanSession = true ∧ place.hasSession = true))
  | .disconnect _, _ | .channelDisconnected _ _, _ | .detach _ _, _ | .will _ _, _
  | .publish _ _ _, _ | .unsubscribeAll _ (_ :: _), _ | .done, _ => isFalse id

/-- The handlers of the two connections tell whether a step destroys something. -/
theorem destroys_iff {p : Pool Connection Handler Shared} {n : Newcomer} {leaving : Leaving}
    {connecting : Connecting} (hold : p.thread .old = .leaving leaving)
    (hnew : p.thread .new = .connecting n connecting) (i : Connection) :
    Destroys p i ↔ i = .old ∧ leaving.Destroys connecting := by
  refine and_congr_right fun _ => ⟨?_, fun hd => ⟨leaving, n, connecting, hold, hnew, hd⟩⟩
  rintro ⟨_, _, _, hold', hnew', hd⟩
  cases hold.symm.trans hold'
  cases hnew.symm.trans hnew'
  exact hd

instance (p : Pool Connection Handler Shared) (i : Connection) : Decidable (Destroys p i) :=
  match hold : p.thread .old, hnew : p.thread .new with
  | .leaving _, .connecting _ _ => decidable_of_iff' _ (destroys_iff hold hnew i)
  | .subscribing _ _, _ | .unsubscribing _ _, _ | .connecting _ _, _ =>
    isFalse fun ⟨_, _, _, _, hold', _⟩ => nomatch hold.symm.trans hold'
  | .leaving _, .subscribing _ _ | .leaving _, .unsubscribing _ _ | .leaving _, .leaving _ =>
    isFalse fun ⟨_, _, _, _, _, hnew', _⟩ => nomatch hnew.symm.trans hnew'

variable {s s' : Shared} {n : Newcomer} {leaving leaving' : Leaving}
  {connecting connecting' : Connecting} {c o : MqttClient}

/-! ## The older connection -/

/-- The channel that a cleanup that has not begun is to look at. -/
def Leaving.channel : Leaving → Option ChannelId
  | disconnect k | channelDisconnected k _ => some k
  | detach _ _ | will _ _ | publish _ _ _ | unsubscribeAll _ _ | deleteClient _ | done => none

/-- A cleanup that finds no client does nothing. -/
theorem leaving_next_of_none (hp : leaving.next s = some (leaving', s'))
    (hnone : leaving.client s = none) : s' = s ∧ leaving' = .done := by
  cases leaving with
  | disconnect k | channelDisconnected k =>
    have hk : s.param k = none := hnone
    simp only [Leaving.next, hk, Option.some_inj] at hp
    cases hp
    exact ⟨rfl, rfl⟩
  | done => cases hp
  | detach | will | publish | unsubscribeAll | deleteClient => cases hnone

/-- What the step of a cleanup does to the tables of the clients and of the sessions. -/
structure Leaving.Cleans (leaving : Leaving) (s : Shared) (leaving' : Leaving) (s' : Shared) :
    Prop where
  channel : leaving'.channel = none
  subscriptions : s'.subscriptions = s.subscriptions
  clients : (∃ c, leaving = .deleteClient c ∧ leaving' = .done ∧
      s'.clients = Function.update s.clients c.clientId none) ∨
    s'.clients = s.clients ∧ leaving'.client s' = leaving.client s
  sessions : (∃ c, leaving = .unsubscribeAll c [] ∧ c.cleanSession = true ∧
      s'.sessions = Function.update s.sessions c.clientId none) ∨
    s'.sessions = s.sessions

theorem leaving_next (hp : leaving.next s = some (leaving', s')) :
    leaving.Cleans s leaving' s' := by
  cases leaving with
  | disconnect k =>
    simp only [Leaving.next, Option.some_inj] at hp
    split at hp <;> cases hp
    · exact ⟨rfl, rfl, .inr ⟨rfl, Eq.symm ‹_›⟩, .inr rfl⟩
    · exact ⟨rfl, rfl, .inr ⟨rfl, Eq.symm ‹_›⟩, .inr rfl⟩
  | channelDisconnected k id =>
    simp only [Leaving.next, Option.some_inj] at hp
    split at hp
    · cases hp
      exact ⟨rfl, rfl, .inr ⟨rfl, Eq.symm ‹_›⟩, .inr rfl⟩
    · split_ifs at hp <;> cases hp <;> exact ⟨rfl, rfl, .inr ⟨rfl, Eq.symm ‹_›⟩, .inr rfl⟩
  | detach k c =>
    cases hp
    exact ⟨rfl, rfl, .inr ⟨rfl, rfl⟩, .inr rfl⟩
  | will c id =>
    simp only [Leaving.next, Option.some_inj] at hp
    split at hp <;> cases hp <;> exact ⟨rfl, rfl, .inr ⟨rfl, rfl⟩, .inr rfl⟩
  | publish c id t =>
    cases hp
    refine ⟨rfl, ?_, .inr ⟨?_, rfl⟩, .inr ?_⟩ <;> (split; split_ifs) <;> rfl
  | unsubscribeAll c subs =>
    cases subs with
    | nil =>
      cases hp
      by_cases hc : c.cleanSession
      · simp only [hc, if_true]
        exact ⟨rfl, rfl, .inr ⟨rfl, rfl⟩, .inl ⟨c, rfl, hc, rfl⟩⟩
      · simp only [hc]
        exact ⟨rfl, rfl, .inr ⟨rfl, rfl⟩, .inr rfl⟩
    | cons sub subs =>
      cases hp
      rw [Shared.unsubscribe_eq]
      exact ⟨rfl, rfl, .inr ⟨rfl, rfl⟩, .inr rfl⟩
  | deleteClient c =>
    cases hp
    exact ⟨rfl, rfl, .inl ⟨c, rfl, rfl, rfl⟩, .inr rfl⟩
  | done => cases hp

/-- A cleanup stores nothing. -/
theorem Leaving.Cleans.none_of_none (h : leaving.Cleans s leaving' s') (x : Bytes) :
    (s.clients x = none → s'.clients x = none) ∧ (s.sessions x = none → s'.sessions x = none) := by
  constructor <;> intro hx
  · rcases h.clients with ⟨c, -, -, heq⟩ | ⟨heq, -⟩
    · rw [heq, Function.update_apply]
      split_ifs
      · rfl
      · exact hx
    · rw [heq, hx]
  · rcases h.sessions with ⟨c, -, -, heq⟩ | heq
    · rw [heq, Function.update_apply]
      split_ifs
      · rfl
      · exact hx
    · rw [heq, hx]

/-! ## What holds while both run -/

/-- What the handlers are about: the addresses of the topics are taken, the older
    connection is on another channel, and the clients have one id. -/
structure Succession (n : Newcomer) (s : Shared) (leaving : Leaving) (connecting : Connecting) :
    Prop where
  table {b : Bool} {f : Bytes} {r : TopicRef} : s.topics b f = some r → r < s.nextTopic
  channel {k : ChannelId} : leaving.channel = some k → k ≠ n.channelId
  old {o : MqttClient} : leaving.client s = some o → o.clientId = n.client.clientId
  made : ∃ r, connecting.client n = n.client.setSessionPtr r

/-- Nothing of the newer connection is destroyed: what it has, at each of its places,
    unless a cleanup is `pending` that destroys it in the end. -/
def Connecting.Sound (n : Newcomer) (s : Shared) (pending : Prop) : Connecting → Prop
  | lookUp => n.clientId = n.client.clientId ∨
      s.clients n.clientId = none ∧ (s.clients n.client.clientId = none ∨ pending)
  | deleteClient _ => n.clientId = n.client.clientId
  | detach _ => s.clients n.client.clientId = none
  | session => s.clients n.client.clientId = none ∨ pending
  | regSession => (s.clients n.client.clientId = none ∨ pending) ∧
      s.sessions n.client.clientId = none
  | regClient c present => (s.clients n.client.clientId = none ∨ pending) ∧
      s.sessions n.client.clientId = some c.session ∧
        (present = false → (s.subscriptions c.session).elems = [])
  | setParam c present => pending ∨ s.clients n.client.clientId = some c ∧
      s.sessions n.client.clientId = some c.session ∧
        (present = false → (s.subscriptions c.session).elems = [])
  | resume c subs => pending ∨ s.clients n.client.clientId = some c ∧
      s.sessions n.client.clientId = some c.session ∧
        ∀ sub ∈ (s.subscriptions c.session).elems,
          sub ∈ subs ∨ ∃ r, s.Reaches c ⟨sub.isWild, sub.topicFilter, r⟩
  | subscribe c sub t subs => pending ∨ s.clients n.client.clientId = some c ∧
      s.sessions n.client.clientId = some c.session ∧
        s.topics sub.isWild sub.topicFilter = some t ∧
          ∀ sub' ∈ (s.subscriptions c.session).elems,
            sub' ∈ sub :: subs ∨ ∃ r, s.Reaches c ⟨sub'.isWild, sub'.topicFilter, r⟩

/-- The newer client is not registered any more, or its session is not stored. -/
def Connecting.Lost (n : Newcomer) (s : Shared) (place : Connecting) : Prop :=
  place.registered = true ∧ s.clients n.client.clientId = none ∨
    place.hasSession = true ∧ s.sessions n.client.clientId = none

variable {pending pending' : Prop}

/-! ## Steps of the older connection -/

theorem Succession.leaving_step (h : Succession n s leaving connecting)
    (hp : leaving.next s = some (leaving', s')) : Succession n s' leaving' connecting where
  table hr := by
    have hn : handlers.next (.leaving leaving) s = some (.leaving leaving', s') := by
      simp only [handlers, hp, Option.map_some]
    exact (moves_next hn).table h.table hr
  channel hk := by
    rw [(leaving_next hp).channel] at hk
    cases hk
  old hclient := by
    rcases (leaving_next hp).clients with ⟨c, -, rfl, -⟩ | ⟨-, heq⟩
    · cases hclient
    · exact h.old (heq.symm.trans hclient)
  made := h.made

/-- What the newer connection has is kept with the tables, if the client is not
    registered yet. -/
theorem sound_of_tables (h : connecting.Sound n s pending)
    (hclients : ∀ x, s.clients x = none → s'.clients x = none)
    (hpending : s'.clients n.client.clientId = none ∨ pending')
    (hregistered : connecting.registered = true → pending')
    (hnone : ∀ x, s.sessions x = none → s'.sessions x = none)
    (hsessions : connecting.hasSession = true → s'.sessions = s.sessions)
    (hsubscriptions : s'.subscriptions = s.subscriptions) : connecting.Sound n s' pending' := by
  cases connecting with
  | lookUp => exact h.imp_right fun h => ⟨hclients _ h.1, hpending⟩
  | deleteClient old => exact h
  | detach old => exact hclients _ h
  | session => exact hpending
  | regSession => exact ⟨hpending, hnone _ h.2⟩
  | regClient c present =>
    rw [Connecting.Sound, hsessions rfl, hsubscriptions]
    exact ⟨hpending, h.2⟩
  | setParam | resume | subscribe => exact .inl (hregistered rfl)

/-- A step of the cleanup leaves what the newer connection has. -/
theorem Succession.sound_leaving (h : Succession n s leaving connecting)
    (hsound : connecting.Sound n s (leaving.client s ≠ none))
    (hp : leaving.next s = some (leaving', s')) (hd : ¬leaving.Destroys connecting) :
    connecting.Sound n s' (leaving'.client s' ≠ none) := by
  have hcleans := leaving_next hp
  cases hclient : leaving.client s with
  | none =>
    obtain ⟨rfl, rfl⟩ := leaving_next_of_none hp hclient
    rwa [hclient] at hsound
  | some o =>
    refine sound_of_tables hsound (fun x => (hcleans.none_of_none x).1) ?_ (fun hr => ?_)
      (fun x => (hcleans.none_of_none x).2) (fun hs => ?_) hcleans.subscriptions
    · rcases hcleans.clients with ⟨c, rfl, rfl, hclients⟩ | ⟨-, heq⟩
      · rw [hclients, ← h.old hclient, Option.some.inj hclient]
        exact .inl (Function.update_self _ _ _)
      · exact .inr (heq ▸ hclient ▸ Option.some_ne_none o)
    · rcases hcleans.clients with ⟨c, rfl, rfl, -⟩ | ⟨-, heq⟩
      · exact absurd hr hd
      · exact heq ▸ hclient ▸ Option.some_ne_none o
    · rcases hcleans.sessions with ⟨c, rfl, hclean, -⟩ | heq
      · exact absurd ⟨hclean, hs⟩ hd
      · exact heq

/-- A step of the cleanup that destroys something. -/
theorem Succession.lost_of_destroys (h : Succession n s leaving connecting)
    (hp : leaving.next s = some (leaving', s')) (hd : leaving.Destroys connecting) :
    connecting.Lost n s' := by
  cases leaving with
  | deleteClient c =>
    cases hp
    refine .inl ⟨hd, ?_⟩
    rw [← h.old rfl]
    exact Function.update_self _ _ _
  | unsubscribeAll c subs =>
    cases subs with
    | nil =>
      cases hp
      refine .inr ⟨hd.2, ?_⟩
      rw [← h.old rfl]
      simp only [hd.1, if_true]
      exact Function.update_self _ _ _
    | cons sub subs => exact hd.elim
  | disconnect | channelDisconnected | detach | will | publish | done => exact hd.elim

/-- What is lost stays lost. -/
theorem Connecting.Lost.leaving_step (h : connecting.Lost n s)
    (hp : leaving.next s = some (leaving', s')) : connecting.Lost n s' :=
  have hnone := (leaving_next hp).none_of_none n.client.clientId
  h.imp (And.imp_right hnone.1) (And.imp_right hnone.2)

/-! ## Steps of the newer connection -/

/-- What a step of `handle_connect` leaves: a channel other than its own is only ever
    detached, the client is the one it made, with a session, and what it has done to the
    tables of the clients and of the sessions it does not do again. -/
structure Connecting.Proceeds (n : Newcomer) (s : Shared) (place : Connecting) (s' : Shared)
    (place' : Connecting) : Prop where
  param (k : ChannelId) : k ≠ n.channelId → s'.param k = s.param k ∨
    s'.param k = none ∧ ∃ old, place = .detach old
  client : place'.client n = place.client n ∨ ∃ r, place'.client n = n.client.setSessionPtr r
  clients : place.registered = true → place'.registered = true ∧ s'.clients = s.clients
  sessions : place.hasSession = true → place'.hasSession = true ∧ s'.sessions = s.sessions

theorem connecting_next (hp : connecting.next n s = some (connecting', s')) :
    connecting.Proceeds n s s' connecting' := by
  cases connecting with
  | lookUp =>
    simp only [Connecting.next, Option.some_inj] at hp
    split at hp <;> cases hp <;>
      exact ⟨fun _ _ => .inl rfl, .inl rfl, Bool.noConfusion, Bool.noConfusion⟩
  | deleteClient old =>
    simp only [Connecting.next, Option.some_inj] at hp
    split_ifs at hp <;> cases hp <;>
      exact ⟨fun _ _ => .inl rfl, .inl rfl, Bool.noConfusion, Bool.noConfusion⟩
  | detach old =>
    cases hp
    refine ⟨fun k _ => ?_, .inl rfl, Bool.noConfusion, Bool.noConfusion⟩
    simp only [Shared.setParam, Function.update_apply]
    split_ifs
    · exact .inr ⟨rfl, old, rfl⟩
    · exact .inl rfl
  | session =>
    simp only [Connecting.next, Option.some_inj] at hp
    split_ifs at hp
    · cases hp
      exact ⟨fun _ _ => .inl rfl, .inl rfl, Bool.noConfusion, Bool.noConfusion⟩
    · split at hp <;> cases hp
      · exact ⟨fun _ _ => .inl rfl, .inl rfl, Bool.noConfusion, Bool.noConfusion⟩
      · exact ⟨fun _ _ => .inl rfl, .inr ⟨_, rfl⟩, Bool.noConfusion, Bool.noConfusion⟩
  | regSession =>
    cases hp
    exact ⟨fun _ _ => .inl rfl, .inr ⟨_, rfl⟩, Bool.noConfusion, Bool.noConfusion⟩
  | regClient c present =>
    cases hp
    rw [Shared.regClientPtr]
    split <;> exact ⟨fun _ _ => .inl rfl, .inl rfl, Bool.noConfusion, fun _ => ⟨rfl, rfl⟩⟩
  | setParam c present =>
    cases hp
    exact ⟨fun k hk => .inl (Function.update_of_ne hk _ _), .inl rfl, fun _ => ⟨rfl, rfl⟩,
      fun _ => ⟨rfl, rfl⟩⟩
  | resume c subs =>
    cases subs with
    | nil => cases hp
    | cons sub subs =>
      cases hp
      rw [Shared.getTopicPtrToSubscribe_eq]
      exact ⟨fun _ _ => .inl rfl, .inl rfl, fun _ => ⟨rfl, rfl⟩, fun _ => ⟨rfl, rfl⟩⟩
  | subscribe c sub t subs =>
    cases hp
    exact ⟨fun _ _ => .inl rfl, .inl rfl, fun _ => ⟨rfl, rfl⟩, fun _ => ⟨rfl, rfl⟩⟩

/-- A cleanup is as pending after a step of `handle_connect` as it was, unless the
    channel it is to look at was detached. -/
theorem Succession.client_connecting (h : Succession n s leaving connecting)
    (hp : connecting.next n s = some (connecting', s')) : leaving.client s' = leaving.client s ∨
      leaving.client s' = none ∧ ∃ old, connecting = .detach old := by
  cases leaving with
  | disconnect k | channelDisconnected k => exact (connecting_next hp).param k (h.channel rfl)
  | detach | will | publish | unsubscribeAll | deleteClient | done => exact .inl rfl

theorem Succession.connecting_step (h : Succession n s leaving connecting)
    (hp : connecting.next n s = some (connecting', s')) :
    Succession n s' leaving connecting' where
  table hr := by
    have hn : handlers.next (.connecting n connecting) s = some (.connecting n connecting', s') := by
      simp only [handlers, hp, Option.map_some]
    exact (moves_next hn).table h.table hr
  channel := h.channel
  old hclient := by
    rcases h.client_connecting hp with heq | ⟨hnone, -⟩
    · exact h.old (heq.symm.trans hclient)
    · exact absurd (hnone.symm.trans hclient) (Option.some_ne_none _).symm
  made := by
    rcases (connecting_next hp).client with heq | hr
    · exact heq ▸ h.made
    · exact hr

/-- The client of the newer connection has its id. -/
theorem Succession.clientId (h : Succession n s leaving connecting) :
    (connecting.client n).clientId = n.client.clientId := by
  obtain ⟨r, hr⟩ := h.made
  rw [hr]
  rfl

/-- A client that is in a topic of the tables stays in it when a topic is obtained. -/
theorem Shared.Reaches.getTopicPtrToSubscribe {o : Obtained} (h : s.Reaches c o)
    (htable : ∀ {b f r}, s.topics b f = some r → r < s.nextTopic) (f : Bytes) (b : Bool) :
    (s.getTopicPtrToSubscribe f b).2.Reaches c o := by
  refine ⟨?_, ?_⟩
  · rw [(spares_getTopicPtrToSubscribe s [] f b).kept h.1, if_neg (Option.some_ne_none _).symm]
  · rw [s.topic_getTopicPtrToSubscribe f b (htable h.1)]
    exact h.2

/-- A client that is subscribed to a topic is in it. -/
theorem reaches_subscribe {o : Obtained} {t : TopicRef} (q : Nat)
    (hentry : s.topics o.isWild o.topicFilter = some o.ref) (h : o.ref = t ∨ s.Reaches c o) :
    (s.modifyTopic t fun topic => topic.subscribe c q).Reaches c o := by
  refine ⟨hentry, ?_⟩
  rw [Shared.topic_modifyTopic]
  split_ifs with hr
  · exact ⟨q, by rw [Topic.find_subscribe, if_pos rfl]⟩
  · exact (h.resolve_left hr).2

namespace Connecting

/-- A new session is stored, and has no subscriptions. -/
theorem sound_regSession (h : regSession.Sound n s pending) :
    (regClient (n.client.setSessionPtr s.nextSession) false).Sound n
      (s.regSessionPtr n.client.clientId) pending := by
  refine ⟨h.1, ?_, fun _ => ?_⟩
  · simp only [Shared.regSessionPtr, h.2]
    exact Function.update_self _ _ _
  · simp only [Shared.regSessionPtr, MqttClient.setSessionPtr_session, Function.update_self,
      Keyed.empty]

/-- A client that nothing stands in for is registered. -/
theorem sound_regClient {present : Bool} (hid : c.clientId = n.client.clientId)
    (h : (regClient c present).Sound n s pending) :
    (setParam c present).Sound n (s.regClientPtr c) pending := by
  obtain ⟨hfree | hpending, hsession⟩ := h
  · right
    rw [Shared.regClientPtr, hid, hfree]
    exact ⟨Function.update_self _ _ _, hsession⟩
  · exact .inl hpending

/-- The subscriptions to be entered again are all of those of the session. -/
theorem sound_setParam {present : Bool} {k : ChannelId}
    (h : (setParam c present).Sound n s pending) :
    (resume c (if present then (s.subscriptions c.session).elems else [])).Sound n
      (s.setParam k (some c)) pending := by
  refine h.imp_right ?_
  rintro ⟨hclient, hsession, hempty⟩
  refine ⟨hclient, hsession, fun sub hsub => ?_⟩
  cases present with
  | false => exact absurd (hempty rfl ▸ hsub) List.not_mem_nil
  | true => exact .inl hsub

theorem sound_resume {sub : Subscription} {subs : List Subscription}
    (htable : ∀ {b f r}, s.topics b f = some r → r < s.nextTopic)
    (h : (resume c (sub :: subs)).Sound n s pending) :
    (subscribe c sub (s.getTopicPtrToSubscribe sub.topicFilter sub.isWild).1 subs).Sound n
      (s.getTopicPtrToSubscribe sub.topicFilter sub.isWild).2 pending := by
  refine h.imp_right ?_
  rintro ⟨hclient, hsession, hreaches⟩
  rw [Shared.getTopicPtrToSubscribe_eq]
  refine ⟨hclient, hsession, ?_, fun sub' hsub' => ?_⟩
  · exact (s.topics_getTopicPtrToSubscribe _ _ _ _).trans (if_pos ⟨rfl, rfl⟩)
  · refine (hreaches sub' hsub').imp_right ?_
    rintro ⟨r, hr⟩
    exact ⟨r, hr.getTopicPtrToSubscribe htable _ _⟩

theorem sound_subscribe {sub : Subscription} {subs : List Subscription} {t : TopicRef}
    (h : (subscribe c sub t subs).Sound n s pending) :
    (resume c subs).Sound n (s.modifyTopic t fun topic => topic.subscribe c sub.maxQos) pending := by
  refine h.imp_right ?_
  rintro ⟨hclient, hsession, hentry, hreaches⟩
  refine ⟨hclient, hsession, fun sub' hsub' => ?_⟩
  rcases hreaches sub' hsub' with hmem | ⟨r, hr⟩
  · rcases List.mem_cons.1 hmem with rfl | hmem
    · exact .inr ⟨t, reaches_subscribe _ hentry (.inl rfl)⟩
    · exact .inl hmem
  · exact .inr ⟨r, reaches_subscribe _ hr.1 (.inr hr)⟩

end Connecting

/-- A step of `handle_connect` leaves what the newer connection has. -/
theorem Succession.sound_connecting (h : Succession n s leaving connecting)
    (hsound : connecting.Sound n s (leaving.client s ≠ none))
    (hp : connecting.next n s = some (connecting', s')) :
    connecting'.Sound n s' (leaving.client s' ≠ none) := by
  rcases h.client_connecting hp with hkept | ⟨-, old, rfl⟩
  · -- The cleanup is as pending as it was.
    rw [hkept]
    cases connecting with
    | lookUp =>
      -- A client is only found under the id of the newer connection.
      simp only [Connecting.next, Option.some_inj] at hp
      split at hp <;> rename_i hfind <;> cases hp
      · rcases hsound with heq | ⟨-, hfree⟩
        · exact .inl (heq ▸ hfind)
        · exact hfree
      · exact hsound.resolve_right fun hfree =>
          Option.some_ne_none _ (hfind.symm.trans hfree.1)
    | deleteClient old =>
      have hid : n.clientId = n.client.clientId := hsound
      have hnone : (s.deleteClientPtr n.clientId).clients n.client.clientId = none := by
        rw [hid]
        exact Function.update_self _ _ _
      simp only [Connecting.next, Option.some_inj] at hp
      split_ifs at hp <;> cases hp
      · exact hnone
      · exact .inl hnone
    | detach old =>
      cases hp
      exact .inl hsound
    | session =>
      simp only [Connecting.next, Option.some_inj] at hp
      split_ifs at hp
      · cases hp
        exact ⟨hsound, Function.update_self _ _ _⟩
      · split at hp <;> rename_i hfind <;> cases hp
        · exact ⟨hsound, hfind⟩
        · exact ⟨hsound, hfind, Bool.noConfusion⟩
    | regSession =>
      cases hp
      exact Connecting.sound_regSession hsound
    | regClient c present =>
      cases hp
      exact Connecting.sound_regClient h.clientId hsound
    | setParam c present =>
      cases hp
      exact Connecting.sound_setParam hsound
    | resume c subs =>
      cases subs with
      | nil => cases hp
      | cons sub subs =>
        cases hp
        exact Connecting.sound_resume h.table hsound
    | subscribe c sub t subs =>
      cases hp
      exact Connecting.sound_subscribe hsound
  · -- The channel of the older client is detached.
    cases hp
    exact .inl hsound

/-- What is lost stays lost. -/
theorem Connecting.Lost.connecting_step (h : connecting.Lost n s)
    (hp : connecting.next n s = some (connecting', s')) : connecting'.Lost n s' := by
  rcases h with ⟨hregistered, hnone⟩ | ⟨hsession, hnone⟩
  · obtain ⟨hregistered', heq⟩ := (connecting_next hp).clients hregistered
    exact .inl ⟨hregistered', heq ▸ hnone⟩
  · obtain ⟨hsession', heq⟩ := (connecting_next hp).sessions hsession
    exact .inr ⟨hsession', heq ▸ hnone⟩

/-! ## Runs -/

variable {p₀ p p' : Pool Connection Handler Shared}
  {l : List (Pool Connection Handler Shared × Connection)}

/-- In a run, the newer connection has what it should have, unless a step of the older
    one destroyed it. -/
theorem succession_run (h : (handlers.interleave p₀).Run l p) {leaving₀ : Leaving}
    (hold : p₀.thread .old = .leaving leaving₀) (hnew : p₀.thread .new = .connecting n .lookUp)
    (hstart : Succession n p₀.shared leaving₀ .lookUp)
    (hsound : Connecting.Sound n p₀.shared (leaving₀.client p₀.shared ≠ none) .lookUp) :
    ∃ leaving connecting, p.thread .old = .leaving leaving ∧
      p.thread .new = .connecting n connecting ∧ Succession n p.shared leaving connecting ∧
      ((∀ y ∈ l, ¬Destroys y.1 y.2) ∧ connecting.Sound n p.shared (leaving.client p.shared ≠ none) ∨
        (∃ y ∈ l, Destroys y.1 y.2) ∧ connecting.Lost n p.shared) := by
  induction h with
  | init => exact ⟨leaving₀, .lookUp, hold, hnew, hstart, .inl ⟨fun _ hy =>
      absurd hy List.not_mem_nil, hsound⟩⟩
  | @step l p p' i hl hst ih =>
    obtain ⟨leaving, connecting, hold, hnew, hs, hcases⟩ := ih
    obtain ⟨h', s', hn, rfl⟩ := Threads.interleave_step hst
    simp only [List.forall_mem_append, List.forall_mem_singleton]
    have hbefore : (∃ y ∈ l, Destroys y.1 y.2) → ∃ y ∈ l ++ [(p, i)], Destroys y.1 y.2 := by
      rintro ⟨y, hy, hd⟩
      exact ⟨y, List.mem_append_left _ hy, hd⟩
    cases i with
    | old =>
      rw [hold] at hn
      obtain ⟨⟨leaving', s''⟩, hp, heq⟩ := Option.map_eq_some_iff.1 hn
      cases heq
      refine ⟨leaving', connecting, rfl, hnew, hs.leaving_step hp, ?_⟩
      have hiff : Destroys p .old ↔ leaving.Destroys connecting :=
        (destroys_iff hold hnew .old).trans (and_iff_right rfl)
      rw [hiff]
      rcases hcases with ⟨hnot, hsound⟩ | ⟨hd, hlost⟩
      · -- Sound before: this step is the first to destroy anything, if it does.
        by_cases hd : leaving.Destroys connecting
        · exact .inr ⟨⟨_, List.mem_append_right _ (List.mem_singleton_self _), hiff.2 hd⟩,
            hs.lost_of_destroys hp hd⟩
        · exact .inl ⟨⟨hnot, hd⟩, hs.sound_leaving hsound hp hd⟩
      · exact .inr ⟨hbefore hd, hlost.leaving_step hp⟩
    | new =>
      rw [hnew] at hn
      obtain ⟨⟨connecting', s''⟩, hp, heq⟩ := Option.map_eq_some_iff.1 hn
      cases heq
      refine ⟨leaving, connecting', hold, rfl, hs.connecting_step hp, ?_⟩
      -- A step of the newer connection destroys nothing, so what held goes on.
      have hnot : ¬Destroys p .new := fun hd => Connection.noConfusion hd.1
      rcases hcases with ⟨hnots, hsound⟩ | ⟨hd, hlost⟩
      · exact .inl ⟨⟨hnots, hnot⟩, hs.sound_connecting hsound hp⟩
      · exact .inr ⟨hbefore hd, hlost.connecting_step hp⟩

/-- When both handlers are done, the newer client is registered, its session is stored,
    and it is in the topics of the subscriptions of the session, exactly when no step of
    the older connection destroyed any of it. -/
theorem succeeded_iff {k : ChannelId} {id : UInt16}
    (hold : p₀.thread .old = .leaving (.disconnect k) ∨
      p₀.thread .old = .leaving (.channelDisconnected k id))
    (hnew : p₀.thread .new = .connecting n .lookUp) (hk : k ≠ n.channelId)
    (hclient : p₀.shared.param k = some o) (hid : o.clientId = n.client.clientId)
    (hnewId : n.clientId = n.client.clientId ∨ p₀.shared.clients n.clientId = none)
    (htable : ∀ b f r, p₀.shared.topics b f = some r → r < p₀.shared.nextTopic)
    (h : (handlers.interleave p₀).Run l p) (hdone : p.thread .old = .leaving .done)
    (haccepted : p.thread .new = .connecting n (.resume c [])) :
    (∃ r, c = n.client.setSessionPtr r) ∧
      (p.shared.Succeeded c ↔ ∀ y ∈ l, ¬Destroys y.1 y.2) := by
  obtain ⟨leaving₀, hold, hchannel, hclient⟩ : ∃ leaving₀, p₀.thread .old = .leaving leaving₀ ∧
      leaving₀.channel = some k ∧ leaving₀.client p₀.shared = some o := by
    rcases hold with hold | hold <;> exact ⟨_, hold, rfl, hclient⟩
  have hpending : leaving₀.client p₀.shared ≠ none := hclient ▸ Option.some_ne_none o
  obtain ⟨leaving, connecting, hold', hnew', hs, hcases⟩ := succession_run h hold hnew
    ⟨fun hr => htable _ _ _ hr, fun hk' => Option.some.inj (hchannel.symm.trans hk') ▸ hk,
      fun ho => Option.some.inj (hclient.symm.trans ho) ▸ hid, ⟨n.client.session, rfl⟩⟩
    (hnewId.imp_right fun hnone => ⟨hnone, .inr hpending⟩)
  cases hdone.symm.trans hold'
  cases haccepted.symm.trans hnew'
  have hx : c.clientId = n.client.clientId := hs.clientId
  refine ⟨hs.made, ?_⟩
  rcases hcases with ⟨hnot, hsound⟩ | ⟨⟨y, hy, hd⟩, hlost⟩
  · -- The cleanup is done, and pending no more.
    obtain ⟨hregistered, hsession, hreaches⟩ := hsound.resolve_left fun hp => hp rfl
    exact iff_of_true ⟨hx ▸ hregistered, hx ▸ hsession, fun sub hsub =>
      (hreaches sub hsub).resolve_left List.not_mem_nil⟩ hnot
  · -- What was destroyed is still missing.
    refine iff_of_false (fun hsucceeded => ?_) fun hnot => hnot y hy hd
    rcases hlost with ⟨-, hnone⟩ | ⟨-, hnone⟩
    · exact Option.some_ne_none _ (hsucceeded.client.symm.trans (hx ▸ hnone))
    · exact Option.some_ne_none _ (hsucceeded.session.symm.trans (hx ▸ hnone))

/-! ## Runs with given handlers -/

/-- The cleanup of a connection, and an accepted CONNECT. -/
def cleanupAndConnect (w : World) (leaving : Leaving) (j : Joining) :
    Pool Connection Handler Shared where
  shared := w.share
  thread
    | .old => .leaving leaving
    | .new => .connecting (j.newcomer w) .lookUp

/-- A client is connected, and there is another channel. -/
def connectedActions : List Action :=
  [.accept 1, .read 1 (connectBytes 0x02 [0x61] []), .accept 2]

/-- The client connects on the other channel. -/
def connectAgain : Event := (Action.read 2 (connectBytes 0x02 [0x61] [])).event

/-- The client of `connectAgain`, with its session. -/
def World.newClient (w : World) (j : Joining) : MqttClient :=
  (j.client w).setSessionPtr w.nextSession

/-- The channel of the older client is gone, and the client is cleaned up before the newer
    one gets its session. -/
theorem succeeded_after_cleanup : ∃ (w : World) (j : Joining) (l : _)
    (p : Pool Connection Handler Shared), (broker mqttdCfg).Reachable w ∧
      w.joining mqttdCfg connectAgain = some j ∧
      (handlers.interleave (cleanupAndConnect w (.channelDisconnected 1 1) j)).Run l p ∧
      p.thread .old = .leaving .done ∧ p.shared.Succeeded (w.newClient j) := by
  have hruns : runs (fun _ _ => true) connectedActions (fun w =>
      (w.param 1).any fun o => (w.joining mqttdCfg connectAgain).any fun j =>
        (j.channelId = 2 && o.clientId = j.packet.clientId && j.clientId = j.packet.clientId) &&
        ((handlers.interleave (cleanupAndConnect w (.channelDisconnected 1 1) j)).exec
          (fun p i => !decide (Destroys p i))
          [.old, .new, .old, .new, .old, .new, .new, .new, .new, .new]).any fun p =>
            p.thread .old = .leaving .done &&
              p.thread .new = .connecting (j.newcomer w) (.resume (w.newClient j) [])) = true := by
    decide +kernel
  obtain ⟨l₀, w, hl₀, -, hp⟩ := exists_run hruns
  obtain ⟨o, ho, hp⟩ := Option.any_eq_true _ _ |>.1 hp
  obtain ⟨j, hj, hp⟩ := Option.any_eq_true _ _ |>.1 hp
  simp only [Bool.and_eq_true, decide_eq_true_eq] at hp
  obtain ⟨⟨⟨hk, hid⟩, hnewId⟩, hp⟩ := hp
  obtain ⟨p, hexec, hp⟩ := Option.any_eq_true _ _ |>.1 hp
  simp only [Bool.and_eq_true, decide_eq_true_eq] at hp
  obtain ⟨l, hl, hok⟩ := Machine.exec_run hexec
  refine ⟨w, j, l, p, ⟨l₀, hl₀⟩, hj, hl, hp.1, ?_⟩
  refine (succeeded_iff (k := 1) (.inr rfl) rfl ?_ ho hid (.inl hnewId)
    (fun _ _ _ => (shows_share w).table) hl hp.1 hp.2).2.2 fun y hy => by simpa using hok y hy
  exact fun h1 => absurd (h1.trans hk) (by decide)

/-- The older connection reads its client, the newer one displaces it and is registered, and
    then the cleanup deletes the newer client. -/
theorem successor_destroyed : ¬∀ (w : World) (e : Event) (j : Joining) (o c : MqttClient) (l : _)
    (p : Pool Connection Handler Shared), (broker mqttdCfg).Reachable w →
      w.joining mqttdCfg e = some j → w.param o.channelId = some o →
      o.channelId ≠ j.channelId → o.clientId = j.packet.clientId →
      (handlers.interleave (cleanupAndConnect w (.disconnect o.channelId) j)).Run l p →
      p.thread .old = .leaving .done →
      p.thread .new = .connecting (j.newcomer w) (.resume c []) → p.shared.Succeeded c := by
  intro h
  have hruns : runs (fun _ _ => true) connectedActions (fun w =>
      (w.param 1).any fun o => (w.joining mqttdCfg connectAgain).any fun j =>
        (o.channelId = 1 && j.channelId = 2 && o.clientId = j.packet.clientId) &&
        ((handlers.interleave (cleanupAndConnect w (.disconnect o.channelId) j)).exec
          (fun _ _ => true)
          [.old, .new, .new, .new, .new, .new, .new, .new, .old, .old, .old]).any fun p =>
            p.thread .old = .leaving .done &&
              p.thread .new = .connecting (j.newcomer w) (.resume (w.newClient j) []) &&
                (p.shared.clients (w.newClient j).clientId).isNone) = true := by
    decide +kernel
  obtain ⟨l₀, w, hl₀, -, hp⟩ := exists_run hruns
  obtain ⟨o, ho, hp⟩ := Option.any_eq_true _ _ |>.1 hp
  obtain ⟨j, hj, hp⟩ := Option.any_eq_true _ _ |>.1 hp
  simp only [Bool.and_eq_true, decide_eq_true_eq] at hp
  obtain ⟨⟨⟨hk, hk'⟩, hid⟩, hp⟩ := hp
  obtain ⟨p, hexec, hp⟩ := Option.any_eq_true _ _ |>.1 hp
  simp only [Bool.and_eq_true, decide_eq_true_eq] at hp
  obtain ⟨⟨hdone, haccepted⟩, hnone⟩ := hp
  obtain ⟨l, hl, -⟩ := Machine.exec_run hexec
  have hsucceeded := h w connectAgain j o _ l p ⟨l₀, hl₀⟩ hj (hk ▸ ho)
    (by rw [hk, hk']; decide) hid hl hdone haccepted
  exact Option.some_ne_none _ (hsucceeded.client.symm.trans (Option.isNone_iff_eq_none.1 hnone))

end MqttBroker
