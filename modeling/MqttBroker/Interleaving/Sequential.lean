import MqttBroker.Interleaving.Handlers

/-!
# Handlers one at a time

The handlers as threads do what the handlers of the broker do: the steps of a
handler, with none of another handler between them, lead from a shared state that
shows a state of the broker to one that shows the state after the handler.

* `Shared.Shows` is kept by each operation on the tables.
* `subscribing_alone`, `unsubscribing_alone`, `disconnect_alone`,
  `channelDisconnected_alone`, `connecting_alone`: the handlers.
-/

namespace MqttBroker

open Prog

variable {s s' : Shared} {w w' : World} {c : MqttClient}

/-! ## The operations -/

namespace Shared.Shows

/-- What is shown of a state are its tables. -/
theorem of_tables (h : s.Shows w) (hparam : w'.param = w.param)
    (hclients : w'.getClientPtr = w.getClientPtr) (hsessions : w'.sessions = w.sessions)
    (hsubscriptions : ∀ r, (w'.session r).subscriptions = (w.session r).subscriptions)
    (hnext : w'.nextSession = w.nextSession)
    (htopics : ∀ b f, w'.topicAt (.entry b f) = w.topicAt (.entry b f))
    (htrash : w'.trashTopic = w.trashTopic) : s.Shows w' where
  param := h.param.trans hparam.symm
  clients := h.clients.trans hclients.symm
  sessions := h.sessions.trans hsessions.symm
  subscriptions r := (h.subscriptions r).trans (hsubscriptions r).symm
  nextSession := h.nextSession.trans hnext.symm
  topics b f := (h.topics b f).trans (htopics b f).symm
  trashTopic := h.trashTopic.trans htrash.symm
  table := h.table
  apart := h.apart

/-- Topics, and how they are entered, are changed alike. -/
theorem of_topics (h : s.Shows w) (hs : s' = { s with
      topics := s'.topics, topic := s'.topic, nextTopic := s'.nextTopic })
    (hw : w' = { w with topics := w'.topics })
    (htopics : ∀ b f, (s'.topics b f).map s'.topic = w'.topicAt (.entry b f))
    (htable : ∀ {b f r}, s'.topics b f = some r → r < s'.nextTopic)
    (hapart : ∀ {b b' f g r}, s'.topics b f = some r → s'.topics b' g = some r → b' = b ∧ g = f) :
    s'.Shows w' where
  param := by
    rw [hs, hw]
    exact h.param
  clients := by
    rw [hs, hw]
    exact h.clients
  sessions := by
    rw [hs, hw]
    exact h.sessions
  subscriptions := by
    rw [hs, hw]
    exact h.subscriptions
  nextSession := by
    rw [hs, hw]
    exact h.nextSession
  topics := htopics
  trashTopic := by
    rw [hs, hw]
    exact h.trashTopic
  table := htable
  apart := hapart

theorem setParam_none (h : s.Shows w) (k : ChannelId) :
    (s.setParam k none).Shows (w.setParam k none) :=
  { h with param := by rw [World.param_setParam_none, ← h.param]; rfl }

theorem setParam_some (h : s.Shows w) {k : ChannelId} (hk : (w.contexts k).isSome) (c : MqttClient) :
    (s.setParam k (some c)).Shows (w.setParam k (some c)) :=
  { h with param := by rw [World.param_setParam_some _ _ _ hk, ← h.param]; rfl }

theorem deleteClientPtr (h : s.Shows w) (x : Bytes) :
    (s.deleteClientPtr x).Shows (w.deleteClientPtr x) :=
  { h with
    clients := by
      funext y
      have hy : (w.deleteClientPtr x).getClientPtr y = if y = x then none else w.getClientPtr y :=
        Keyed.find_erase _ _ _
      rw [hy, ← h.clients]
      exact Function.update_apply _ _ _ _ }

theorem regClientPtr (h : s.Shows w) (c : MqttClient) :
    (s.regClientPtr c).Shows (w.regClientPtr c) := by
  rw [Shared.regClientPtr, World.regClientPtr]
  cases hx : s.clients c.clientId with
  | some old =>
    rw [h.clients] at hx
    rw [hx]
    exact h
  | none =>
    rw [h.clients] at hx
    rw [hx]
    refine { h with clients := ?_ }
    funext y
    have hy : ({ w with clients := w.clients.put c } : World).getClientPtr y =
        if y = c.clientId then some c else w.getClientPtr y := Keyed.find_put _ _ _
    rw [hy, ← h.clients]
    exact Function.update_apply _ _ _ _

theorem deleteSessionPtr (h : s.Shows w) (x : Bytes) :
    (s.deleteSessionPtr x).Shows (w.deleteSessionPtr x) :=
  { h with sessions := by rw [Shared.deleteSessionPtr, World.deleteSessionPtr, h.sessions] }

/-- A new session is stored where there is none. -/
theorem regSessionPtr (h : s.Shows w) {x : Bytes} (hx : s.sessions x = none) :
    (s.regSessionPtr x).Shows (w.storeSession x) :=
  { h with
    sessions := by
      simp only [Shared.regSessionPtr, World.storeSession, hx]
      rw [h.sessions, h.nextSession]
    subscriptions := fun r => by
      simp only [Shared.regSessionPtr, World.storeSession, Function.update_apply, h.nextSession]
      split_ifs
      · rfl
      · exact h.subscriptions r
    nextSession := congrArg (· + 1) h.nextSession }

theorem modifySubscriptions (h : s.Shows w) (r : SessionRef)
    {f : Keyed Subscription.topicFilter → Keyed Subscription.topicFilter} {g : Session → Session}
    (hg : (g (w.session r)).subscriptions = f (w.session r).subscriptions) :
    (s.modifySubscriptions r f).Shows (w.modifySession r g) :=
  { h with
    subscriptions := fun r' => by
      simp only [Shared.modifySubscriptions, World.modifySession, Function.update_apply]
      split_ifs
      · rw [hg, h.subscriptions]
      · exact h.subscriptions r' }

theorem modifyTrash (h : s.Shows w) (u : Topic → Topic) :
    Shared.Shows { s with trashTopic := u s.trashTopic } (w.modifyTopic .trash u) :=
  { h with trashTopic := congrArg u h.trashTopic }

/-- The topic at the address that a filter is entered with. -/
theorem topicAt (h : s.Shows w) {b : Bool} {f : Bytes} {r : TopicRef}
    (hr : s.topics b f = some r) : w.topicAt (.entry b f) = some (s.topic r) := by
  rw [← h.topics, hr, Option.map_some]

theorem modifyTopic (h : s.Shows w) {b : Bool} {f : Bytes} {r : TopicRef}
    (hr : s.topics b f = some r) {u : Topic → Topic} (hu : ∀ t, (u t).topicFilter = t.topicFilter) :
    (s.modifyTopic r u).Shows (w.modifyTopic (.entry b f) u) := by
  refine h.of_topics rfl (World.modifyTopic_entry_eq w b f u) (fun b' g => ?_) h.table h.apart
  rw [World.topicAt_modifyTopic w hu, h.topicAt hr]
  show (s.topics b' g).map _ = _
  simp only [TopicPtr.entry.injEq, Option.map_some]
  split_ifs with hp
  · obtain ⟨rfl, rfl⟩ := hp
    rw [hr, Option.map_some, Shared.topic_modifyTopic, if_pos rfl]
  · -- Another filter is entered with another address.
    rw [← h.topics]
    refine Option.map_congr fun r' hr' => ?_
    rw [Shared.topic_modifyTopic, if_neg]
    rintro rfl
    obtain ⟨rfl, rfl⟩ := h.apart hr hr'
    exact hp ⟨rfl, rfl⟩

theorem eraseTopic (h : s.Shows w) (f : Bytes) (b : Bool) :
    (s.eraseTopic f b).Shows (w.eraseTopic b f) := by
  have hsome : ∀ {b' g r}, (s.eraseTopic f b).topics b' g = some r → s.topics b' g = some r := by
    intro b' g r hr
    simp only [Shared.eraseTopic, Shared.setEntry] at hr
    split_ifs at hr
    exact hr
  refine h.of_topics rfl rfl (fun b' g => ?_) (fun hr => h.table (hsome hr))
    fun hr hr' => h.apart (hsome hr) (hsome hr')
  rw [World.topicAt_eraseTopic, ← h.topics]
  simp only [Shared.eraseTopic, Shared.setEntry]
  split_ifs <;> rfl

theorem getTopicPtrToSubscribe (h : s.Shows w) (f : Bytes) (b : Bool) :
    (s.getTopicPtrToSubscribe f b).2.Shows (w.getTopicPtrToSubscribe f b) := by
  cases hr : s.topics b f with
  | some r =>
    rw [Shared.getTopicPtrToSubscribe, World.getTopicPtrToSubscribe, hr, h.topicAt hr]
    exact h
  | none =>
    have hnone : w.topicAt (.entry b f) = none := by rw [← h.topics, hr, Option.map_none]
    have hshared : (s.getTopicPtrToSubscribe f b).2 =
        { (s.modifyTopic s.nextTopic fun _ => Topic.new f).setEntry f b (some s.nextTopic) with
          nextTopic := s.nextTopic + 1 } := by rw [Shared.getTopicPtrToSubscribe, hr]
    have hworld : w.getTopicPtrToSubscribe f b = w.setTopic (.entry b f) (Topic.new f) := by
      rw [World.getTopicPtrToSubscribe, hnone]
    rw [hshared, hworld]
    have htopics : ∀ {b' g r}, (s.setEntry f b (some s.nextTopic)).topics b' g = some r →
        (b' = b ∧ g = f) ∧ r = s.nextTopic ∨ ¬(b' = b ∧ g = f) ∧ s.topics b' g = some r := by
      intro b' g r hr'
      simp only [Shared.setEntry] at hr'
      split_ifs at hr' with hp
      · exact .inl ⟨hp, (Option.some.inj hr').symm⟩
      · exact .inr ⟨hp, hr'⟩
    -- The new topic is at an address of its own.
    refine h.of_topics rfl rfl (fun b' g => ?_) (fun {b' g r} hr' => ?_) fun {b₁ b₂ g₁ g₂ r} h₁ h₂ => ?_
    · have hfilter : (Topic.new f).topicFilter = f := rfl
      rw [World.topicAt_setTopic w hfilter, ← h.topics]
      simp only [Shared.setEntry, Shared.modifyTopic]
      split_ifs
      · rw [Option.map_some, Function.update_self]
      · exact Option.map_congr fun r' hr' =>
          Function.update_of_ne (Nat.ne_of_lt (h.table hr')) _ _
    · rcases htopics hr' with ⟨-, rfl⟩ | ⟨-, hr'⟩
      · exact Nat.lt_succ_self _
      · exact Nat.lt_succ_of_lt (h.table hr')
    · rcases htopics h₁ with ⟨⟨rfl, rfl⟩, rfl⟩ | ⟨-, hr₁⟩ <;>
        rcases htopics h₂ with ⟨⟨rfl, rfl⟩, heq⟩ | ⟨-, hr₂⟩
      · exact ⟨rfl, rfl⟩
      · exact absurd (h.table hr₂) (Nat.lt_irrefl _)
      · exact absurd (heq ▸ h.table hr₁) (Nat.lt_irrefl _)
      · exact h.apart hr₁ hr₂

/-- An iteration of `unsubscribe_all`. -/
theorem unsubscribe (h : s.Shows w) (c : MqttClient) (sub : Subscription) :
    (s.unsubscribe c sub).Shows (w.unsubscribe c sub.topicFilter sub.isWild) := by
  rw [Shared.unsubscribe, World.unsubscribe]
  cases hr : s.topics sub.isWild sub.topicFilter with
  | none =>
    have hnone : w.topicAt (.entry sub.isWild sub.topicFilter) = none := by
      rw [← h.topics, hr, Option.map_none]
    rw [hnone]
    exact h
  | some r =>
    rw [h.topicAt hr]
    have hmodify := h.modifyTopic hr (u := fun t => t.unsubscribe c) fun _ => rfl
    rw [World.modifyTopic, h.topicAt hr] at hmodify
    simp only [Shared.topic_modifyTopic, if_true]
    split_ifs
    · refine (hmodify.eraseTopic sub.topicFilter sub.isWild).of_tables rfl rfl rfl (fun _ => rfl) rfl
        (fun b f => ?_) rfl
      have hfilter : (s.topic r).topicFilter = sub.topicFilter :=
        World.topicFilter_of_topicAt (h.topicAt hr)
      have hfilter : ((s.topic r).unsubscribe c).topicFilter = sub.topicFilter := hfilter
      rw [World.topicAt_eraseTopic, World.topicAt_eraseTopic, World.topicAt_setTopic w hfilter]
      split_ifs <;> rfl
    · exact hmodify

end Shared.Shows

/-- What a handler writes and files in the sessions is not shown. -/
def Showing : Frame World where
  rel w w' := ∀ s : Shared, s.Shows w → s.Shows w'
  refl _ _ h := h
  trans h₁ h₂ s h := h₂ s (h₁ s h)

/-- Sessions are changed, but not their subscriptions. -/
theorem showing_modifySession (w : World) (r : SessionRef) {f : Session → Session}
    (hf : (f (w.session r)).subscriptions = (w.session r).subscriptions) :
    Showing.rel w (w.modifySession r f) := by
  refine fun s h => h.of_tables rfl rfl rfl (fun r' => ?_) rfl (fun _ _ => rfl) rfl
  rw [World.session_modifySession]
  split_ifs with hr
  · rw [hf, hr]
  · rfl

theorem showing_record (w : World) (e : Effect) : Showing.rel w (w.record e) :=
  fun _ h => h.of_tables rfl rfl rfl (fun _ => rfl) rfl (fun _ _ => rfl) rfl

theorem showing_publish (client : MqttClient) (maxQos : Nat) (retained : Bool)
    (packet : MqttPublish) : Within Showing (client.publish maxQos retained packet) := by
  refine within_publish (fun w next => showing_modifySession w _ rfl) (fun w publish => ?_)
    (fun w publish _ => showing_record w _) maxQos retained
  refine Showing.trans (showing_record w _) (showing_modifySession _ _ ?_)
  split_ifs <;> rfl

theorem showing_publishRetainedMessage (it : Iteration) (k : ChannelId) (fs gs : List Bytes) :
    Within Showing (publishRetainedMessage it k fs gs) :=
  within_publishRetainedMessage it k fs gs fun _ _ _ _ _ _ => .inl fun client maxQos =>
    showing_publish client maxQos true _

/-! ## SUBSCRIBE and UNSUBSCRIBE -/

/-- A client that subscribes, in the tables. -/
theorem Shared.Shows.subscribe (h : s.Shows w) (c : MqttClient) (f : Bytes) (q : Nat) (b : Bool) :
    ((s.getTopicPtrToSubscribe f b).2.modifyTopic (s.getTopicPtrToSubscribe f b).1
      fun t => t.subscribe c q).Shows (w.subscribe c f q b) := by
  have hentry : (s.getTopicPtrToSubscribe f b).2.topics b f =
      some (s.getTopicPtrToSubscribe f b).1 :=
    (s.topics_getTopicPtrToSubscribe f f b b).trans (if_pos ⟨rfl, rfl⟩)
  exact (h.getTopicPtrToSubscribe f b).modifyTopic hentry fun _ => rfl

/-- A return code is added to the SUBACK, and nothing else is done. -/
theorem eq_of_code {g g' : Granting} {returnCode : Nat}
    (h : g.code returnCode w = (.value g', w')) : w' = w := by
  obtain ⟨suback, t, hsuback, hpure⟩ := bind_eq_value h
  cases hpure
  cases hr : g.suback.addReturnCode returnCode with
  | error what =>
    rw [hr] at hsuback
    cases hsuback
  | ok suback =>
    rw [hr] at hsuback
    cases hsuback
    rfl

/-- The loop body of `handle_subscribe`. -/
theorem subscribeEntry_alone (hs : s.Shows w) (e : SubscribeEntry) (es : List SubscribeEntry)
    (granted : List Obtained) {g g' : Granting} (h : subscribeEntry c g e w = (.value g', w')) :
    ∃ granted' s', handlers.Alone (.subscribing c (.entry (e :: es) granted)) s
      (.subscribing c (.entry es granted')) s' ∧ s'.Shows w' := by
  rw [subscribeEntry] at h
  by_cases hq : e.maxQos < 3
  · by_cases hsys : e.topicFilter.head? = some dollar
    · -- A `$`-topic: only `$sys/trash` is subscribed to, by an admin.
      refine ⟨granted, if c.admin = true ∧ e.topicFilter = sysTrash then
        { s with trashTopic := s.trashTopic.subscribe c 2 } else s, .step ?_ (.refl _ _), ?_⟩
      · simp only [handlers, Subscribing.next, if_pos hq, if_pos hsys, Option.map_some]
        split_ifs <;> rfl
      · rw [if_pos hq, if_pos hsys] at h
        split_ifs at h with hadmin htrash
        · rw [modify_bind_apply] at h
          rw [if_pos ⟨hadmin, htrash⟩, eq_of_code h]
          exact hs.modifyTrash fun t => t.subscribe c 2
        · rw [if_neg fun ht => htrash ht.2, eq_of_code h]
          exact hs
        · rw [if_neg fun ht => hadmin ht.1, eq_of_code h]
          exact hs
    · -- Two atomic steps: the topic is obtained, and then subscribed to.
      rw [if_pos hq, if_neg hsys, modify_bind_apply] at h
      have hw : w' = (w.subscribe c e.topicFilter e.maxQos e.isWild).modifySession c.session
          fun s => s.addSubscription e.topicFilter e.maxQos e.isWild := by
        split_ifs at h <;> exact eq_of_code h
      have hget : handlers.next (.subscribing c (.entry (e :: es) granted)) s =
          some (.subscribing c (.subscribe e (s.getTopicPtrToSubscribe e.topicFilter e.isWild).1 es
            granted), (s.getTopicPtrToSubscribe e.topicFilter e.isWild).2) := by
        simp only [handlers, Subscribing.next, if_pos hq, if_neg hsys, Option.map_some]
      refine ⟨_, _, .step hget (.step rfl (.refl _ _)), ?_⟩
      rw [hw]
      exact (hs.subscribe c e.topicFilter e.maxQos e.isWild).modifySubscriptions c.session
        (f := fun subs => subs.put ⟨e.topicFilter, e.maxQos, e.isWild⟩)
        (g := fun s => s.addSubscription e.topicFilter e.maxQos e.isWild) rfl
  · rw [if_neg hq] at h
    refine ⟨granted, s, .step ?_ (.refl _ _), eq_of_code h ▸ hs⟩
    simp only [handlers, Subscribing.next, if_neg hq, Option.map_some]

/-- `handle_subscribe`. -/
theorem subscribing_alone (hs : s.Shows w) {it : Iteration} {k : ChannelId}
    {packet : MqttSubscribe} (hc : w.param k = some c)
    (h : handleSubscribe it k packet w = (.value (), w')) : ∃ granted s',
      handlers.Alone (.subscribing c (.entry packet.topicFilters [])) s
        (.subscribing c (.entry [] granted)) s' ∧ s'.Shows w' := by
  have hloop : ∀ (es : List SubscribeEntry) (granted : List Obtained) (g g' : Granting)
      (s : Shared) (w w' : World), s.Shows w → foldEach es g (subscribeEntry c) w = (.value g', w') →
      ∃ granted' s', handlers.Alone (.subscribing c (.entry es granted)) s
        (.subscribing c (.entry [] granted')) s' ∧ s'.Shows w' := by
    intro es
    induction es with
    | nil =>
      intro granted g g' s w w' hs h
      cases h
      exact ⟨granted, s, .refl _ _, hs⟩
    | cons e es ih =>
      intro granted g g' s w w' hs h
      obtain ⟨g₁, w₁, he, hes⟩ := bind_eq_value h
      obtain ⟨granted₁, s₁, ha₁, hs₁⟩ := subscribeEntry_alone hs e es granted he
      obtain ⟨granted₂, s₂, ha₂, hs₂⟩ := ih granted₁ g₁ g' s₁ w₁ w' hs₁ hes
      exact ⟨granted₂, s₂, ha₁.trans ha₂, hs₂⟩
  rw [handleSubscribe, agent_bind_apply hc] at h
  obtain ⟨g, v, hg, h⟩ := bind_eq_value h
  obtain ⟨granted, s', ha, hs'⟩ := hloop _ [] _ g s _ v (showing_record w _ s hs) hg
  refine ⟨granted, s', ha, ?_⟩
  -- The SUBACK and the retained messages are not shown.
  obtain ⟨_, u, hwrite, hretained⟩ := bind_eq_value h
  cases hwrite
  have hshow := showing_publishRetainedMessage it k g.subscribedTopics g.subscribedWildTopics
    (v.write k (.suback g.suback)) s' (showing_record v _ s' hs')
  rwa [hretained] at hshow

/-- The loop body of `handle_unsubscribe`. -/
theorem unsubscribeEntry_alone (hs : s.Shows w) (e : UnsubscribeEntry)
    (es : List UnsubscribeEntry) : ∃ s',
      handlers.Alone (.unsubscribing c (.entry (e :: es))) s (.unsubscribing c (.entry es)) s' ∧
        s'.Shows (w.unsubscribeEntry c e) := by
  rw [World.unsubscribeEntry]
  cases hr : s.topics e.isWild e.topicFilter with
  | none =>
    have hnone : w.topicAt (.entry e.isWild e.topicFilter) = none := by
      rw [← hs.topics, hr, Option.map_none]
    rw [hnone]
    refine ⟨s, .step ?_ (.refl _ _), hs⟩
    simp only [handlers, Unsubscribing.next, hr, Option.map_some]
  | some t =>
    rw [hs.topicAt hr]
    have hfind : handlers.next (.unsubscribing c (.entry (e :: es))) s =
        some (.unsubscribing c (.unsubscribe e t es), s) := by
      simp only [handlers, Unsubscribing.next, hr, Option.map_some]
    have hshow := (hs.unsubscribe c ⟨e.topicFilter, 0, e.isWild⟩).modifySubscriptions c.session
      (f := fun subs => subs.erase e.topicFilter)
      (g := fun s => s.deleteSubscription e.topicFilter) rfl
    -- The state in which `topic::empty` is called, but for the session.
    let v := s.modifyTopic t fun topic => topic.unsubscribe c
    have hunsubscribe : s.unsubscribe c ⟨e.topicFilter, 0, e.isWild⟩ =
        if (v.topic t).empty then v.eraseTopic e.topicFilter e.isWild else v := by
      rw [Shared.unsubscribe, hr]
    have hempty : handlers.next (.unsubscribing c (.empty e t es))
        (v.modifySubscriptions c.session fun subs => subs.erase e.topicFilter) =
          some (.unsubscribing c (if (v.topic t).empty then .erase e es else .entry es),
            v.modifySubscriptions c.session fun subs => subs.erase e.topicFilter) := rfl
    rw [hunsubscribe] at hshow
    by_cases he : (v.topic t).empty = true
    · rw [if_pos he] at hempty hshow
      exact ⟨_, .step hfind (.step rfl (.step hempty (.step rfl (.refl _ _)))), hshow⟩
    · rw [if_neg he] at hempty hshow
      exact ⟨_, .step hfind (.step rfl (.step hempty (.refl _ _))), hshow⟩

/-- `handle_unsubscribe`. -/
theorem unsubscribing_alone (hs : s.Shows w) {k : ChannelId} {packet : MqttUnsubscribe}
    (hc : w.param k = some c) (h : handleUnsubscribe k packet w = (.value (), w')) : ∃ s',
      handlers.Alone (.unsubscribing c (.entry packet.topicFilters)) s
        (.unsubscribing c (.entry [])) s' ∧ s'.Shows w' := by
  have hloop : ∀ (es : List UnsubscribeEntry) (s : Shared) (w : World), s.Shows w → ∃ s',
      handlers.Alone (.unsubscribing c (.entry es)) s (.unsubscribing c (.entry [])) s' ∧
        s'.Shows (es.foldl (fun w e => w.unsubscribeEntry c e) w) := by
    intro es
    induction es with
    | nil => exact fun s w hs => ⟨s, .refl _ _, hs⟩
    | cons e es ih =>
      intro s w hs
      obtain ⟨s₁, ha₁, hs₁⟩ := unsubscribeEntry_alone hs e es
      obtain ⟨s₂, ha₂, hs₂⟩ := ih s₁ _ hs₁
      exact ⟨s₂, ha₁.trans ha₂, hs₂⟩
  rw [handleUnsubscribe, agent_bind_apply hc, modify_bind_apply] at h
  cases h
  obtain ⟨s', ha, hs'⟩ := hloop packet.topicFilters s _ (showing_record w _ s hs)
  exact ⟨s', ha, showing_record _ _ s' hs'⟩

/-! ## The end of a connection -/

/-- `unsubscribe_all`, and what is deleted after it. -/
theorem remove_alone (hs : s.Shows w) (c : MqttClient) : ∃ s',
    handlers.Alone (.leaving (.unsubscribeAll c (s.subscriptions c.session).elems)) s
      (.leaving .done) s' ∧ s'.Shows (w.remove c) := by
  have hloop : ∀ (subs : List Subscription) (s : Shared) (w : World), s.Shows w → ∃ s',
      handlers.Alone (.leaving (.unsubscribeAll c subs)) s (.leaving (.unsubscribeAll c [])) s' ∧
        s'.Shows (subs.foldl (fun w sub => w.unsubscribe c sub.topicFilter sub.isWild) w) := by
    intro subs
    induction subs with
    | nil => exact fun s w hs => ⟨s, .refl _ _, hs⟩
    | cons sub subs ih =>
      intro s w hs
      obtain ⟨s', ha, hs'⟩ := ih _ _ (hs.unsubscribe c sub)
      exact ⟨s', .step rfl ha, hs'⟩
  obtain ⟨s', ha, hs'⟩ := hloop (s.subscriptions c.session).elems s w hs
  rw [hs.subscriptions] at hs'
  refine ⟨_, ha.trans (.step rfl (.step rfl (.refl _ _))), ?_⟩
  rw [World.remove]
  refine Shared.Shows.deleteClientPtr ?_ c.clientId
  by_cases hclean : c.cleanSession = true
  · rw [if_pos hclean, if_pos hclean]
    exact hs'.deleteSessionPtr c.clientId
  · rw [if_neg hclean, if_neg hclean]
    exact hs'

/-- `handle_disconnect`. -/
theorem disconnect_alone (hs : s.Shows w) {k : ChannelId} {packet : MqttDisconnect}
    (h : handleDisconnect k packet w = (.value (), w')) : ∃ s',
      handlers.Alone (.leaving (.disconnect k)) s (.leaving .done) s' ∧ s'.Shows w' := by
  cases hc : w.param k with
  | none =>
    rw [handleDisconnect, agent_bind_apply_none hc] at h
    cases h
  | some c =>
    rw [handleDisconnect, agent_bind_apply hc] at h
    cases h
    have hshow := (showing_record w (.handled c (.disconnect packet)) s hs).setParam_none k
    obtain ⟨s', ha, hs'⟩ := remove_alone hshow c
    have hfind : handlers.next (.leaving (.disconnect k)) s = some (.leaving (.detach k c), s) := by
      rw [← hs.param] at hc
      simp only [handlers, Leaving.next, hc, Option.map_some]
    exact ⟨s', .step hfind (.step rfl ha), hs'⟩

/-- What is caught leaves the state it was thrown in. -/
theorem state_of_caught {m : Server Unit}
    (h : tryCatch m (fun _ => pure ()) w = (.value (), w')) : (m w).2 = w' ∧ (m w).1 ≠ .stuck := by
  rw [tryCatch_apply] at h
  rcases hm : m w with ⟨⟨⟩ | what | _, v⟩ <;> rw [hm] at h <;> cases h
  · exact ⟨rfl, fun hstuck => by cases hstuck⟩
  · exact ⟨rfl, fun hstuck => by cases hstuck⟩

theorem showing_noteRetain (w : World) (retain : Bool) (topicName payload : Bytes) :
    Showing.rel w (w.noteRetain retain topicName payload) := by
  rw [World.noteRetain]
  split_ifs
  · exact showing_record w _
  · exact Showing.refl w

/-- The message of a will, in the topic it is published to. -/
def postWill (c : MqttClient) (id : UInt16) : Server Unit := do
  let publish ← ofExcept (mqttPublish false c.willQos c.willRetain c.willTopic id c.willMessage)
  let _ ← publishTopic (.entry false c.willTopic) publish

/-- `topic::publish` of a will keeps its message, and then only publishes to clients. -/
theorem postWill_alone (hs : s.Shows w) {t : TopicRef} (ht : s.topics false c.willTopic = some t)
    (id : UInt16) : ∃ s', handlers.Alone (.leaving (.publish c id t)) s
      (.leaving (.unsubscribeAll c (s'.subscriptions c.session).elems)) s' ∧
        s'.Shows (postWill c id w).2 := by
  cases hp : mqttPublish false c.willQos c.willRetain c.willTopic id c.willMessage with
  | error what =>
    -- The message cannot be made: the exception is caught, and the cleanup goes on.
    have hnext : handlers.next (.leaving (.publish c id t)) s =
        some (.leaving (.unsubscribeAll c (s.subscriptions c.session).elems), s) := by
      simp only [handlers, Leaving.next, MqttClient.willPublish, hp, Option.map_some]
    refine ⟨s, .step hnext (.refl _ _), ?_⟩
    rw [postWill, hp]
    exact hs
  | ok publish =>
    have hpublish : Showing.rel (w.storeRetained (.entry false c.willTopic) publish)
        (postWill c id w).2 := by
      rw [postWill, hp]
      have hbind : Showing.rel (w.storeRetained (.entry false c.willTopic) publish)
          ((do let _ ← publishTopic (.entry false c.willTopic) publish : Server Unit) w).2 :=
        rel_bind (rel_publishTopic (fun client maxQos => showing_publish client maxQos false _) w)
          fun _ => within_pure _
      exact hbind
    by_cases hretain : publish.retain = true
    · let v := s.modifyTopic t fun topic => topic.retain publish
      have hnext : handlers.next (.leaving (.publish c id t)) s =
          some (.leaving (.unsubscribeAll c (v.subscriptions c.session).elems), v) := by
        simp only [handlers, Leaving.next, MqttClient.willPublish, hp, if_pos hretain,
          Option.map_some]
        rfl
      refine ⟨_, .step hnext (.refl _ _), hpublish _ ?_⟩
      rw [World.storeRetained, if_pos hretain]
      exact hs.modifyTopic ht fun _ => rfl
    · have hnext : handlers.next (.leaving (.publish c id t)) s =
          some (.leaving (.unsubscribeAll c (s.subscriptions c.session).elems), s) := by
        simp only [handlers, Leaving.next, MqttClient.willPublish, hp, if_neg hretain,
          Option.map_some]
      refine ⟨s, .step hnext (.refl _ _), hpublish s ?_⟩
      rw [World.storeRetained, if_neg hretain]
      exact hs

/-- `new_packet_id` returns with the counter of the session moved, or not at all. -/
theorem newPacketId_bind_apply {α : Type} (r : SessionRef) (k : UInt16 → Server α) (w : World) :
    (newPacketId r >>= k) w = (.stuck, w) ∨ ∃ id session, (newPacketId r >>= k) w =
      k id (w.modifySession r fun _ => session) ∧
        session.subscriptions = (w.session r).subscriptions := by
  rw [newPacketId, bind_apply, get_bind_apply]
  cases hid : (w.session r).newPacketId with
  | none => exact .inl rfl
  | some p =>
    refine .inr ⟨p.1, p.2, rfl, ?_⟩
    rw [(Session.newPacketId_eq_some hid).2.2]

/-- `publish_will_message`. -/
theorem will_alone (hs : s.Shows w) (hflag : c.willFlag = true)
    (h : publishWillMessage c w = (.value (), w')) : ∃ id s',
      handlers.Alone (.leaving (.will c id)) s
        (.leaving (.unsubscribeAll c (s'.subscriptions c.session).elems)) s' ∧ s'.Shows w' := by
  rw [publishWillMessage, modify_bind_apply, if_pos hflag, modify_bind_apply] at h
  obtain ⟨hstate, hreturns⟩ := state_of_caught h
  have hs := showing_noteRetain _ c.willRetain c.willTopic c.willMessage s
    (showing_record w (.will c) s hs)
  generalize (w.record (.will c)).noteRetain c.willRetain c.willTopic c.willMessage = u
    at hs hstate hreturns
  rw [topicsAt_bind_apply] at hstate hreturns
  cases ht : s.topics false c.willTopic with
  | none =>
    have hnone : u.topicAt (.entry false c.willTopic) = none := by
      rw [← hs.topics, ht, Option.map_none]
    have hnext : handlers.next (.leaving (.will c 0)) s =
        some (.leaving (.unsubscribeAll c (s.subscriptions c.session).elems), s) := by
      simp only [handlers, Leaving.next, ht, Option.map_some]
    rw [hnone] at hstate
    exact ⟨0, s, .step hnext (.refl _ _), hstate ▸ hs⟩
  | some t =>
    rw [hs.topicAt ht] at hstate hreturns
    rw [Option.isSome_some, if_pos rfl] at hstate hreturns
    rcases newPacketId_bind_apply c.session _ u with hstuck | ⟨id, session, hrun, hsubs⟩
    · -- Without a packet id left the handler does not return.
      rw [hstuck] at hreturns
      exact absurd rfl hreturns
    · rw [hrun] at hstate
      have hnext : handlers.next (.leaving (.will c id)) s = some (.leaving (.publish c id t), s) := by
        simp only [handlers, Leaving.next, ht, Option.map_some]
      obtain ⟨s', ha, hs'⟩ := postWill_alone (showing_modifySession u c.session
        (f := fun _ => session) hsubs s hs) ht id
      exact ⟨id, s', .step hnext ha, hstate ▸ hs'⟩

/-- `handle_channel_disconnected`. -/
theorem channelDisconnected_alone (hs : s.Shows w) {k : ChannelId}
    (h : handleChannelDisconnected k w = (.value (), w')) : ∃ id s',
      handlers.Alone (.leaving (.channelDisconnected k id)) s (.leaving .done) s' ∧ s'.Shows w' := by
  rw [handleChannelDisconnected, get_bind_apply] at h
  cases hc : s.param k with
  | none =>
    have hnext : handlers.next (.leaving (.channelDisconnected k 0)) s =
        some (.leaving .done, s) := by
      simp only [handlers, Leaving.next, hc, Option.map_some]
    rw [← hs.param, hc] at h
    cases h
    exact ⟨0, s, .step hnext (.refl _ _), hs⟩
  | some c =>
    rw [← hs.param, hc] at h
    obtain ⟨_, u, hwill, hremove⟩ := bind_eq_value h
    cases hremove
    by_cases hflag : c.willFlag = true
    · obtain ⟨id, v, hv, hsv⟩ := will_alone hs hflag hwill
      obtain ⟨s', ha, hs'⟩ := remove_alone hsv c
      have hnext : handlers.next (.leaving (.channelDisconnected k id)) s =
          some (.leaving (.will c id), s) := by
        simp only [handlers, Leaving.next, hc, if_pos hflag, Option.map_some]
      exact ⟨id, s', .step hnext (hv.trans ha), hs'⟩
    · rw [publishWillMessage, modify_bind_apply, if_neg hflag] at hwill
      cases hwill
      obtain ⟨s', ha, hs'⟩ := remove_alone (showing_record w _ s hs) c
      have hnext : handlers.next (.leaving (.channelDisconnected k 0)) s =
          some (.leaving (.unsubscribeAll c (s.subscriptions c.session).elems), s) := by
        simp only [handlers, Leaving.next, hc, if_neg hflag, Option.map_some]
      exact ⟨0, s', .step hnext ha, hs'⟩

/-! ## CONNECT -/

variable {n : Newcomer}

theorem showing_close (w : World) (k : ChannelId) : Showing.rel w (w.close k) :=
  fun _ h => h.of_tables (w.param_close k) rfl rfl (fun _ => rfl) rfl (fun _ _ => rfl) rfl

/-- The client of the same id is displaced. -/
theorem takeOver_alone (hs : s.Shows w) (hfound : n.found =
      (w.getClientPtr n.clientId).any fun old => (w.contexts old.channelId).isSome) : ∃ s',
    handlers.Alone (.connecting n .lookUp) s (.connecting n .session) s' ∧
      s'.Shows (w.takeOver n.clientId) := by
  rw [World.takeOver]
  cases hold : s.clients n.clientId with
  | none =>
    have hnext : handlers.next (.connecting n .lookUp) s = some (.connecting n .session, s) := by
      simp only [handlers, Connecting.next, hold, Option.map_some]
    rw [hs.clients] at hold
    rw [hold]
    exact ⟨s, .step hnext (.refl _ _), hs⟩
  | some old =>
    have hnext : handlers.next (.connecting n .lookUp) s =
        some (.connecting n (.deleteClient old), s) := by
      simp only [handlers, Connecting.next, hold, Option.map_some]
    rw [hs.clients] at hold
    rw [hold, Option.any_some] at hfound
    rw [hold]
    have hdelete := hs.deleteClientPtr n.clientId
    cases hf : n.found with
    | true =>
      have hnext' : handlers.next (.connecting n (.deleteClient old)) s =
          some (.connecting n (.detach old), s.deleteClientPtr n.clientId) := by
        simp only [handlers, Connecting.next, hf, if_true, Option.map_some]
      exact ⟨_, .step hnext (.step hnext' (.step rfl (.refl _ _))),
        showing_close _ _ _ (hdelete.setParam_none old.channelId)⟩
    | false =>
      have hnext' : handlers.next (.connecting n (.deleteClient old)) s =
          some (.connecting n .session, s.deleteClientPtr n.clientId) := by
        simp only [handlers, Connecting.next, hf, Option.map_some]
        rfl
      refine ⟨_, .step hnext (.step hnext' (.refl _ _)), showing_close _ _ _ ?_⟩
      -- The channel is not there, so nobody is at it.
      have hcontext : w.contexts old.channelId = none :=
        Option.not_isSome_iff_eq_none.1 (Bool.eq_false_iff.1 (hfound.symm.trans hf))
      have hgone : w.param old.channelId = none := by
        rw [World.param, hcontext, Option.bind_none]
      refine hdelete.of_tables ?_ rfl rfl (fun _ => rfl) rfl (fun _ _ => rfl) rfl
      rw [World.param_setParam_none]
      exact Function.update_eq_self_iff.2 hgone.symm

/-- The client is given its session. -/
theorem attachSession_alone (hs : s.Shows w) : ∃ s',
    handlers.Alone (.connecting n .session) s (.connecting n (.regClient
      (w.attachSession n.client).1 (w.attachSession n.client).2.1)) s' ∧
        s'.Shows (w.attachSession n.client).2.2 := by
  rcases w.attachSession_cases n.client with ⟨r, hclean, hr, heq⟩ | ⟨hnew, heq⟩ <;> rw [heq]
  · have hnext : handlers.next (.connecting n .session) s =
        some (.connecting n (.regClient (n.client.setSessionPtr r) true), s) := by
      rw [← hs.sessions] at hr
      simp only [handlers, Connecting.next, hclean, hr, Option.map_some]
      rfl
    exact ⟨s, .step hnext (.refl _ _), hs⟩
  · by_cases hclean : n.client.cleanSession = true
    · -- A stored session is deleted first; the new one takes its place.
      have hnext : handlers.next (.connecting n .session) s =
          some (.connecting n .regSession, s.deleteSessionPtr n.client.clientId) := by
        simp only [handlers, Connecting.next, if_pos hclean, Option.map_some]
      have hdelete := hs.deleteSessionPtr n.client.clientId
      have hshow := hdelete.regSessionPtr (x := n.client.clientId) (Function.update_self _ _ _)
      have hstore : (w.deleteSessionPtr n.client.clientId).storeSession n.client.clientId =
          w.storeSession n.client.clientId := by
        simp only [World.storeSession, World.deleteSessionPtr, Function.update_idem]
      rw [hstore] at hshow
      rw [← hs.nextSession]
      exact ⟨_, .step hnext (.step rfl (.refl _ _)), hshow⟩
    · have hnone : s.sessions n.client.clientId = none := by
        rw [hs.sessions]
        exact hnew.resolve_left hclean
      have hnext : handlers.next (.connecting n .session) s =
          some (.connecting n .regSession, s) := by
        simp only [handlers, Connecting.next, if_neg hclean, hnone, Option.map_some]
      rw [← hs.nextSession]
      exact ⟨_, .step hnext (.step rfl (.refl _ _)), hs.regSessionPtr hnone⟩

/-- Subscriptions are entered again. -/
theorem resume_alone (c : MqttClient) (subs : List Subscription) (hs : s.Shows w) : ∃ s',
    handlers.Alone (.connecting n (.resume c subs)) s (.connecting n (.resume c [])) s' ∧
      s'.Shows (subs.foldl
        (fun w sub => w.subscribe c sub.topicFilter sub.maxQos sub.isWild) w) := by
  induction subs generalizing s w with
  | nil => exact ⟨s, .refl _ _, hs⟩
  | cons sub subs ih =>
    obtain ⟨s', ha, hs'⟩ := ih (hs.subscribe c sub.topicFilter sub.maxQos sub.isWild)
    exact ⟨s', .step rfl (.step rfl ha), hs'⟩

theorem getClientPtr_greet (w : World) (cfg : Config) (k : ChannelId) (packet : MqttConnect) :
    (w.greet cfg k packet).getClientPtr = w.getClientPtr := by
  rw [World.greet]
  split_ifs <;> rfl

theorem showing_greet (w : World) (cfg : Config) (k : ChannelId) (packet : MqttConnect) :
    Showing.rel w (w.greet cfg k packet) := by
  have hnext : (w.greet cfg k packet).nextSession = w.nextSession := by
    rw [World.greet]
    split_ifs <;> rfl
  refine fun s h => h.of_tables (w.param_greet k cfg packet) (getClientPtr_greet w cfg k packet)
    (w.sessions_greet k cfg packet) (fun r => by rw [w.session_greet k cfg packet]) hnext
    (fun b f => ?_) (w.topics_greet k cfg packet).2
  rw [World.topicAt, World.topicAt, (w.topics_greet k cfg packet).1]

theorem showing_redeliver (c : MqttClient) (w : World) : Showing.rel w (w.redeliver c) :=
  rel_redeliver (fun w => showing_modifySession w _ rfl) (fun w => showing_modifySession w _ rfl)
    (fun w _ => showing_record w _) w

/-- The middle of `handle_connect`, up to where a stored session is resumed. -/
theorem establish_alone (hs : s.Shows w) (hk : (w.contexts n.channelId).isSome) (hfound : n.found =
      (w.getClientPtr n.clientId).any fun old => (w.contexts old.channelId).isSome) : ∃ s',
    let r := w.establish n.channelId n.client n.clientId
    handlers.Alone (.connecting n .lookUp) s (.connecting n (.resume r.1
      (if r.2.1 then (s'.subscriptions r.1.session).elems else []))) s' ∧ s'.Shows r.2.2 := by
  obtain ⟨s₁, ha₁, hs₁⟩ := takeOver_alone hs hfound
  obtain ⟨s₂, ha₂, hs₂⟩ := attachSession_alone (n := n) hs₁
  have hcontexts := ((w.takeOver n.clientId).attachSession_frame n.client).1
  rw [World.establish]
  generalize (w.takeOver n.clientId).attachSession n.client = r at ha₂ hs₂ hcontexts
  have hreg := (showing_record r.2.2 (.attached r.1 r.2.1) s₂ hs₂).regClientPtr r.1
  have hthere : (((r.2.2.record (.attached r.1 r.2.1)).regClientPtr r.1).contexts
      n.channelId).isSome := by
    have hrecord : (r.2.2.record (.attached r.1 r.2.1)).contexts = r.2.2.contexts := rfl
    rw [World.regClientPtr_eq, hrecord, hcontexts, World.isSome_contexts_takeOver]
    exact hk
  exact ⟨_, ha₁.trans (ha₂.trans (.step rfl (.step rfl (.refl _ _)))),
    showing_record _ _ _ (hreg.setParam_some hthere r.1)⟩

/-- The subscriptions of a stored session are entered again; its messages, which are
    written again, are not shown. -/
theorem accept_alone (hs : s.Shows w) (hk : (w.contexts n.channelId).isSome) (hfound : n.found =
      (w.getClientPtr n.clientId).any fun old => (w.contexts old.channelId).isSome) : ∃ s',
    let r := w.establish n.channelId n.client n.clientId
    handlers.Alone (.connecting n .lookUp) s (.connecting n (.resume r.1 [])) s' ∧
      s'.Shows (if r.2.1 then (r.2.2.resubscribe r.1).redeliver r.1 else r.2.2) := by
  obtain ⟨v, ha, hv⟩ := establish_alone hs hk hfound
  generalize w.establish n.channelId n.client n.clientId = r at ha hv
  by_cases hpresent : r.2.1 = true
  · rw [if_pos hpresent] at ha
    obtain ⟨s', ha', hs'⟩ := resume_alone (n := n) r.1 (v.subscriptions r.1.session).elems hv
    rw [hv.subscriptions] at hs'
    refine ⟨s', ha.trans ha', ?_⟩
    simp only [if_pos hpresent]
    exact showing_redeliver r.1 _ s' hs'
  · rw [if_neg hpresent] at ha
    refine ⟨v, ha, ?_⟩
    simp only [if_neg hpresent]
    exact hv

/-- `handle_connect`, from where the CONNECT is accepted, but for the retained messages
    that are sent in the end. -/
theorem connecting_alone {cfg : Config} {j : Joining} (hs : s.Shows w)
    (hk : (w.contexts j.channelId).isSome) : ∃ c s',
      handlers.Alone (.connecting (j.newcomer w) .lookUp) s
        (.connecting (j.newcomer w) (.resume c [])) s' ∧ s'.Shows (w.joined cfg j) := by
  have hcontexts := w.isSome_contexts_greet j.channelId cfg j.packet
  have hfound : (j.newcomer w).found =
      ((w.greet cfg j.channelId j.packet).getClientPtr (j.newcomer w).clientId).any
        fun old => ((w.greet cfg j.channelId j.packet).contexts old.channelId).isSome := by
    simp only [getClientPtr_greet, hcontexts]
    rfl
  obtain ⟨s', ha, hs'⟩ := accept_alone (showing_greet w cfg j.channelId j.packet s hs)
    ((hcontexts j.channelId).trans hk) hfound
  exact ⟨_, s', ha, hs'⟩

end MqttBroker
