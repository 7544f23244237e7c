import MqttBroker.Delivery.Retained
import MqttBroker.Delivery.Storing
import MqttBroker.Delivery.SysTopics
import MqttBroker.Directory.Refine

/-!
# Dead topics

A topic should go when it has neither a subscriber nor a retained message
(`World.NoDeadTopics`). `handle_unsubscribe` and `unsubscribe_all` look for that,
but nobody does when a retained message is cleared: the topics that stay are the
ones without subscribers that an empty message to retain comes to
(`World.ClearsUnheard`), and only these (`noDeadTopics_iff`).
-/

namespace MqttBroker

open Prog

/-! ## What is claimed -/

/-- Every topic in a table has a subscriber or a retained message, is under its
    own filter, and is in `_wild_topics` when its filter has a wildcard. -/
def World.NoDeadTopics (w : World) : Prop :=
  ∀ b f t, w.topicAt (.entry b f) = some t →
    t.empty = false ∧ t.topicFilter = f ∧ (b = true ↔ hash ∈ f ∨ plus ∈ f)

/-- A topic is there, and has no subscriber. -/
def World.Unheard (w : World) (b : Bool) (f : Bytes) : Prop :=
  ∃ t ∈ w.topicAt (.entry b f), t.clients.isEmpty = true

/-- A PUBLISH with an empty message to retain comes to a topic without
    subscribers, or an empty will to retain does, whose client has no subscription
    to the topic in its session. -/
def World.ClearsUnheard (w : World) (e : Event) : Prop :=
  (∃ _c ∈ w.param e.action.channelId, ∃ m ∈ e.packet.bind Packet.toPublish,
    m.retain = true ∧ m.payload = [] ∧ ∃ b f, m.Reaches b f ∧ w.Unheard b f) ∨
  (e.action = .disconnected e.action.channelId ∧ ∃ c ∈ w.param e.action.channelId,
    c.willFlag = true ∧ c.willRetain = true ∧ c.willMessage = [] ∧ w.Unheard false c.willTopic ∧
      ∀ sub ∈ (w.session c.session).subscriptions,
        sub.topicFilter = c.willTopic → sub.isWild = true)

/-- Every topic in a table has a subscriber or a retained message. -/
def World.Live (w : World) : Prop :=
  ∀ b f t, w.topicAt (.entry b f) = some t → t.empty = false

/-- The topics are in the table their filters are for, and the subscriptions know
    it. -/
structure World.Filed (w : World) : Prop where
  topic {b f} : (w.topicAt (.entry b f)).isSome → isWildFilter f = b
  subscription {s sub} : sub ∈ (w.session s).subscriptions →
    sub.isWild = isWildFilter sub.topicFilter

variable {cfg : Config} {w v w' : World} {e : Event} {c : MqttClient} {l : List (World × Event)}

/-! ## Filing -/

namespace World.Filed

/-- No topic is made, and the subscriptions become fewer. -/
theorem of_less (h : w.Filed)
    (htopic : ∀ b f, (w'.topicAt (.entry b f)).isSome → (w.topicAt (.entry b f)).isSome)
    (hsub : ∀ s sub, sub ∈ (w'.session s).subscriptions → sub ∈ (w.session s).subscriptions) :
    w'.Filed where
  topic ht := h.topic (htopic _ _ ht)
  subscription hs := h.subscription (hsub _ _ hs)

theorem of_topics (h : w.Filed) (htopics : w'.topics = w.topics)
    (hsub : ∀ s sub, sub ∈ (w'.session s).subscriptions → sub ∈ (w.session s).subscriptions) :
    w'.Filed := by
  refine h.of_less (fun b f ht => ?_) hsub
  rwa [World.topicAt, htopics] at ht

theorem modifySession (h : w.Filed) (s : SessionRef) {f : Session → Session}
    (hf : ∀ sub, sub ∈ (f (w.session s)).subscriptions → sub ∈ (w.session s).subscriptions) :
    (w.modifySession s f).Filed := by
  refine h.of_less (fun _ _ ht => ht) fun s' sub hs => ?_
  rw [World.session_modifySession] at hs
  split_ifs at hs with he
  · rw [he]
    exact hf sub hs
  · exact hs

/-- A filter is subscribed to in the table it is for. -/
theorem subscribe (h : w.Filed) (c : MqttClient) (f : Bytes) (q : Nat) :
    (w.subscribe c f q (isWildFilter f)).Filed where
  topic {b g} ht := by
    rw [World.topicAt_subscribe] at ht
    split_ifs at ht with hp
    · rw [hp.1, hp.2]
    · exact h.topic ht
  subscription hs := by
    rw [World.subscribe_eq] at hs
    exact h.subscription hs

theorem addSubscription (h : w.Filed) (s : SessionRef) (f : Bytes) (q : Nat) :
    (w.modifySession s fun t => t.addSubscription f q (isWildFilter f)).Filed where
  topic ht := h.topic ht
  subscription {s' sub} hs := by
    rw [World.session_modifySession] at hs
    split_ifs at hs with he
    · rcases Keyed.mem_put.1 hs with rfl | ⟨hs, -⟩
      · rfl
      · exact h.subscription hs
    · exact h.subscription hs

theorem unsubscribe (h : w.Filed) (c : MqttClient) (f : Bytes) (b : Bool) :
    (w.unsubscribe c f b).Filed := by
  refine h.of_less (fun b' g ht => ?_) fun s sub hs => ?_
  · rw [World.topicAt_unsubscribe] at ht
    split_ifs at ht with hp
    · obtain ⟨rfl, rfl⟩ := hp
      cases ht' : w.topicAt (.entry b' g) with
      | none => simp [ht'] at ht
      | some t => rfl
    · exact ht
  · rw [World.unsubscribe_eq] at hs
    exact hs

end World.Filed

/-- The topics and subscriptions stay filed. -/
abbrev Filing : Frame World := Frame.keeping World.Filed

theorem filing_publishFrame : PublishFrame Filing where
  counter s w next h := h.modifySession s fun _ hs => hs
  publish client maxQos retained packet := by
    refine within_publish (fun w next h => h.modifySession _ fun _ hs => hs) (fun w p h => ?_)
      (fun w p _ h => h.of_topics rfl fun _ _ hs => hs) maxQos retained
    have hrecord : (w.record (.addressed client p)).Filed := h.of_topics rfl fun _ _ hs => hs
    refine hrecord.modifySession _ fun sub hs => ?_
    split_ifs at hs <;> exact hs
  store p m w h := by
    refine h.of_less (fun b f ht => ?_) fun s sub hs => ?_
    · rwa [World.isSome_topicAt_storeRetained] at ht
    · rw [World.storeRetained_eq] at hs
      exact hs
  noteWill _ _ h := h.of_topics rfl fun _ _ hs => hs
  note retain _ _ _ := rel_noteRetain (fun _ h => h.of_topics rfl fun _ _ hs => hs) retain

theorem filing_handlerFrame : HandlerFrame Filing where
  channels hw _ h := by
    refine h.of_topics ?_ fun s sub hs => ?_
    · rw [hw]
    · rw [hw] at hs
      exact hs
  write _ _ _ _ h := h.of_topics rfl fun _ _ hs => hs
  retained it k fs gs := filing_publishFrame.publishRetainedMessage it k fs gs
  will {w w' k c} _ hrun := by
    have hrel := filing_publishFrame.publishWillMessage c w
    rwa [hrun] at hrel
  subscribe {w k c entry} _ hd hq _ h := by
    rw [World.subscribeEntry, (hd.2 hq).2]
    exact (h.subscribe c _ _).addSubscription _ _ _
  subscribeTrash _ _ h := h.of_topics rfl fun _ _ hs => hs
  unsubscribe {w k c entry} _ _ h := by
    rw [World.unsubscribeEntry]
    split
    · exact h
    · exact (h.unsubscribe c _ _).modifySession _ fun sub hs => (Keyed.mem_erase.1 hs).1
  leave {w k c} _ h := by
    have hparam : (w.setParam k none).Filed := h.of_topics rfl fun _ _ hs => hs
    have hall := rel_unsubscribeAll (F := Filing) (c := c)
      (fun w f b (h : w.Filed) => h.unsubscribe c f b) _ hparam
    rw [World.remove]
    split_ifs <;> exact hall.of_topics rfl fun _ _ hs => hs

theorem filed_served (h : w.Filed) (k : ChannelId) (c : MqttClient) (p : Packet) :
    (w.served k c p).Filed := by
  refine h.of_topics (by rw [served_eq]) fun s sub hs => ?_
  rwa [w.subscriptions_served] at hs

theorem filed_joined (cfg : Config) (h : w.Filed) (j : Joining)
    (hk : (w.contexts j.channelId).isSome) : (w.joined cfg j).Filed := by
  obtain ⟨r, sessionPresent, v, -, -, -, ⟨htopics, -⟩, hcases⟩ := joined_cases cfg w j hk
  rcases hcases with ⟨-, -, hsession, hw⟩ | ⟨-, -, hsession, hw⟩
  · have hv : v.Filed := h.of_topics htopics fun s sub hs => by rwa [hsession] at hs
    rw [hw]
    refine rel_redeliver (F := Filing) (fun w h => h.modifySession _ fun _ hs => hs)
      (fun w h => h.modifySession _ fun _ hs => hs)
      (fun w p h => h.of_topics rfl fun _ _ hs => hs) _ ?_
    refine rel_resubscribe (F := Filing) (fun sub hsub u hu => ?_) hv
    rw [hv.subscription hsub]
    exact hu.subscribe _ _ _
  · rw [hw]
    refine h.of_topics htopics fun s sub hs => ?_
    rw [hsession, Function.update_apply] at hs
    split_ifs at hs
    · exact absurd hs (Keyed.not_mem_empty sub)
    · exact hs

theorem filed_step (hst : (broker cfg).step w e = some w') (h : w.Filed) : w'.Filed := by
  refine filing_handlerFrame.step hst
    (fun _ m _ _ _ => filing_publishFrame.forwardPublish _ m) ?_
  rcases received_cases cfg w e with ⟨j, hj, hw⟩ | ⟨-, ⟨packet, -, hw⟩ | ⟨c, p, -, -, -, hw⟩ | hw⟩ <;>
    rw [hw]
  · exact filed_joined cfg h j (isSome_contexts_of_joining hst hj)
  · refine h.of_topics (w.topics_greet _ cfg packet).1 fun s sub hs => ?_
    rwa [w.session_greet] at hs
  · exact filed_served h _ c p
  · exact h

theorem filed_of_reachable (h : (broker cfg).Reachable w) : w.Filed := by
  refine h.invariant (I := World.Filed) ⟨fun ht => ?_, fun hs => ?_⟩
    fun _ _ _ hw hst => filed_step hst hw
  · exact absurd ht Bool.false_ne_true
  · exact absurd hs (Keyed.not_mem_empty _)

/-! ## Steps that clear nothing -/

namespace World.Live

theorem of_topics (h : w.Live) (htopics : w'.topics = w.topics) : w'.Live := by
  intro b f t ht
  rw [World.topicAt, htopics] at ht
  exact h b f t ht

/-- A topic that is subscribed to has a subscriber. -/
theorem subscribe (h : w.Live) (c : MqttClient) (f : Bytes) (q : Nat) (b : Bool) :
    (w.subscribe c f q b).Live := by
  intro b' g t ht
  rw [World.topicAt_subscribe] at ht
  split_ifs at ht with hp
  · cases ht
    refine Bool.eq_false_iff.2 fun he => ?_
    have hnone := ((Topic.empty_iff _).1 he).2 c.clientId
    rw [Topic.find_subscribe, if_pos rfl] at hnone
    cases hnone
  · exact h b' g t ht

/-- A topic that becomes empty is erased. -/
theorem unsubscribe (h : w.Live) (c : MqttClient) (f : Bytes) (b : Bool) :
    (w.unsubscribe c f b).Live := by
  intro b' g t ht
  rw [World.topicAt_unsubscribe] at ht
  split_ifs at ht with hp
  · simpa using (Option.filter_eq_some_iff.1 ht).2
  · exact h b' g t ht

theorem remove (h : w.Live) (c : MqttClient) : (w.remove c).Live := by
  have hall := rel_unsubscribeAll (F := Frame.keeping World.Live) (c := c)
    (fun w f b (h : w.Live) => h.unsubscribe c f b) w h
  rw [World.remove]
  split_ifs <;> exact hall.of_topics rfl

end World.Live

/-- The topics stay as they are. -/
def TopicsKept : Frame World where
  rel w w' := w'.topics = w.topics
  refl _ := rfl
  trans h₁ h₂ := h₂.trans h₁

theorem topicsKept_publish (client : MqttClient) (maxQos : Nat) (retained : Bool)
    (m : MqttPublish) : Within TopicsKept (client.publish maxQos retained m) :=
  within_publish (fun _ _ => rfl) (fun _ _ => rfl) (fun _ _ _ => rfl) maxQos retained

/-- A step keeps every topic live, where no message is forwarded and no will
    published. -/
theorem live_stepFrame (hforward : ∀ c m, w.param e.action.channelId = some c →
      e.packet ≠ some (.publish m))
    (hwill : ∀ c, e.action = .disconnected e.action.channelId →
      w.param e.action.channelId ≠ some c) : StepFrame (Frame.keeping World.Live) w e where
  channels hv _ _ h := h.of_topics (by rw [hv])
  answer _ _ _ h := h.of_topics rfl
  refuse _ _ _ h := h.of_topics rfl
  retained it fs gs := Within.mono (F := TopicsKept)
    (within_publishRetainedMessage it _ fs gs fun _ _ _ m _ _ =>
      .inl fun client maxQos => topicsKept_publish client maxQos true m)
    fun _ _ htopics h => World.Live.of_topics h htopics
  forward hc hp _ := absurd hp (hforward _ _ hc)
  will he hc _ := absurd hc (hwill _ he)
  subscribe _ _ _ _ h := (h.subscribe _ _ _ _).of_topics rfl
  subscribeTrash _ _ h := h.of_topics rfl
  unsubscribe {v c entry} _ _ h := by
    rw [World.unsubscribeEntry]
    split
    · exact h
    · exact (h.unsubscribe c _ _).of_topics rfl
  leave {v c} _ h := by
    have hparam : (v.setParam e.action.channelId none).Live := h.of_topics rfl
    exact hparam.remove c

theorem live_joined (cfg : Config) (h : w.Live) (j : Joining)
    (hk : (w.contexts j.channelId).isSome) : (w.joined cfg j).Live := by
  obtain ⟨r, sessionPresent, v, -, -, -, ⟨htopics, -⟩, hcases⟩ := joined_cases cfg w j hk
  have hv : v.Live := h.of_topics htopics
  rcases hcases with ⟨-, -, -, hw⟩ | ⟨-, -, -, hw⟩ <;> rw [hw]
  · refine rel_redeliver (F := Frame.keeping World.Live) (fun w h => h.of_topics rfl)
      (fun w h => h.of_topics rfl) (fun w p h => h.of_topics rfl) _ ?_
    exact rel_resubscribe (F := Frame.keeping World.Live) (fun sub _ u hu => hu.subscribe _ _ _ _) hv
  · exact hv

/-! ## Clearing -/

/-- There is an empty topic at a place. -/
def World.Dead (w : World) (b : Bool) (f : Bytes) : Prop :=
  ∃ t ∈ w.topicAt (.entry b f), t.empty = true

theorem live_iff : w.Live ↔ ∀ b f, ¬w.Dead b f := by
  constructor
  · rintro h b f ⟨t, ht, he⟩
    exact absurd he (Bool.eq_false_iff.1 (h b f t ht))
  · exact fun h b f t ht => Bool.eq_false_iff.2 fun he => h b f ⟨t, ht, he⟩

/-- Storing an empty message makes the topics without subscribers empty. -/
theorem dead_iff_of_stored (h : w.Live) {m : MqttPublish} {S : Bool → Bytes → Prop}
    [∀ b f, Decidable (S b f)] (hstored : ∀ b f, v.topicAt (.entry b f) =
      if S b f then (w.topicAt (.entry b f)).map fun t => t.retain m else w.topicAt (.entry b f))
    (b : Bool) (f : Bytes) : v.Dead b f ↔ m.payload = [] ∧ S b f ∧ w.Unheard b f := by
  rw [World.Dead, hstored]
  constructor
  · rintro ⟨t, ht, he⟩
    split_ifs at ht with hS
    · obtain ⟨t', ht', rfl⟩ := Option.map_eq_some_iff.1 ht
      obtain ⟨hnone, hclients⟩ := Bool.and_eq_true_iff.1 he
      refine ⟨?_, hS, t', ht', hclients⟩
      by_contra hne
      rw [Topic.retain, if_neg fun hlen => hne (List.length_eq_zero_iff.1 hlen)] at hnone
      cases hnone
    · exact absurd he (Bool.eq_false_iff.1 (h b f t ht))
  · rintro ⟨hpayload, hS, t, ht, hclients⟩
    rw [if_pos hS, ht]
    refine ⟨t.retain m, rfl, ?_⟩
    rw [Topic.empty, Topic.retain, if_pos (List.length_eq_zero_iff.2 hpayload)]
    exact hclients

/-- A PUBLISH of a client keeps every topic live unless it clears one without
    subscribers. -/
theorem live_publish_iff (h : w.Live) (hsys : w.SysInv) (hst : (broker cfg).step w e = some w')
    {m : MqttPublish} (hc : w.param e.action.channelId = some c)
    (hp : e.packet = some (.publish m)) : w'.Live ↔ ¬w.ClearsUnheard e := by
  obtain ⟨hqos, -, -, hsize⟩ := (decoded_of_admits hp ((step_eq_some cfg).1 hst).1).2
  have hv := served_eq w e.action.channelId c (.publish m)
  have hvtrash : (w.served e.action.channelId c (.publish m)).trashTopic = w.trashTopic := by
    rw [hv]
  have hvtopic : ∀ b f, (w.served e.action.channelId c (.publish m)).topicAt (.entry b f) =
      w.topicAt (.entry b f) := by
    intro b f
    rw [hv]
    rfl
  -- What the handler does before it forwards leaves the topics.
  have hstored := step_forward (Q := fun w' => ∀ b f, w'.topicAt (.entry b f) =
      if m.retain = true ∧ m.Reaches b f then (w.topicAt (.entry b f)).map fun t => t.retain m
      else w.topicAt (.entry b f)) hst hc hp (by
    have hforward := returns_forwardPublish_stores
      (w := w.served e.action.channelId c (.publish m)) (m := m) ⟨hqos, by omega⟩ (by
        rw [hvtrash, hsys.trash, show sysTrash.length = 10 from rfl]
        omega) e.iteration
    simp only [hvtopic] at hforward
    exact hforward)
  have hdead := dead_iff_of_stored h hstored
  rw [live_iff]
  constructor
  · rintro hlive (⟨-, -, m', hm', hretain, hpayload, b, f, hreach, hu⟩ | ⟨he, -⟩)
    · rw [hp] at hm'
      obtain rfl := Option.some.inj hm'
      exact hlive b f ((hdead b f).2 ⟨hpayload, ⟨hretain, hreach⟩, hu⟩)
    · -- A packet is no lost channel, so no will is published.
      obtain ⟨sb, rest, hact, -⟩ := packet_eq_some hp
      cases hact.symm.trans he
  · intro hnot b f hd
    obtain ⟨hpayload, ⟨hretain, hreach⟩, hu⟩ := (hdead b f).1 hd
    refine hnot (.inl ⟨c, hc, m, ?_, hretain, hpayload, b, f, hreach, hu⟩)
    rw [hp]
    rfl

/-- A client whose channel is lost keeps every topic live unless its will clears
    one that it does not take away itself. -/
theorem live_will_iff (h : w.Live) (hinv : w.RetainedInv) (hst : (broker cfg).step w e = some w')
    (he : e.action = .disconnected e.action.channelId)
    (hc : w.param e.action.channelId = some c) : w'.Live ↔ ¬w.ClearsUnheard e := by
  obtain ⟨u, hwill, rfl⟩ := step_disconnected hst he hc
  obtain ⟨hqos, hsize⟩ := hinv.will hc
  obtain ⟨p, hcontent, hstored⟩ :=
    (returns_publishWillMessage_stores hqos hsize w).of_value hwill
  have hpayload : p.payload = c.willMessage := congrArg (fun x => x.2.2.2) hcontent
  have hquiet := quiet_publishFrame.publishWillMessage c w
  rw [hwill] at hquiet
  have hdead := dead_iff_of_stored h hstored
  -- A topic that the client takes away is not dead.
  have hremove : ∀ b f, ((u.remove c).conclude (.disconnected e.action.channelId)).Dead b f ↔
      u.Dead b f ∧ ¬∃ sub ∈ (w.session c.session).subscriptions.elems,
        sub.topicFilter = f ∧ sub.isWild = b := by
    intro b f
    have htopic : ((u.remove c).conclude (.disconnected e.action.channelId)).topicAt (.entry b f) =
        (u.unsubscribeAll c).topicAt (.entry b f) := by
      rw [World.remove]
      split_ifs <;> rfl
    rw [World.listed_iff, ← hquiet.1, ← World.listed_iff, World.Dead, htopic,
      World.topicAt_unsubscribeAll]
    split_ifs with hlisted
    · refine iff_of_false ?_ fun hd => hd.2 hlisted
      rintro ⟨t, ht, hempty⟩
      have hne := (Option.filter_eq_some_iff.1 ht).2
      rw [hempty] at hne
      cases hne
    · exact (and_iff_left hlisted).symm
  rw [live_iff]
  simp only [hremove, hdead, hpayload]
  constructor
  · rintro hlive (⟨-, -, m, hm, -⟩ | ⟨-, c', hc', hflag, hretain, hmessage, hu, hlisted⟩)
    · rw [Event.packet, he] at hm
      cases hm
    · -- The client has no subscription that would take the topic away with it.
      obtain rfl := Option.some.inj (hc.symm.trans hc')
      refine hlive false c.willTopic ⟨⟨hmessage, ⟨hflag, hretain, rfl, rfl⟩, hu⟩, ?_⟩
      rintro ⟨sub, hsub, hf, hwild⟩
      exact Bool.false_ne_true (hwild.symm.trans (hlisted sub hsub hf))
  · rintro hnot b f ⟨⟨hmessage, ⟨hflag, hretain, rfl, rfl⟩, hu⟩, hlisted⟩
    refine hnot (.inr ⟨he, c, hc, hflag, hretain, hmessage, hu, fun sub hsub hf => ?_⟩)
    exact Bool.eq_true_of_not_eq_false fun hwild => hlisted ⟨sub, hsub, hf, hwild⟩

/-- A step keeps every topic live unless it clears one without subscribers. -/
theorem live_step_iff (h : w.Live) (hsys : w.SysInv) (hinv : w.RetainedInv)
    (hst : (broker cfg).step w e = some w') : w'.Live ↔ ¬w.ClearsUnheard e := by
  by_cases hpublish : ∃ c m, w.param e.action.channelId = some c ∧ e.packet = some (.publish m)
  · obtain ⟨c, m, hc, hp⟩ := hpublish
    exact live_publish_iff h hsys hst hc hp
  by_cases hlost : ∃ c, e.action = .disconnected e.action.channelId ∧
      w.param e.action.channelId = some c
  · obtain ⟨c, he, hc⟩ := hlost
    exact live_will_iff h hinv hst he hc
  refine iff_of_true ?_ ?_
  · refine (live_stepFrame (fun c m hc hp => hpublish ⟨c, m, hc, hp⟩)
      fun c he hc => hlost ⟨c, he, hc⟩).step hst ?_
    rcases received_cases cfg w e with
      ⟨j, hj, hw⟩ | ⟨-, ⟨packet, -, hw⟩ | ⟨c, p, -, -, -, hw⟩ | hw⟩ <;> rw [hw]
    · exact live_joined cfg h j (isSome_contexts_of_joining hst hj)
    · exact h.of_topics (w.topics_greet _ cfg packet).1
    · exact h.of_topics (by rw [served_eq])
    · exact h
  · rintro (⟨c, hc, m, hm, -⟩ | ⟨he, c, hc, -⟩)
    · obtain ⟨p, hp, hpm⟩ := Option.bind_eq_some_iff.1 hm
      cases p <;> cases hpm
      exact hpublish ⟨c, m, hc, hp⟩
    · exact hlost ⟨c, he, hc⟩

/-! ## Runs -/

theorem noDeadTopics_iff_live (h : w.Filed) : w.NoDeadTopics ↔ w.Live := by
  refine ⟨fun hd b f t ht => (hd b f t ht).1, fun hl b f t ht => ?_⟩
  refine ⟨hl b f t ht, World.topicFilter_of_topicAt ht, ?_⟩
  rw [← isWildFilter_iff, h.topic (Option.isSome_iff_exists.2 ⟨t, ht⟩)]

/-- No dead topic is left in a run that clears no retained message of a topic
    without subscribers, and a step that clears one leaves a dead topic. -/
theorem noDeadTopics_iff (h : (broker cfg).Run l w) (hok : ∀ x ∈ l, ¬x.1.ClearsUnheard x.2) :
    w.NoDeadTopics ∧ ∀ e w', (broker cfg).step w e = some w' →
      (w'.NoDeadTopics ↔ ¬w.ClearsUnheard e) := by
  obtain ⟨hsys, hinv, hlive⟩ : w.SysInv ∧ w.RetainedInv ∧ w.Live := by
    refine h.invariant (I := fun w => w.SysInv ∧ w.RetainedInv ∧ w.Live)
      (P := fun w e => ¬w.ClearsUnheard e)
      ⟨sys_start, retainedInv_start, fun _ _ _ ht => nomatch ht⟩ ?_ hok
    exact fun w e w' ⟨hsys, hinv, hlive⟩ hc hst =>
      ⟨sys_step hst hsys, retainedInv_step hst hinv, (live_step_iff hlive hsys hinv hst).2 hc⟩
  refine ⟨(noDeadTopics_iff_live (filed_of_reachable h.reachable)).2 hlive, fun e w' hst => ?_⟩
  rw [noDeadTopics_iff_live (filed_of_reachable (h.reachable.step hst))]
  exact live_step_iff hlive hsys hinv hst

/-- A retained message is cleared while the topic has a subscriber. -/
theorem noDeadTopics_heard : ∃ w, (broker mqttdCfg).Reachable w ∧
    (w.topicAt (.entry false [0x74])).isSome = true ∧ w.retainedAt [0x74] = none ∧
      w.NoDeadTopics := by
  have hruns : runs
      (fun w _ => decide (∀ b, ∀ t ∈ (w.topics b).elems, t.clients.isEmpty = false))
      [.accept 1, .read 1 (connectBytes 0x02 [0x61] []), .read 1 (subscribeBytes [0x74] 0x00),
        .read 1 (publishBytes 0x01 [0x74] [] [0x01]), .read 1 (publishBytes 0x01 [0x74] [] [])]
      (fun w => (w.topicAt (.entry false [0x74])).isSome && (w.retainedAt [0x74]).isNone) = true := by
    decide +kernel
  obtain ⟨l, w, hl, hok, hp⟩ := exists_run hruns
  obtain ⟨htopic, hretained⟩ := Bool.and_eq_true_iff.1 hp
  have hunheard : ∀ x ∈ l, ∀ b f, ¬x.1.Unheard b f := by
    rintro x hx b f ⟨t, ht, he⟩
    have hheard := of_decide_eq_true (hok x hx) b t (Keyed.mem_of_find ht).1
    cases he.symm.trans hheard
  refine ⟨w, hl.reachable, htopic, Option.isNone_iff_eq_none.1 hretained,
    (noDeadTopics_iff hl fun x hx hc => ?_).1⟩
  rcases hc with ⟨-, -, m, -, -, -, b, f, -, hu⟩ | ⟨-, c, -, -, -, -, hu, -⟩
  · exact hunheard x hx b f hu
  · exact hunheard x hx _ _ hu

/-- The last subscriber leaves, and then the retained message is cleared. -/
theorem cleared_topic_stays : ¬∀ w, (broker mqttdCfg).Reachable w → w.NoDeadTopics := by
  intro h
  have hruns : runs (fun _ _ => true)
      [.accept 1, .read 1 (connectBytes 0x02 [0x61] []), .read 1 (subscribeBytes [0x74] 0x00),
        .read 1 (publishBytes 0x01 [0x74] [] [0x01]), .read 1 (unsubscribeBytes [0x74]),
        .read 1 (publishBytes 0x01 [0x74] [] [])]
      (fun w => (w.topicAt (.entry false [0x74])).any Topic.empty) = true := by
    decide +kernel
  obtain ⟨l, w, hl, -, hp⟩ := exists_run hruns
  obtain ⟨t, ht, he⟩ := (Option.any_eq_true _ _).1 hp
  cases he.symm.trans (h w hl.reachable false [0x74] t ht).1

end MqttBroker
