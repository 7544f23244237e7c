import MqttBroker.Delivery.Retained
import MqttBroker.Directory.Runs

/-!
# Answers to SUBSCRIBE

What a client is sent when it subscribes: for each granted entry, the messages
that the topics it matches retain (`World.answer`), which are what it is owed
(`World.Answers`) exactly when no such topic was missed (`answered_iff`).
-/

namespace MqttBroker

open Prog

/-- `handle_subscribe` grants the entry, which is not for a `$`-topic. -/
def SubscribeEntry.granted (entry : SubscribeEntry) : Bool :=
  entry.maxQos < 3 && entry.topicFilter.head? ≠ some dollar

/-- The granted entries, in the order retained messages are sent for them. -/
def MqttSubscribe.granted (p : MqttSubscribe) : List SubscribeEntry :=
  (p.topicFilters.filter fun entry => entry.granted && !entry.isWild) ++
    p.topicFilters.filter fun entry => entry.granted && entry.isWild

/-- The filter of an entry matches a topic name. -/
def SubscribeEntry.Matches (entry : SubscribeEntry) (topicName : Bytes) : Prop :=
  if entry.isWild then topicMatch entry.topicFilter topicName = true
  else topicName = entry.topicFilter

/-- A client at a channel is sent exactly what it is owed for an entry: one
    PUBLISH for every topic, with the payload owed. -/
def World.Answers (w : World) (k : ChannelId) (c : MqttClient) (entry : SubscribeEntry)
    (xs : List Sent) : Prop :=
  (xs.map Sent.topicName).Nodup ∧ ∀ x, x ∈ xs ↔ ∃ topicName payload,
    entry.Matches topicName ∧ w.Owes topicName payload ∧
      x = ⟨k, some c, true, topicName, payload⟩

/-- From `w` to `w'` a SUBSCRIBE is handled, and every granted entry is answered. -/
def World.Answered (w : World) (k : ChannelId) (c : MqttClient) (p : MqttSubscribe)
    (w' : World) : Prop :=
  ∃ answers : List (List Sent), w'.sent = w.sent ++ answers.flatten ∧
    List.Forall₂ (w.Answers k c) p.granted answers

variable {cfg : Config} {w v w' : World} {e : Event} {k : ChannelId} {c : MqttClient}
  {p : MqttSubscribe} {m : MqttPublish}

/-! ## Retained messages that match -/

/-- The retained messages a filter matches, in the order they are sent in. -/
def World.retainedMatching (w : World) (it : Iteration) (isWild : Bool) (topicFilter : Bytes) :
    List MqttPublish :=
  if isWild then
    (it.order (w.topics false).elems).filterMap fun t =>
      if topicMatch topicFilter t.topicFilter then t.retainedMessage else none
  else (w.retainedAt topicFilter).toList

/-- A client is among the subscribers of a topic. -/
def World.Subscribed (w : World) (c : MqttClient) (isWild : Bool) (topicFilter : Bytes) : Prop :=
  ((w.topicAt (.entry isWild topicFilter)).bind fun t => t.find c.clientId).isSome

theorem returns_publishRetained (hm : m.Sendable) (hc : w.param k = some c) {b : Bool} {f : Bytes}
    (hs : w.Subscribed c b f) : Returns (publishRetained (.entry b f) k m)
      (fun _ w' => w.Posts [w.sentTo c true m] w') w := by
  obtain ⟨s, hs⟩ := Option.isSome_iff_exists.1 hs
  refine returns_get_bind ?_
  rw [hc]
  refine returns_tryCatch (returns_get_bind ?_)
  rw [hs]
  exact returns_publish hm c s.maxQos true w

theorem World.Posts.subscribed {xs : List Sent} (h : w.Posts xs v) {b : Bool} {f : Bytes}
    (hs : w.Subscribed c b f) : v.Subscribed c b f := by
  rw [World.Subscribed, World.topicAt, h.frame.2.1]
  exact hs

/-- For every filter the retained messages it matches are sent. -/
theorem returns_publishRetainedMessage (it : Iteration) {fs gs : List Bytes}
    (hm : ∀ f m, w.retainedAt f = some m → m.Sendable) (hc : w.param k = some c)
    (hfs : ∀ f ∈ fs, w.Subscribed c false f) (hgs : ∀ g ∈ gs, w.Subscribed c true g) :
    Returns (publishRetainedMessage it k fs gs) (fun _ w' => w.Posts
      ((fs.flatMap (w.retainedMatching it false) ++ gs.flatMap (w.retainedMatching it true)).map
        (w.sentTo c true)) w') w := by
  have hsend : ∀ {b f} m ys v, w.Subscribed c b f → w.Posts ys v → m.Sendable →
      Returns (publishRetained (.entry b f) k m) (fun _ u => v.Posts [w.sentTo c true m] u) v := by
    intro b f m ys v hs hv hm
    rw [← hv.sentTo]
    exact returns_publishRetained hm (hv.param ▸ hc) (hv.subscribed hs)
  rw [List.map_append, List.map_flatMap, List.map_flatMap]
  refine returns_bind (returns_forEach_posts (w := w)
    (fun f => (w.retainedMatching it false f).map (w.sentTo c true)) fun f hf ys v hv => ?_)
    fun _ v hv => ?_
  · refine returns_get_bind ?_
    have hretained : (v.topicAt (.entry false f)).bind Topic.retainedMessage = w.retainedAt f := by
      rw [World.topicAt, hv.frame.2.1]
      rfl
    rw [hretained, World.retainedMatching, if_neg (by decide)]
    cases hw : w.retainedAt f with
    | none => exact returns_pure (posts_nil v)
    | some m => exact hsend m ys v (hfs f hf) hv (hm f m hw)
  · refine (returns_forEach_posts (w := v) _ fun g hg zs u hu => ?_).mono fun _ w' hw' =>
      hv.trans hw'
    refine returns_get_bind ?_
    have hwu := hv.trans hu
    rw [hwu.frame.2.1, World.retainedMatching, if_pos rfl, List.filterMap_eq_flatMap_toList,
      List.map_flatMap]
    -- The loop over the topics, for a filter with wildcards.
    refine returns_forEach_posts _ fun t ht us x hx => ?_
    cases hret : t.retainedMessage with
    | none => exact returns_pure (by simpa [hret] using posts_nil x)
    | some m =>
      by_cases hmatch : topicMatch g t.topicFilter = true
      · have hw : w.retainedAt t.topicFilter = some m := w.retainedAt_eq_some.2
          ⟨t, Keyed.find_eq_some.2 ⟨(it.perm _).mem_iff.1 ht, rfl⟩, hret⟩
        dsimp only
        rw [if_pos hmatch, if_pos hmatch]
        exact hsend m _ x (hgs g hg) (hwu.trans hx) (hm _ m hw)
      · dsimp only
        rw [if_neg hmatch, if_neg hmatch]
        exact returns_pure (posts_nil x)

/-! ## The loop over the entries -/

/-- The entries that are done are entered in the tables, if they are granted, and
    nothing was sent. -/
structure World.Grants (w : World) (c : MqttClient) (done : List SubscribeEntry) (g : Granting)
    (v : World) : Prop where
  topics : g.subscribedTopics =
    (done.filter fun entry => entry.granted && !entry.isWild).map SubscribeEntry.topicFilter
  wildTopics : g.subscribedWildTopics =
    (done.filter fun entry => entry.granted && entry.isWild).map SubscribeEntry.topicFilter
  subscribed : ∀ entry ∈ done, entry.granted = true → v.Subscribed c entry.isWild entry.topicFilter
  sent : v.sent = w.sent
  retainedAt : v.retainedAt = w.retainedAt
  lastRetain : v.lastRetain = w.lastRetain
  param : v.param = w.param

/-- A client that subscribes is a subscriber, and stays one elsewhere. -/
theorem subscribed_subscribe (w : World) (c : MqttClient) (f : Bytes) (q : Nat) (b b' : Bool)
    (f' : Bytes) : (w.subscribe c f q b).Subscribed c b' f' ↔
      (b' = b ∧ f' = f) ∨ w.Subscribed c b' f' := by
  rw [World.Subscribed, World.topicAt_subscribe, World.Subscribed]
  split_ifs with h
  · simp [h, Topic.find_subscribe]
  · simp [h]

theorem returns_code {g : Granting} {returnCode : Nat} (h : returnCode < 3 ∨ returnCode = 0x80)
    (w : World) : Returns (g.code returnCode) (fun g' w' => w' = w ∧
      g'.subscribedTopics = g.subscribedTopics ∧
      g'.subscribedWildTopics = g.subscribedWildTopics) w := by
  obtain ⟨suback, hs⟩ : ∃ suback, g.suback.addReturnCode returnCode = .ok suback := by
    rw [MqttSuback.addReturnCode, if_neg (by omega)]
    exact ⟨_, rfl⟩
  rw [Granting.code, hs]
  exact returns_ok_bind (returns_pure ⟨rfl, rfl, rfl⟩)

/-- An entry that is not granted leaves things as they are. -/
theorem World.Grants.skip {done : List SubscribeEntry} {g g' : Granting} {entry : SubscribeEntry}
    (h : w.Grants c done g v) (hentry : entry.granted = false)
    (htopics : g'.subscribedTopics = g.subscribedTopics)
    (hwild : g'.subscribedWildTopics = g.subscribedWildTopics) :
    w.Grants c (done ++ [entry]) g' v where
  topics := by simp [htopics, h.topics, hentry]
  wildTopics := by simp [hwild, h.wildTopics, hentry]
  subscribed := by
    intro e he hgranted
    rcases List.mem_append.1 he with he | he
    · exact h.subscribed e he hgranted
    · obtain rfl := List.mem_singleton.1 he
      cases hentry.symm.trans hgranted
  sent := h.sent
  retainedAt := h.retainedAt
  lastRetain := h.lastRetain
  param := h.param

/-- A granted entry is entered. -/
theorem World.Grants.enter {done : List SubscribeEntry} {g g' : Granting} {entry : SubscribeEntry}
    (h : w.Grants c done g v) (hentry : entry.granted = true)
    (htopics : g'.subscribedTopics =
      if entry.isWild then g.subscribedTopics else g.subscribedTopics ++ [entry.topicFilter])
    (hwild : g'.subscribedWildTopics = if entry.isWild then
      g.subscribedWildTopics ++ [entry.topicFilter] else g.subscribedWildTopics) :
    w.Grants c (done ++ [entry]) g' (v.subscribeEntry c entry) := by
  have heq := v.subscribe_eq c entry.topicFilter entry.maxQos entry.isWild
  have hsub : ∀ b f, (v.subscribeEntry c entry).Subscribed c b f ↔
      (b = entry.isWild ∧ f = entry.topicFilter) ∨ v.Subscribed c b f :=
    fun b f => subscribed_subscribe v c entry.topicFilter entry.maxQos entry.isWild b f
  constructor
  · rw [htopics, h.topics]
    cases hw : entry.isWild <;> simp [hentry, hw]
  · rw [hwild, h.wildTopics]
    cases hw : entry.isWild <;> simp [hentry, hw]
  · intro e he hgranted
    rw [hsub]
    rcases List.mem_append.1 he with he | he
    · exact .inr (h.subscribed e he hgranted)
    · obtain rfl := List.mem_singleton.1 he
      exact .inl ⟨rfl, rfl⟩
  · rw [← h.sent]
    show (v.subscribe c _ _ _).sent = v.sent
    rw [heq]
    rfl
  · rw [← h.retainedAt]
    exact v.retainedAt_subscribe c _ _ _
  · rw [← h.lastRetain]
    show (v.subscribe c _ _ _).lastRetain = v.lastRetain
    rw [heq]
    rfl
  · rw [← h.param]
    show (v.subscribe c _ _ _).param = v.param
    rw [heq]
    rfl

/-- The loop body of `handle_subscribe`. -/
theorem returns_subscribeEntry {done : List SubscribeEntry} {g : Granting}
    (h : w.Grants c done g v) (entry : SubscribeEntry) :
    Returns (subscribeEntry c g entry) (fun g' => w.Grants c (done ++ [entry]) g') v := by
  have hskip : ∀ {returnCode}, entry.granted = false → (returnCode < 3 ∨ returnCode = 0x80) →
      ∀ {u : World}, w.Grants c done g u →
        Returns (g.code returnCode) (fun g' => w.Grants c (done ++ [entry]) g') u := by
    intro returnCode hentry hcode u hu
    refine (returns_code hcode u).mono fun g' u' hcoded => ?_
    obtain ⟨hu', htopics, hwild⟩ := hcoded
    rw [hu']
    exact hu.skip hentry htopics hwild
  rw [subscribeEntry]
  split_ifs with hq hd hadmin htrash hwild
  · refine returns_modify_bind (hskip (by simp [SubscribeEntry.granted, hd]) (.inl hq) ?_)
    exact ⟨h.topics, h.wildTopics, h.subscribed, h.sent, h.retainedAt, h.lastRetain, h.param⟩
  · exact hskip (by simp [SubscribeEntry.granted, hd]) (.inr rfl) h
  · exact hskip (by simp [SubscribeEntry.granted, hd]) (.inr rfl) h
  · refine returns_modify_bind ((returns_code (.inl hq) _).mono fun g' u hcoded => ?_)
    obtain ⟨hu, htopics, hwild'⟩ := hcoded
    rw [hu]
    exact h.enter (by simp [SubscribeEntry.granted, hq, hd]) (by simp [htopics, hwild])
      (by simp [hwild', hwild])
  · refine returns_modify_bind ((returns_code (.inl hq) _).mono fun g' u hcoded => ?_)
    obtain ⟨hu, htopics, hwild'⟩ := hcoded
    rw [hu]
    exact h.enter (by simp [SubscribeEntry.granted, hq, hd]) (by simp [htopics, hwild])
      (by simp [hwild', hwild])
  · exact hskip (by simp [SubscribeEntry.granted, hq]) (.inr rfl) h

/-! ## The whole answer -/

/-- What a client at a channel is sent for an entry. -/
def World.answer (w : World) (it : Iteration) (k : ChannelId) (c : MqttClient)
    (entry : SubscribeEntry) : List Sent :=
  (w.retainedMatching it entry.isWild entry.topicFilter).map fun m =>
    ⟨k, some c, true, m.topicName, m.payload⟩

/-- The retained messages that match the filters of entries are the answers to the
    entries, one after the other. -/
theorem answers_flatten {u : World} {b : Bool} (it : Iteration) (hc : u.param k = some c)
    (hk : c.channelId = k) (l : List SubscribeEntry) (hl : ∀ entry ∈ l, entry.isWild = b) :
    ((l.map SubscribeEntry.topicFilter).flatMap (u.retainedMatching it b)).map (u.sentTo c true) =
      (l.map (u.answer it k c)).flatten := by
  induction l with
  | nil => rfl
  | cons entry l ih =>
    have hentry : (u.retainedMatching it entry.isWild entry.topicFilter).map (u.sentTo c true) =
        u.answer it k c entry := by
      refine List.map_congr_left fun m _ => ?_
      rw [World.sentTo, hk, hc]
    rw [List.map_cons, List.map_cons, List.flatMap_cons, List.map_append, List.flatten_cons,
      ih fun e he => hl e (List.mem_cons_of_mem _ he), ← hentry, hl entry List.mem_cons_self]

/-- A SUBSCRIBE is answered entry by entry. -/
theorem returns_handleSubscribe (h : w.RetainedInv) (it : Iteration) (hc : w.param k = some c)
    (hk : c.channelId = k) : Returns (handleSubscribe it k p) (fun _ w' => ∃ v : World,
      v.RetainedInv ∧ v.lastRetain = w.lastRetain ∧
        w'.sent = w.sent ++ (p.granted.map (v.answer it k c)).flatten) w := by
  rw [Returns, handleSubscribe, agent_bind_apply hc]
  have hstart : w.Grants c [] ⟨mqttSuback p.packetId, [], []⟩
      (w.record (.handled c (.subscribe p))) :=
    ⟨rfl, rfl, by simp, sent_record w rfl, rfl, funext fun f => lastRetain_record w _ f, rfl⟩
  refine returns_bind (returns_foldEach (I := fun done g v => w.Grants c done g v)
    (fun done entry _ g v hv => returns_subscribeEntry hv entry) hstart) fun g v hv => ?_
  have hsent : (v.write k (.suback g.suback)).sent = w.sent := (sent_record v rfl).trans hv.sent
  have hparam : (v.write k (.suback g.suback)).param = w.param := hv.param
  have hlast : (v.write k (.suback g.suback)).lastRetain = w.lastRetain :=
    (funext fun f => lastRetain_record v _ f).trans hv.lastRetain
  have hinv : (v.write k (.suback g.suback)).RetainedInv :=
    retention_of_same hv.retainedAt hlast (fun _ _ hc => hparam ▸ hc) h
  have hsubscribed : ∀ b f, v.Subscribed c b f → (v.write k (.suback g.suback)).Subscribed c b f :=
    fun _ _ h => h
  refine returns_modify_bind ?_
  generalize v.write k (.suback g.suback) = u at hsent hparam hlast hinv hsubscribed
  have hcu : u.param k = some c := hparam ▸ hc
  refine (returns_publishRetainedMessage it (fun f m hm => (hinv.message hm).2) hcu
    ?_ ?_).mono fun _ w' h => ⟨u, hinv, hlast, ?_⟩
  · intro f hf
    rw [hv.topics] at hf
    obtain ⟨entry, hentry, rfl⟩ := List.mem_map.1 hf
    obtain ⟨hmem, hgranted⟩ := List.mem_filter.1 hentry
    simp only [Bool.and_eq_true, Bool.not_eq_true'] at hgranted
    exact hsubscribed _ _ (hgranted.2 ▸ hv.subscribed entry hmem hgranted.1)
  · intro f hf
    rw [hv.wildTopics] at hf
    obtain ⟨entry, hentry, rfl⟩ := List.mem_map.1 hf
    obtain ⟨hmem, hgranted⟩ := List.mem_filter.1 hentry
    simp only [Bool.and_eq_true] at hgranted
    exact hsubscribed _ _ (hgranted.2 ▸ hv.subscribed entry hmem hgranted.1)
  · rw [h.1, hsent, hv.topics, hv.wildTopics, MqttSubscribe.granted, List.map_append,
      List.map_append, List.flatten_append, answers_flatten it hcu hk (b := false),
      answers_flatten it hcu hk (b := true)]
    · exact fun entry he => ((Bool.and_eq_true_iff).1 (List.mem_filter.1 he).2).2
    · intro entry he
      simpa using ((Bool.and_eq_true_iff).1 (List.mem_filter.1 he).2).2

/-! ## What is owed -/

theorem mem_retainedMatching (it : Iteration) (entry : SubscribeEntry) (m : MqttPublish) :
    m ∈ w.retainedMatching it entry.isWild entry.topicFilter ↔
      ∃ topicName, entry.Matches topicName ∧ w.retainedAt topicName = some m := by
  simp only [World.retainedMatching, SubscribeEntry.Matches]
  split_ifs with hwild
  · rw [List.mem_filterMap]
    constructor
    · rintro ⟨t, ht, hm⟩
      split_ifs at hm with hmatch
      refine ⟨t.topicFilter, hmatch, w.retainedAt_eq_some.2 ⟨t, ?_, hm⟩⟩
      exact Keyed.find_eq_some.2 ⟨(it.perm _).mem_iff.1 ht, rfl⟩
    · rintro ⟨topicName, hmatch, hm⟩
      obtain ⟨t, ht, hret⟩ := w.retainedAt_eq_some.1 hm
      obtain rfl := World.topicFilter_of_topicAt ht
      exact ⟨t, (it.perm _).mem_iff.2 (Keyed.find_eq_some.1 ht).1, by rw [if_pos hmatch, hret]⟩
  · rw [Option.mem_toList, exists_eq_left]

/-- A client is sent, for an entry, what the matching topics retain. -/
theorem mem_answer (h : w.RetainedInv) (it : Iteration) (k : ChannelId) (c : MqttClient)
    (entry : SubscribeEntry) (x : Sent) : x ∈ w.answer it k c entry ↔
      ∃ topicName payload, entry.Matches topicName ∧
        (payload ≠ [] ∧ w.lastRetain topicName = some (payload, true)) ∧
          x = ⟨k, some c, true, topicName, payload⟩ := by
  simp only [World.answer, List.mem_map, mem_retainedMatching, ← h.last]
  constructor
  · rintro ⟨m, ⟨topicName, hmatch, hm⟩, rfl⟩
    obtain rfl := (h.message hm).1
    exact ⟨_, _, hmatch, ⟨m, hm, rfl⟩, rfl⟩
  · rintro ⟨topicName, payload, hmatch, ⟨m, hm, rfl⟩, rfl⟩
    exact ⟨m, ⟨topicName, hmatch, hm⟩, by rw [(h.message hm).1]⟩

/-- No topic is answered twice. -/
theorem nodup_answer (h : w.RetainedInv) (it : Iteration) (k : ChannelId) (c : MqttClient)
    (entry : SubscribeEntry) : ((w.answer it k c entry).map Sent.topicName).Nodup := by
  have hmap : (w.answer it k c entry).map Sent.topicName =
      (w.retainedMatching it entry.isWild entry.topicFilter).map MqttPublish.topicName := by
    rw [World.answer, List.map_map]
    rfl
  rw [hmap, World.retainedMatching]
  split_ifs with hwild
  · -- A topic retains a message of its own name, and topics differ in their names.
    have hsub : ∀ l : List Topic, (∀ t ∈ l, t ∈ w.topics false) → ((l.filterMap fun t =>
        if topicMatch entry.topicFilter t.topicFilter then t.retainedMessage else none).map
          MqttPublish.topicName).Sublist (l.map Topic.topicFilter) := by
      intro l hl
      induction l with
      | nil => exact .slnil
      | cons t l ih =>
        have ih := ih fun t ht => hl t (List.mem_cons_of_mem _ ht)
        rw [List.filterMap_cons]
        split
        · exact ih.cons _
        · next m hm =>
          split_ifs at hm
          have htopic : m.topicName = t.topicFilter := (h.message (w.retainedAt_eq_some.2
            ⟨t, Keyed.find_eq_some.2 ⟨hl t List.mem_cons_self, rfl⟩, hm⟩)).1
          rw [List.map_cons, htopic]
          exact ih.cons_cons _
    refine List.Nodup.sublist (hsub _ fun t ht => (it.perm _).mem_iff.1 ht) ?_
    exact ((it.perm _).map _).nodup_iff.2 (w.topics false).nodup
  · cases w.retainedAt entry.topicFilter <;> simp

/-- An entry is answered by what is owed exactly when no topic it matches was
    missed. -/
theorem answers_answer (h : w.RetainedInv) (it : Iteration) (k : ChannelId) (c : MqttClient)
    (entry : SubscribeEntry) :
    w.Answers k c entry (w.answer it k c entry) ↔ ∀ t, entry.Matches t → ¬w.Missed t := by
  constructor
  · rintro ⟨-, hanswers⟩ t hmatch ⟨payload, hne, hlast⟩
    have hmem := (hanswers _).2 ⟨t, payload, hmatch, ⟨hne, false, hlast⟩, rfl⟩
    obtain ⟨t', payload', -, ⟨-, hlast'⟩, heq⟩ := (mem_answer h it k c entry _).1 hmem
    cases heq
    cases hlast.symm.trans hlast'
  · refine fun hnot => ⟨nodup_answer h it k c entry, fun x => ?_⟩
    rw [mem_answer h]
    constructor
    · rintro ⟨t, payload, hmatch, ⟨hne, hlast⟩, rfl⟩
      exact ⟨t, payload, hmatch, ⟨hne, true, hlast⟩, rfl⟩
    · rintro ⟨t, payload, hmatch, ⟨hne, known, hlast⟩, rfl⟩
      cases known with
      | true => exact ⟨t, payload, hmatch, ⟨hne, hlast⟩, rfl⟩
      | false => exact absurd ⟨payload, hne, hlast⟩ (hnot t hmatch)

/-! ## Runs -/

theorem exists_of_forall₂ {α β : Type} {R : α → β → Prop} {l : List α} {l' : List β}
    (h : List.Forall₂ R l l') {a : α} (ha : a ∈ l) : ∃ b ∈ l', R a b := by
  induction h with
  | nil => exact absurd ha List.not_mem_nil
  | cons hab _ ih =>
    rcases List.mem_cons.1 ha with rfl | ha
    · exact ⟨_, List.mem_cons_self, hab⟩
    · obtain ⟨b, hb, hr⟩ := ih ha
      exact ⟨b, List.mem_cons_of_mem _ hb, hr⟩

/-- A SUBSCRIBE of a client in a reachable state: its entries are answered
    exactly when no topic they match was missed, and so is each of them. -/
theorem answered_iff (h : (broker cfg).Reachable w) (hst : (broker cfg).step w e = some w')
    (hp : e.packet = some (.subscribe p)) (hc : w.param e.action.channelId = some c) :
    (w.Answered e.action.channelId c p w' ↔
      ∀ entry ∈ p.granted, ∀ t, entry.Matches t → ¬w.Missed t) ∧
    ∃ answers : List (List Sent), w'.sent = w.sent ++ answers.flatten ∧
      List.Forall₂ (fun entry xs => w.Answers e.action.channelId c entry xs ↔
        ∀ t, entry.Matches t → ¬w.Missed t) p.granted answers := by
  have hk : c.channelId = e.action.channelId := (valid_of_reachable h).holder_channel hc
  obtain ⟨v, hv, hlast, hsent⟩ := returns_step hst hp (Q := fun w' => ∃ v : World,
    v.RetainedInv ∧ v.lastRetain = w.lastRetain ∧ w'.sent = w.sent ++
      (p.granted.map (v.answer e.iteration e.action.channelId c)).flatten)
    (returns_handleSubscribe (retainedInv_of_reachable h) e.iteration hc hk)
  have hanswers : ∀ entry, w.Answers e.action.channelId c entry
      (v.answer e.iteration e.action.channelId c entry) ↔
        ∀ t, entry.Matches t → ¬w.Missed t := by
    intro entry
    have := answers_answer hv e.iteration e.action.channelId c entry
    simp only [World.Answers, World.Missed, World.Owes, hlast] at this
    exact this
  have hall : ∀ R : SubscribeEntry → List Sent → Prop,
      List.Forall₂ R p.granted (p.granted.map (v.answer e.iteration e.action.channelId c)) ↔
        ∀ entry ∈ p.granted, R entry (v.answer e.iteration e.action.channelId c entry) := by
    intro R
    rw [List.forall₂_map_right_iff, List.forall₂_same]
  refine ⟨⟨?_, fun hnot => ?_⟩, _, hsent, (hall _).2 fun entry _ => hanswers entry⟩
  · -- What is owed for a missed topic is not written, whichever way the answers are told apart.
    rintro ⟨answers, hflatten, hanswered⟩ entry hentry t hmatch ⟨payload, hne, hmissed⟩
    obtain ⟨xs, hxs, -, hexact⟩ := exists_of_forall₂ hanswered hentry
    have hwritten := List.mem_flatten.2
      ⟨xs, hxs, (hexact _).2 ⟨t, payload, hmatch, ⟨hne, false, hmissed⟩, rfl⟩⟩
    rw [← List.append_cancel_left (hsent.symm.trans hflatten)] at hwritten
    obtain ⟨_, hys, hwritten⟩ := List.mem_flatten.1 hwritten
    obtain ⟨entry', -, rfl⟩ := List.mem_map.1 hys
    obtain ⟨t', payload', -, ⟨-, hlast'⟩, heq⟩ := (mem_answer hv _ _ c entry' _).1 hwritten
    cases heq
    rw [hlast] at hlast'
    cases hmissed.symm.trans hlast'
  · exact ⟨_, hsent, (hall _).2 fun entry hentry => (hanswers entry).2 (hnot entry hentry)⟩

/-- A message to retain comes when a client is subscribed, and another client
    that subscribes is sent it. -/
theorem answered_retained : ∃ w w' c p, (broker mqttdCfg).Reachable w ∧
    (broker mqttdCfg).step w (Action.read 2 (subscribeBytes [0x74] 0x01)).event = some w' ∧
    w.Owes [0x74] [0x01] ∧ w.Answered 2 c p w' := by
  have hp : (Action.read 2 (subscribeBytes [0x74] 0x01)).event.packet =
      some (.subscribe ⟨⟨.subscribe, 2, 6⟩, 1, [⟨[0x74], 1, false⟩]⟩) := by
    decide +kernel
  have hruns : runs (fun _ _ => true)
      [.accept 1, .accept 2, .read 1 (connectBytes 0x02 [0x61] []),
        .read 2 (connectBytes 0x02 [0x62] []), .read 1 (subscribeBytes [0x74] 0x01),
        .read 1 (publishBytes 0x01 [0x74] [] [0x01])]
      (fun w => ((broker mqttdCfg).step w
          (Action.read 2 (subscribeBytes [0x74] 0x01)).event).any fun _ =>
        (w.param 2).any fun _ => w.lastRetain [0x74] = some ([0x01], true)) = true := by
    decide +kernel
  obtain ⟨l, w, w', hl, -, hst, hrun⟩ := exists_run_step hruns
  obtain ⟨c, hc, hlast⟩ := Option.any_eq_true _ _ |>.1 hrun
  have hlast : w.lastRetain [0x74] = some ([0x01], true) := of_decide_eq_true hlast
  refine ⟨w, w', c, _, hl.reachable, hst, ⟨by decide, true, hlast⟩,
    (answered_iff hl.reachable hst hp hc).1.2 fun entry hentry t hmatch => ?_⟩
  obtain rfl := List.mem_singleton.1 hentry
  obtain rfl : t = [0x74] := hmatch
  rintro ⟨payload, -, hmissed⟩
  cases hlast.symm.trans hmissed

/-- A message to retain comes when no client is subscribed, and the client that
    subscribes then is sent nothing. -/
theorem retained_without_subscriber_lost : ¬∀ w e w' p c, (broker mqttdCfg).Reachable w →
    (broker mqttdCfg).step w e = some w' → e.packet = some (.subscribe p) →
    w.param e.action.channelId = some c → w.Answered e.action.channelId c p w' := by
  intro h
  have hp : (Action.read 1 (subscribeBytes [0x74] 0x01)).event.packet =
      some (.subscribe ⟨⟨.subscribe, 2, 6⟩, 1, [⟨[0x74], 1, false⟩]⟩) := by
    decide +kernel
  have hruns : runs (fun _ _ => true)
      [.accept 1, .read 1 (connectBytes 0x02 [0x61] []),
        .read 1 (publishBytes 0x01 [0x74] [] [0x01])]
      (fun w => ((broker mqttdCfg).step w
          (Action.read 1 (subscribeBytes [0x74] 0x01)).event).any fun w' =>
        (w.param 1).any fun _ =>
          decide (w.lastRetain [0x74] = some ([0x01], false)) && decide (w'.sent = [])) = true := by
    decide +kernel
  obtain ⟨l, w, w', hl, -, hst, hrun⟩ := exists_run_step hruns
  obtain ⟨c, hc, hrun⟩ := Option.any_eq_true _ _ |>.1 hrun
  obtain ⟨hlast, hsent⟩ := Bool.and_eq_true_iff.1 hrun
  obtain ⟨answers, hflatten, hanswered⟩ := h w _ w' _ c hl.reachable hst hp hc
  obtain ⟨xs, hxs, -, hexact⟩ := exists_of_forall₂ hanswered (List.mem_singleton_self _)
  have howed := (hexact ⟨1, some c, true, [0x74], [0x01]⟩).2
    ⟨[0x74], [0x01], rfl, ⟨by decide, false, of_decide_eq_true hlast⟩, rfl⟩
  have hnone : answers.flatten = [] :=
    (List.append_eq_nil_iff.1 (hflatten.symm.trans (of_decide_eq_true hsent))).2
  exact absurd (List.mem_flatten.2 ⟨xs, hxs, howed⟩) (by simp [hnone])

end MqttBroker
