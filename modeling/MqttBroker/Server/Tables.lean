import Mathlib.Tactic.Common
import MqttBroker.Server.Handlers

/-!
# What the functions on the tables do

One lemma for each function of `World` that changes a table, and each view of
it the proofs go by: the parameter of a channel (`World.param`), the topic at a
place (`World.topicAt`), the sessions. Everything else about these functions
holds by unfolding them.
-/

namespace MqttBroker

namespace World

variable (w : World) (k : ChannelId) (c : MqttClient)

/-- What is read off the history, when something is recorded. -/
theorem filterMap_record {β : Type} (f : Effect → Option β) (e : Effect) :
    (w.record e).log.filterMap f = w.log.filterMap f ++ (f e).toList := by
  rw [record, List.filterMap_append, List.filterMap_cons]
  cases f e <;> rfl

/-! ## Channels -/

variable {w} in
/-- A client is at a channel that is there. -/
theorem isSome_contexts_of_param {k : ChannelId} {c : MqttClient} (hc : w.param k = some c) :
    (w.contexts k).isSome = true := by
  obtain ⟨ctx, hctx, -⟩ := Option.bind_eq_some_iff.1 hc
  rw [hctx]
  rfl

theorem param_setParam (p : Option MqttClient) (k' : ChannelId) :
    (w.setParam k p).param k' =
      if k' = k then (if (w.contexts k).isSome then p else none) else w.param k' := by
  simp only [param, setParam, modifyContext, Function.update_apply]
  split_ifs with hk hs
  · obtain ⟨ctx, hctx⟩ := Option.isSome_iff_exists.1 hs
    simp [hctx]
  · simp [Option.not_isSome_iff_eq_none.1 hs]
  · rfl

/-- Detaching a channel does not depend on whether it is there. -/
theorem param_setParam_none : (w.setParam k none).param = Function.update w.param k none := by
  funext k'
  rw [param_setParam, ite_self, Function.update_apply]

/-- The client is put at a channel that is there. -/
theorem param_setParam_some (h : (w.contexts k).isSome) :
    (w.setParam k (some c)).param = Function.update w.param k (some c) := by
  funext k'
  rw [param_setParam, if_pos h, Function.update_apply]

@[simp] theorem param_close : (w.close k).param = w.param := by
  funext k'
  simp only [param, close, modifyContext, Function.update_apply]
  split_ifs with hk
  · subst hk
    cases w.contexts k' <;> rfl
  · rfl

theorem isSome_contexts_modifyContext (f : Context → Context) (k' : ChannelId) :
    ((w.modifyContext k f).contexts k').isSome = (w.contexts k').isSome := by
  simp only [modifyContext, Function.update_apply]
  split_ifs with hk
  · rw [hk, Option.isSome_map]
  · rfl

theorem log_takeOver (x : Bytes) : (w.takeOver x).log = w.log := by
  rw [takeOver]
  split <;> rfl

/-- The clients at the channels that are left when one is displaced. -/
theorem param_takeOver (x : Bytes) {c : MqttClient} (h : (w.takeOver x).param k = some c) :
    w.param k = some c := by
  rw [takeOver] at h
  split at h
  · exact h
  · rw [param_close, param_setParam_none, Function.update_apply] at h
    split_ifs at h
    exact h

theorem isSome_contexts_takeOver (x : Bytes) :
    ((w.takeOver x).contexts k).isSome = (w.contexts k).isSome := by
  rw [takeOver]
  split
  · rfl
  · rw [close, isSome_contexts_modifyContext, setParam, isSome_contexts_modifyContext]
    rfl

theorem isSome_contexts_greet (cfg : Config) (packet : MqttConnect) (k' : ChannelId) :
    ((w.greet cfg k packet).contexts k').isSome = (w.contexts k').isSome := by
  have h : ∀ v : World, v.contexts = w.contexts →
      ((v.close k).contexts k').isSome = (w.contexts k').isSome := by
    intro v hv
    rw [close, isSome_contexts_modifyContext, hv]
  rw [greet]
  split_ifs
  · exact (isSome_contexts_modifyContext _ _ _ _).trans (h w rfl)
  · exact h _ rfl
  · exact h w rfl
  · rfl

theorem log_greet (cfg : Config) (packet : MqttConnect) : (w.greet cfg k packet).log = w.log := by
  rw [greet]
  split_ifs <;> rfl

theorem param_greet (cfg : Config) (packet : MqttConnect) :
    (w.greet cfg k packet).param = w.param := by
  have h : ∀ v : World, v.contexts = w.contexts → v.param = w.param := by
    intro v hv
    funext k'
    rw [param, hv, param]
  rw [greet]
  split_ifs
  · rw [param_close]
    exact w.param_close k
  · rw [param_close]
    exact h _ rfl
  · exact w.param_close k
  · exact h _ rfl

theorem regClientPtr_eq : w.regClientPtr c = { w with clients := (w.regClientPtr c).clients } := by
  rw [regClientPtr]
  split <;> rfl

/-! ## Sessions -/

/-- The state with a new session stored under an id. -/
def storeSession (x : Bytes) : World :=
  { w with
    sessions := Function.update w.sessions x (some w.nextSession)
    session := Function.update w.session w.nextSession Session.new
    nextSession := w.nextSession + 1 }

/-- A client is given the stored session, or a new one, which is stored. -/
theorem attachSession_cases :
    (∃ s, c.cleanSession = false ∧ w.sessions c.clientId = some s ∧
      w.attachSession c = (c.setSessionPtr s, true, w)) ∨
    ((c.cleanSession = true ∨ w.sessions c.clientId = none) ∧
      w.attachSession c = (c.setSessionPtr w.nextSession, false, w.storeSession c.clientId)) := by
  have hreg : ∀ v : World, v.sessions c.clientId = none →
      v.makeSession.regSessionPtr c.clientId v.nextSession = v.storeSession c.clientId := by
    intro v hv
    rw [regSessionPtr, show v.makeSession.getSessionPtr c.clientId = none from hv]
    rfl
  by_cases hc : c.cleanSession = true
  · refine .inr ⟨.inl hc, ?_⟩
    have := hreg (w.deleteSessionPtr c.clientId) (Function.update_self _ _ _)
    simp only [attachSession, if_pos hc]
    refine congrArg (fun v => (c.setSessionPtr w.nextSession, false, v)) (this.trans ?_)
    simp only [storeSession, deleteSessionPtr, Function.update_idem]
  · rw [attachSession, if_neg hc, getSessionPtr]
    cases hs : w.sessions c.clientId with
    | none =>
      refine .inr ⟨.inr rfl, ?_⟩
      exact congrArg (fun v => (c.setSessionPtr w.nextSession, false, v)) (hreg w hs)
    | some s => exact .inl ⟨s, Bool.not_eq_true _ ▸ hc, rfl, rfl⟩

/-- Giving a client its session is no business of the channels and topics. -/
theorem attachSession_frame : (w.attachSession c).2.2.contexts = w.contexts ∧
    (w.attachSession c).2.2.topics = w.topics ∧
    (w.attachSession c).2.2.trashTopic = w.trashTopic ∧
    (w.attachSession c).2.2.log = w.log := by
  rcases w.attachSession_cases c with ⟨s, -, -, h⟩ | ⟨-, h⟩ <;> rw [h] <;> exact ⟨rfl, rfl, rfl, rfl⟩

theorem session_modifySession (s : SessionRef) (f : Session → Session) (s' : SessionRef) :
    (w.modifySession s f).session s' = if s' = s then f (w.session s) else w.session s' := by
  simp only [modifySession, Function.update_apply]

/-! ## Topics -/

variable {w}

theorem topicFilter_of_topicAt {b : Bool} {f : Bytes} {t : Topic}
    (h : w.topicAt (.entry b f) = some t) : t.topicFilter = f :=
  (Keyed.mem_of_find h).2

variable (w)

theorem topicAt_setTopic {b : Bool} {f : Bytes} {t : Topic} (ht : t.topicFilter = f) (b' : Bool)
    (g : Bytes) : (w.setTopic (.entry b f) t).topicAt (.entry b' g) =
      if b' = b ∧ g = f then some t else w.topicAt (.entry b' g) := by
  simp only [topicAt, setTopic, Function.update_apply]
  by_cases hb : b' = b
  · subst hb
    rw [if_pos rfl, Keyed.find_put, ht]
    simp
  · rw [if_neg hb, if_neg fun h => hb h.1]

theorem topicAt_eraseTopic (b : Bool) (f : Bytes) (b' : Bool) (g : Bytes) :
    (w.eraseTopic b f).topicAt (.entry b' g) =
      if b' = b ∧ g = f then none else w.topicAt (.entry b' g) := by
  simp only [topicAt, eraseTopic, Function.update_apply]
  by_cases hb : b' = b
  · subst hb
    rw [if_pos rfl, Keyed.find_erase]
    simp
  · rw [if_neg hb, if_neg fun h => hb h.1]

/-- Changing a topic, but not its filter, changes it at its place only. -/
theorem topicAt_modifyTopic {u : Topic → Topic} (hu : ∀ t, (u t).topicFilter = t.topicFilter)
    (p : TopicPtr) (b : Bool) (f : Bytes) : (w.modifyTopic p u).topicAt (.entry b f) =
      if p = .entry b f then (w.topicAt p).map u else w.topicAt (.entry b f) := by
  cases hp : w.topicAt p with
  | none =>
    rw [modifyTopic, hp]
    split_ifs with h
    · rw [← h, hp]
      rfl
    · rfl
  | some t =>
    rw [modifyTopic, hp]
    cases p with
    | trash =>
      rw [if_neg TopicPtr.noConfusion]
      rfl
    | entry b' f' =>
      show (w.setTopic (.entry b' f') (u t)).topicAt (.entry b f) = _
      rw [topicAt_setTopic _ ((hu t).trans (topicFilter_of_topicAt hp))]
      simp only [TopicPtr.entry.injEq, Option.map_some, eq_comm (a := b), eq_comm (a := f)]

theorem modifyTopic_entry_eq (b : Bool) (f : Bytes) (u : Topic → Topic) :
    w.modifyTopic (.entry b f) u = { w with topics := (w.modifyTopic (.entry b f) u).topics } := by
  rw [modifyTopic]
  split <;> rfl

theorem subscribe_eq (f : Bytes) (q : Nat) (b : Bool) :
    w.subscribe c f q b = { w with topics := (w.subscribe c f q b).topics } := by
  have h : w.getTopicPtrToSubscribe f b =
      { w with topics := (w.getTopicPtrToSubscribe f b).topics } := by
    rw [getTopicPtrToSubscribe]
    split <;> rfl
  rw [subscribe, modifyTopic_entry_eq, h]

theorem unsubscribe_eq (f : Bytes) (b : Bool) :
    w.unsubscribe c f b = { w with topics := (w.unsubscribe c f b).topics } := by
  rw [unsubscribe]
  split
  · rfl
  · split_ifs <;> rfl

/-- The topic subscribed to is there, and has the client. -/
theorem topicAt_subscribe (f : Bytes) (q : Nat) (b : Bool) (b' : Bool) (g : Bytes) :
    (w.subscribe c f q b).topicAt (.entry b' g) =
      if b' = b ∧ g = f then
        some (((w.topicAt (.entry b f)).getD (Topic.new f)).subscribe c q)
      else w.topicAt (.entry b' g) := by
  have hfilter : ∀ t : Topic, (t.subscribe c q).topicFilter = t.topicFilter := fun _ => rfl
  rw [subscribe, topicAt_modifyTopic _ hfilter, getTopicPtrToSubscribe]
  simp only [TopicPtr.entry.injEq, eq_comm (a := b), eq_comm (a := f)]
  cases hp : w.topicAt (.entry b f) with
  | none =>
    have hset : ∀ b' g, (w.setTopic (.entry b f) (Topic.new f)).topicAt (.entry b' g) =
        if b' = b ∧ g = f then some (Topic.new f) else w.topicAt (.entry b' g) :=
      topicAt_setTopic w rfl
    simp only [hset, and_self, if_true, Option.map_some, Option.getD_none]
    split_ifs <;> rfl
  | some t => simp only [hp, Option.map_some, Option.getD_some]

/-- The topic unsubscribed from has not the client, and is not there when it is
    empty. -/
theorem topicAt_unsubscribe (f : Bytes) (b : Bool) (b' : Bool) (g : Bytes) :
    (w.unsubscribe c f b).topicAt (.entry b' g) =
      if b' = b ∧ g = f then
        ((w.topicAt (.entry b f)).map fun t => t.unsubscribe c).filter fun t => !t.empty
      else w.topicAt (.entry b' g) := by
  rw [unsubscribe]
  cases hp : w.topicAt (.entry b f) with
  | none =>
    simp only [Option.map_none, Option.filter_none]
    split_ifs with h
    · rw [h.1, h.2, hp]
    · rfl
  | some t =>
    simp only [Option.map_some]
    by_cases he : (t.unsubscribe c).empty = true
    · rw [if_pos he, topicAt_eraseTopic, Option.filter_some, he]
      rfl
    · have ht : t.topicFilter = f := topicFilter_of_topicAt hp
      rw [if_neg he, topicAt_setTopic _ (show (t.unsubscribe c).topicFilter = f from ht),
        Option.filter_some, Bool.eq_false_iff.2 he]
      rfl

/-- What is about the topics, item by item, is so for a list. -/
theorem foldl_topics_eq {α : Type} {f : World → α → World}
    (hf : ∀ w a, f w a = { w with topics := (f w a).topics }) (l : List α) (w : World) :
    l.foldl f w = { w with topics := (l.foldl f w).topics } := by
  induction l generalizing w with
  | nil => rfl
  | cons a l ih => rw [List.foldl_cons, ih, hf]

theorem unsubscribeAll_eq :
    w.unsubscribeAll c = { w with topics := (w.unsubscribeAll c).topics } :=
  foldl_topics_eq (fun w sub => w.unsubscribe_eq c sub.topicFilter sub.isWild) _ w

/-- The topics listed in the session have not the client, and are not there when
    they are empty. -/
theorem topicAt_unsubscribeAll (b : Bool) (f : Bytes) :
    (w.unsubscribeAll c).topicAt (.entry b f) =
      if ∃ sub ∈ (w.session c.session).subscriptions.elems, sub.topicFilter = f ∧ sub.isWild = b then
        ((w.topicAt (.entry b f)).map fun t => t.unsubscribe c).filter fun t => !t.empty
      else w.topicAt (.entry b f) := by
  rw [unsubscribeAll]
  generalize (w.session c.session).subscriptions.elems = subs
  induction subs generalizing w with
  | nil => simp
  | cons sub subs ih =>
    rw [List.foldl_cons, ih, topicAt_unsubscribe]
    simp only [List.exists_mem_cons_iff]
    by_cases hsub : b = sub.isWild ∧ f = sub.topicFilter
    · obtain ⟨rfl, rfl⟩ := hsub
      simp only [and_self, if_true, true_or]
      split_ifs
      · -- Taking the client out once more makes no difference.
        cases w.topicAt (.entry sub.isWild sub.topicFilter) with
        | none => rfl
        | some t =>
          rw [Option.map_some, Option.filter_some]
          split_ifs with he
          · rw [Option.map_some, Topic.unsubscribe_unsubscribe, Option.filter_some, if_pos he]
          · rfl
      · rfl
    · have hne : ¬(sub.topicFilter = f ∧ sub.isWild = b) := fun h => hsub ⟨h.2.symm, h.1.symm⟩
      simp only [if_neg hsub, hne, false_or]

/-- Removing a client is about the topics, the stored sessions and the clients. -/
theorem remove_eq : w.remove c = { w with
    topics := (w.remove c).topics
    sessions := (w.remove c).sessions
    clients := (w.remove c).clients } := by
  rw [remove, unsubscribeAll_eq]
  split_ifs <;> rfl

@[simp] theorem param_remove : (w.remove c).param = w.param := by
  rw [remove_eq]
  rfl

/-- Removing a client does not depend on the channels. -/
theorem remove_contexts (contexts : ChannelId → Option Context) :
    ({ w with contexts := contexts } : World).remove c =
      { w.remove c with contexts := contexts } := by
  have hone : ∀ (w : World) f b, ({ w with contexts := contexts } : World).unsubscribe c f b =
      { w.unsubscribe c f b with contexts := contexts } := by
    intro w f b
    have ht : ({ w with contexts := contexts } : World).topicAt (.entry b f) =
        w.topicAt (.entry b f) := rfl
    rw [unsubscribe, unsubscribe, ht]
    split
    · rfl
    · split_ifs <;> rfl
  have hall (subs : List Subscription) : subs.foldl
      (fun w sub => w.unsubscribe c sub.topicFilter sub.isWild)
        ({ w with contexts := contexts } : World) = { subs.foldl
          (fun w sub => w.unsubscribe c sub.topicFilter sub.isWild) w with contexts := contexts } :=
    List.foldl_hom (fun w : World => { w with contexts := contexts })
      fun w sub => hone w sub.topicFilter sub.isWild
  rw [remove, remove, unsubscribeAll, unsubscribeAll]
  simp only [hall]
  split_ifs <;> rfl

theorem unsubscribeEntry_log (entry : UnsubscribeEntry) :
    (w.unsubscribeEntry c entry).log = w.log := by
  rw [unsubscribeEntry]
  split
  · rfl
  · show (w.unsubscribe c _ _).log = w.log
    rw [unsubscribe_eq]

/-- Storing a retained message is about the topics. -/
theorem storeRetained_eq (p : TopicPtr) (m : MqttPublish) : w.storeRetained p m = { w with
    topics := (w.storeRetained p m).topics
    trashTopic := (w.storeRetained p m).trashTopic } := by
  rw [storeRetained, modifyTopic]
  split_ifs
  · split
    · rfl
    · cases p <;> rfl
  · rfl

/-- The subscribers of the topic at a place. -/
def subscribersAt (p : TopicPtr) : List Subscriber :=
  (w.topicAt p).elim [] fun t => t.clients.elems

/-- The subscribers are those of the topics. -/
theorem subscribersAt_of_topics {v : World} (htopics : v.topics = w.topics)
    (htrash : v.trashTopic = w.trashTopic) : v.subscribersAt = w.subscribersAt := by
  funext p
  cases p with
  | trash =>
    rw [subscribersAt, topicAt, htrash]
    rfl
  | entry b f =>
    rw [subscribersAt, topicAt, htopics]
    rfl

/-- Storing a retained message is no business of the subscribers. -/
theorem subscribersAt_storeRetained (p : TopicPtr) (m : MqttPublish) (p' : TopicPtr) :
    (w.storeRetained p m).subscribersAt p' = w.subscribersAt p' := by
  rw [storeRetained]
  split_ifs
  · cases p' with
    | trash =>
      cases p with
      | trash => rfl
      | entry b f =>
        rw [subscribersAt, modifyTopic_entry_eq]
        rfl
    | entry b f =>
      rw [subscribersAt, topicAt_modifyTopic w (u := fun t => t.retain m) fun _ => rfl]
      split_ifs with hp
      · rw [hp, subscribersAt]
        cases w.topicAt (.entry b f) <;> rfl
      · rfl
  · rfl

/-- A client that subscribes becomes a subscriber. -/
theorem mem_subscribersAt_subscribe {f : Bytes} {q : Nat} {b : Bool} {p : TopicPtr} {s : Subscriber}
    (hs : s ∈ (w.subscribe c f q b).subscribersAt p) : s = ⟨c, q⟩ ∨ s ∈ w.subscribersAt p := by
  cases p with
  | trash =>
    rw [subscribersAt, subscribe_eq] at hs
    exact .inr hs
  | entry b' g =>
    rw [subscribersAt, topicAt_subscribe] at hs
    split_ifs at hs with hp
    · rcases Keyed.mem_put.1 hs with rfl | ⟨hs, -⟩
      · exact .inl rfl
      · obtain ⟨rfl, rfl⟩ := hp
        refine .inr ?_
        rw [subscribersAt]
        cases ht : w.topicAt (.entry b' g) with
        | none =>
          rw [ht] at hs
          exact absurd hs List.not_mem_nil
        | some t =>
          rw [ht] at hs
          exact hs
    · exact .inr hs

/-- The subscribers that stay where a client is taken out. -/
theorem mem_subscribersAt_unsubscribe {f : Bytes} {b : Bool} {p : TopicPtr} {s : Subscriber} :
    s ∈ (w.unsubscribe c f b).subscribersAt p ↔
      s ∈ w.subscribersAt p ∧ ¬(p = .entry b f ∧ s.client.clientId = c.clientId) := by
  cases p with
  | trash =>
    have hne : ¬(TopicPtr.trash = .entry b f ∧ s.client.clientId = c.clientId) :=
      fun h => nomatch h.1
    rw [subscribersAt, unsubscribe_eq]
    exact (and_iff_left hne).symm
  | entry b' g =>
    rw [subscribersAt, topicAt_unsubscribe, subscribersAt]
    by_cases hp : b' = b ∧ g = f
    · obtain ⟨rfl, rfl⟩ := hp
      rw [if_pos ⟨rfl, rfl⟩]
      cases ht : w.topicAt (.entry b' g) with
      | none => simp
      | some t =>
        have herase : s ∈ (t.unsubscribe c).clients.elems ↔
            s ∈ t.clients.elems ∧ s.client.clientId ≠ c.clientId := Keyed.mem_erase
        rw [Option.map_some, Option.filter_some]
        cases he : (t.unsubscribe c).empty with
        | false => simpa using herase
        | true =>
          -- An empty topic has no subscribers to lose.
          have hnone : s ∉ (t.unsubscribe c).clients.elems := by
            intro hs
            exact Keyed.find_eq_none.1 (((Topic.empty_iff _).1 he).2 s.clientId) s hs rfl
          rw [herase] at hnone
          simpa using hnone
    · rw [if_neg hp]
      exact (and_iff_left fun h => hp (TopicPtr.entry.inj h.1)).symm

/-- A message that is retained replaces the one of the topic. -/
theorem topicAt_storeRetained (p : TopicPtr) (m : MqttPublish) (b : Bool) (f : Bytes) :
    (w.storeRetained p m).topicAt (.entry b f) =
      if m.retain = true ∧ p = .entry b f then (w.topicAt (.entry b f)).map fun t => t.retain m
      else w.topicAt (.entry b f) := by
  rw [storeRetained]
  by_cases hr : m.retain = true
  · rw [if_pos hr, topicAt_modifyTopic w (u := fun t => t.retain m) fun _ => rfl]
    by_cases hp : p = .entry b f
    · rw [if_pos hp, if_pos ⟨hr, hp⟩, hp]
    · rw [if_neg hp, if_neg fun h => hp h.2]
  · rw [if_neg hr, if_neg fun h => hr h.1]

/-- `_trash_topic` keeps its name. -/
theorem trashTopic_storeRetained (p : TopicPtr) (m : MqttPublish) :
    (w.storeRetained p m).trashTopic.topicFilter = w.trashTopic.topicFilter := by
  rw [storeRetained, modifyTopic]
  split_ifs
  · split
    · rfl
    · next t ht =>
      cases p with
      | trash =>
        cases ht
        rfl
      | entry b f => rfl
  · rfl

theorem session_greet (cfg : Config) (packet : MqttConnect) :
    (w.greet cfg k packet).session = w.session := by
  rw [greet]
  split_ifs <;> rfl

theorem sessions_greet (cfg : Config) (packet : MqttConnect) :
    (w.greet cfg k packet).sessions = w.sessions := by
  rw [greet]
  split_ifs <;> rfl

theorem topics_greet (cfg : Config) (packet : MqttConnect) :
    (w.greet cfg k packet).topics = w.topics ∧
      (w.greet cfg k packet).trashTopic = w.trashTopic := by
  rw [greet]
  split_ifs <;> exact ⟨rfl, rfl⟩

theorem session_takeOver (x : Bytes) : (w.takeOver x).session = w.session := by
  rw [takeOver]
  split <;> rfl

theorem sessions_takeOver (x : Bytes) : (w.takeOver x).sessions = w.sessions := by
  rw [takeOver]
  split <;> rfl

/-- Everything but the registration and the sessions is as after the removal of
    the client that is displaced. -/
theorem establish_frame (x : Bytes) :
    (w.establish k c x).2.2.topics = w.topics ∧ (w.establish k c x).2.2.trashTopic = w.trashTopic ∧
      (w.establish k c x).2.2.session = ((w.takeOver x).attachSession c).2.2.session := by
  obtain ⟨-, htopics, htrash, -⟩ := (w.takeOver x).attachSession_frame c
  have htake : (w.takeOver x).topics = w.topics ∧ (w.takeOver x).trashTopic = w.trashTopic := by
    rw [takeOver]
    split <;> exact ⟨rfl, rfl⟩
  rw [establish]
  simp only [write, record, setParam, modifyContext]
  rw [regClientPtr_eq]
  exact ⟨htopics.trans htake.1, htrash.trans htake.2, rfl⟩

/-- The client is at the channel, if that is there. -/
theorem param_establish (hk : (w.contexts k).isSome) (x : Bytes) : (w.establish k c x).2.2.param =
    Function.update (w.takeOver x).param k (some (w.establish k c x).1) := by
  have hcontexts := ((w.takeOver x).attachSession_frame c).1
  have hreg : ∀ v : World, v.contexts = (w.takeOver x).contexts → ∀ r,
      ((v.regClientPtr r).setParam k (some r)).param =
        Function.update (w.takeOver x).param k (some r) := by
    intro v hv r
    have hr : (v.regClientPtr r).contexts = (w.takeOver x).contexts := by
      rw [regClientPtr_eq]
      exact hv
    rw [param_setParam_some, show (v.regClientPtr r).param = (w.takeOver x).param by
      funext k
      rw [param, hr, param]]
    rwa [hr, isSome_contexts_takeOver]
  exact hreg (((w.takeOver x).attachSession c).2.2.record
    (.attached (w.establish k c x).1 (w.establish k c x).2.1)) hcontexts _

/-- What an accepted CONNECT adds to the history before anything is sent again. -/
theorem log_establish (hk : (w.contexts k).isSome) (x : Bytes) :
    (w.establish k c x).2.2.log = w.log ++
      [.attached (w.establish k c x).1 (w.establish k c x).2.1,
        .write k (some (w.establish k c x).1)
          (.connack (mqttConnack (w.establish k c x).2.1 0x00))] := by
  obtain ⟨-, -, -, hlog⟩ := (w.takeOver x).attachSession_frame c
  have hparam := congrFun (w.param_establish k c hk x) k
  rw [Function.update_self] at hparam
  have hwrite : (w.establish k c x).2.2.log = (w.takeOver x).log ++
      [.attached (w.establish k c x).1 (w.establish k c x).2.1] ++
      [.write k ((w.establish k c x).2.2.param k)
        (.connack (mqttConnack (w.establish k c x).2.1 0x00))] := by
    rw [establish]
    simp only [write, record, setParam, modifyContext]
    rw [regClientPtr_eq]
    simp only [hlog]
    rfl
  rw [hwrite, hparam, log_takeOver, List.append_assoc]
  rfl

/-- A note of a message to retain is about the history. -/
theorem noteRetain_eq (retain : Bool) (topicName payload : Bytes) :
    w.noteRetain retain topicName payload =
      { w with log := (w.noteRetain retain topicName payload).log } := by
  rw [noteRetain]
  split_ifs <;> rfl

/-- What is noted when a will is published. -/
def noteWill (w : World) (c : MqttClient) : World :=
  (w.record (.will c)).noteRetain c.willRetain c.willTopic c.willMessage

theorem noteWill_eq : w.noteWill c = { w with log := (w.noteWill c).log } := by
  rw [noteWill, noteRetain_eq]
  rfl

/-- Entering subscriptions again is about the topics. -/
theorem resubscribe_eq : w.resubscribe c = { w with topics := (w.resubscribe c).topics } :=
  foldl_topics_eq (fun w sub => w.subscribe_eq c sub.topicFilter sub.maxQos sub.isWild) _ w

theorem log_resubscribe : (w.resubscribe c).log = w.log := by rw [resubscribe_eq]

theorem session_resubscribe : (w.resubscribe c).session = w.session := by rw [resubscribe_eq]

/-- Writing packets changes the history only. -/
theorem writeAll_eq (ps : List Packet) : w.writeAll k ps =
    { w with log := w.log ++ ps.map fun p => .write k (w.param k) p } := by
  induction ps generalizing w with
  | nil => simp [writeAll]
  | cons p ps ih =>
    show (w.write k p).writeAll k ps = _
    rw [ih]
    simp [write, record, param]

/-- Sending messages again is about the session and the history. -/
theorem redeliver_eq : w.redeliver c =
    { w with session := (w.redeliver c).session, log := (w.redeliver c).log } := by
  simp only [redeliver, writeAll_eq]
  rfl

/-- What is written when a session is resumed. -/
theorem log_redeliver : (w.redeliver c).log = w.log ++
    ((w.session c.session).publishForAck.map (fun p => Packet.publish p.setDup) ++
      (w.session c.session).publishForRec.map (fun p => Packet.publish p.setDup) ++
      (w.session c.session).packetIdForPubcomp.map (fun id => Packet.pubrel (mqttPubrel id))).map
        fun p => .write c.channelId (w.param c.channelId) p := by
  simp only [redeliver, writeAll_eq, modifySession, Function.update_self, List.map_map,
    List.map_append, List.append_assoc]
  rfl

end World

end MqttBroker
