import MqttBroker.Directory.Basic
import MqttBroker.Server.Tables

/-!
# The directory of the broker

The directory of a state (`World.directory`), and what becomes of it where the
broker changes the state: nothing, where it publishes, writes and answers; an
operation of `Directory`, where it registers clients and subscribes them.
-/

namespace MqttBroker

namespace World

/-- The state of the connections and of the subscriptions. -/
def directory (w : World) : Directory where
  holder := w.param
  client := w.getClientPtr
  session := w.sessions
  subscription s f := ((w.session s).subscriptions.find f).map fun sub => (sub.maxQos, sub.isWild)
  subscriber b f x :=
    ((w.topicAt (.entry b f)).bind fun t => t.find x).map fun s => (s.client, s.maxQos)
  nextSession := w.nextSession
  nextAddr := w.nextAddr

variable (w : World) (k : ChannelId) (c : MqttClient)

/-! ## What does not change it -/

@[simp] theorem directory_record (e : Effect) : (w.record e).directory = w.directory := rfl

@[simp] theorem directory_write (p : Packet) : (w.write k p).directory = w.directory := rfl

@[simp] theorem directory_close : (w.close k).directory = w.directory := by
  simp only [directory, param_close]
  rfl

/-- A session whose subscriptions stay. -/
theorem directory_modifySession {s : SessionRef} {f : Session → Session}
    (h : (f (w.session s)).subscriptions = (w.session s).subscriptions) :
    (w.modifySession s f).directory = w.directory := by
  have hsub : ∀ s', ((w.modifySession s f).session s').subscriptions =
      (w.session s').subscriptions := by
    intro s'
    rw [session_modifySession]
    split_ifs with hs
    · rw [h, hs]
    · rfl
  simp only [directory, hsub]
  rfl

@[simp] theorem directory_storeRetained (p : TopicPtr) (m : MqttPublish) :
    (w.storeRetained p m).directory = w.directory := by
  rw [storeRetained]
  split_ifs
  · have hfind : ∀ b f x, (((w.modifyTopic p fun t => t.retain m).topicAt (.entry b f)).bind
        fun t => t.find x) = (w.topicAt (.entry b f)).bind fun t => t.find x := by
      intro b f x
      rw [topicAt_modifyTopic w (u := fun t => t.retain m) fun _ => rfl]
      split_ifs with hp
      · rw [hp, Option.bind_map]
        rfl
      · rfl
    simp only [directory, hfind]
    cases hp : w.topicAt p with
    | none =>
      rw [modifyTopic, hp]
    | some t =>
      rw [modifyTopic, hp]
      cases p <;> rfl
  · rfl

@[simp] theorem directory_address (m : MqttPublish) : (w.address c m).directory = w.directory := by
  rw [address, directory_modifySession]
  · rfl
  · split_ifs <;> rfl

@[simp] theorem directory_receivePublish (sender : MqttClient) (m : MqttPublish) :
    (w.receivePublish k sender m).directory = w.directory := by
  rw [receivePublish]
  split_ifs
  · rfl
  · rw [directory_write, directory_modifySession]
    rfl
  · rfl

/-- A second CONNECT and another protocol close the channel, and an object is
    made. -/
@[simp] theorem directory_greet (cfg : Config) (p : MqttConnect) :
    (w.greet cfg k p).directory = w.directory.allocate := by
  have h : ∀ w : World, ({ w with nextAddr := w.nextAddr + 1 } : World).directory =
      w.directory.allocate := fun _ => rfl
  rw [greet]
  split_ifs <;> simp only [directory_close, h]

/-! ## Subscriptions -/

variable {w} in
/-- Where only the topics change. -/
theorem directory_of_topics {w' : World} (h : w' = { w with topics := w'.topics }) :
    w'.directory = { w.directory with subscriber := w'.directory.subscriber } := by
  rw [h]
  rfl

theorem subscriber_subscribe (f : Bytes) (q : Nat) (b b' : Bool) (g x : Bytes) :
    (w.subscribe c f q b).directory.subscriber b' g x =
      if b' = b ∧ g = f ∧ x = c.clientId then some (c, q)
      else w.directory.subscriber b' g x := by
  simp only [directory, topicAt_subscribe]
  by_cases hp : b' = b ∧ g = f
  · obtain ⟨rfl, rfl⟩ := hp
    simp only [and_self, true_and, if_true, Option.bind_some, Topic.find_subscribe]
    split_ifs with hx
    · rfl
    · cases w.topicAt (.entry b' g) <;> rfl
  · rw [if_neg hp, if_neg fun h => hp ⟨h.1, h.2.1⟩]

theorem subscriber_unsubscribe (f : Bytes) (b b' : Bool) (g x : Bytes) :
    (w.unsubscribe c f b).directory.subscriber b' g x =
      if b' = b ∧ g = f ∧ x = c.clientId then none else w.directory.subscriber b' g x := by
  simp only [directory, topicAt_unsubscribe]
  by_cases hp : b' = b ∧ g = f
  · obtain ⟨rfl, rfl⟩ := hp
    simp only [and_self, true_and, if_true]
    cases w.topicAt (.entry b' g) with
    | none => simp
    | some t =>
      rw [Option.map_some, Option.filter_some]
      have hfind := Topic.find_unsubscribe t c x
      cases he : (t.unsubscribe c).empty with
      | true =>
        -- An empty topic has no entry to lose.
        rw [(Topic.empty_iff _).1 he |>.2 x] at hfind
        simp only [Bool.not_true, Bool.false_eq_true, if_false, Option.bind_none, Option.map_none,
          Option.bind_some]
        split_ifs at hfind ⊢ with hx
        · rfl
        · rw [← hfind]
          rfl
      | false =>
        simp only [Bool.not_false, if_true, Option.bind_some, hfind]
        split_ifs <;> rfl
  · rw [if_neg hp, if_neg fun h => hp ⟨h.1, h.2.1⟩]

theorem directory_addSubscription (s : SessionRef) (f : Bytes) (q : Nat) (b : Bool) :
    (w.modifySession s fun t => t.addSubscription f q b).directory = { w.directory with
      subscription := fun s' g =>
        if s' = s ∧ g = f then some (q, b) else w.directory.subscription s' g } := by
  refine Directory.ext rfl rfl rfl (funext₂ fun s' g => ?_) rfl rfl rfl
  simp only [directory, session_modifySession]
  by_cases hs : s' = s
  · subst hs
    simp only [if_true, true_and, Session.addSubscription, Keyed.find_put]
    split_ifs <;> rfl
  · rw [if_neg hs, if_neg fun h => hs h.1]

theorem directory_deleteSubscription (s : SessionRef) (f : Bytes) :
    (w.modifySession s fun t => t.deleteSubscription f).directory = { w.directory with
      subscription := fun s' g =>
        if s' = s ∧ g = f then none else w.directory.subscription s' g } := by
  refine Directory.ext rfl rfl rfl (funext₂ fun s' g => ?_) rfl rfl rfl
  simp only [directory, session_modifySession]
  by_cases hs : s' = s
  · subst hs
    simp only [if_true, true_and, Session.deleteSubscription, Keyed.find_erase]
    split_ifs <;> rfl
  · rw [if_neg hs, if_neg fun h => hs h.1]

/-- Subscribing a client at a topic and in its session. -/
theorem directory_subscribe (f : Bytes) (q : Nat) (b : Bool) :
    ((w.subscribe c f q b).modifySession c.session fun s => s.addSubscription f q b).directory =
      w.directory.subscribe c f q b := by
  rw [directory_addSubscription, directory_of_topics (w.subscribe_eq c f q b)]
  refine Directory.ext rfl rfl rfl rfl ?_ rfl rfl
  funext b' g x
  exact w.subscriber_subscribe c f q b b' g x

/-- Unsubscribing a client: nothing happens where the topic is not there. -/
theorem directory_unsubscribeEntry (e : UnsubscribeEntry) :
    (w.unsubscribeEntry c e).directory = w.directory ∨
      (w.unsubscribeEntry c e).directory =
        w.directory.unsubscribe c e.topicFilter e.isWild := by
  rw [unsubscribeEntry]
  split
  · exact .inl rfl
  · refine .inr ?_
    rw [directory_deleteSubscription, directory_of_topics (w.unsubscribe_eq c _ _)]
    refine Directory.ext rfl rfl rfl rfl ?_ rfl rfl
    funext b' g x
    exact w.subscriber_unsubscribe c _ _ b' g x

/-! ## All subscriptions of a session -/

/-- Subscribing a client at a list of topics. -/
theorem directory_foldl_subscribe (subs : List Subscription)
    (hnodup : (subs.map Subscription.topicFilter).Nodup) :
    (subs.foldl (fun w sub => w.subscribe c sub.topicFilter sub.maxQos sub.isWild) w).directory =
      { w.directory with
        subscriber := fun b f x =>
          match if x = c.clientId then
            (subs.find? fun sub => sub.topicFilter = f).map fun sub => (sub.maxQos, sub.isWild)
            else none with
          | some (q, b') => if b' = b then some (c, q) else w.directory.subscriber b f x
          | none => w.directory.subscriber b f x } := by
  induction subs generalizing w with
  | nil => simp
  | cons sub subs ih =>
    rw [List.map_cons, List.nodup_cons] at hnodup
    rw [List.foldl_cons, ih _ hnodup.2, directory_of_topics (w.subscribe_eq c _ _ _)]
    refine Directory.ext rfl rfl rfl rfl ?_ rfl rfl
    funext b f x
    simp only [subscriber_subscribe]
    by_cases hx : x = c.clientId
    · rw [if_pos hx, if_pos hx]
      by_cases hf : sub.topicFilter = f
      · -- The filter does not occur in the rest of the list.
        have hrest : subs.find? (fun sub => sub.topicFilter = f) = none := by
          rw [List.find?_eq_none]
          intro s hs
          simp only [decide_eq_true_eq]
          rintro rfl
          exact hnodup.1 (hf ▸ List.mem_map_of_mem hs)
        rw [List.find?_cons_of_pos (by simpa using hf), hrest]
        simp only [Option.map_none, Option.map_some, hf, hx, and_true, eq_comm (a := b)]
      · rw [List.find?_cons_of_neg (by simpa using hf),
          if_neg fun h => hf h.2.1.symm]
    · rw [if_neg hx, if_neg hx, if_neg fun h => hx h.2.2]

/-- Entering the subscriptions of a session again. -/
theorem directory_resubscribe : (w.resubscribe c).directory = w.directory.resubscribe c := by
  rw [resubscribe, directory_foldl_subscribe w c _ (w.session c.session).subscriptions.nodup]
  rfl

/-- Unsubscribing a client from a list of topics. -/
theorem directory_foldl_unsubscribe (subs : List Subscription) :
    (subs.foldl (fun w sub => w.unsubscribe c sub.topicFilter sub.isWild) w).directory =
      { w.directory with
        subscriber := fun b f x =>
          if x = c.clientId ∧ ∃ sub ∈ subs, sub.topicFilter = f ∧ sub.isWild = b then none
          else w.directory.subscriber b f x } := by
  induction subs generalizing w with
  | nil => simp
  | cons sub subs ih =>
    rw [List.foldl_cons, ih, directory_of_topics (w.unsubscribe_eq c _ _)]
    refine Directory.ext rfl rfl rfl rfl ?_ rfl rfl
    funext b f x
    simp only [subscriber_unsubscribe, List.mem_cons, exists_eq_or_imp]
    by_cases hx : x = c.clientId
    · by_cases hs : sub.topicFilter = f ∧ sub.isWild = b
      · simp [hx, hs]
      · rw [if_neg fun h : b = sub.isWild ∧ f = sub.topicFilter ∧ x = c.clientId =>
          hs ⟨h.2.1.symm, h.1.symm⟩]
        simp only [hs, false_or]
    · simp [hx]

theorem directory_deleteClientPtr (x : Bytes) : (w.deleteClientPtr x).directory =
    { w.directory with client := Function.update w.directory.client x none } := by
  refine Directory.ext rfl (funext fun y => ?_) rfl rfl rfl rfl rfl
  simp only [Function.update_apply]
  exact Keyed.find_erase _ _ _

theorem directory_setParam_none : (w.setParam k none).directory =
    { w.directory with holder := Function.update w.directory.holder k none } :=
  Directory.ext (w.param_setParam_none k) rfl rfl rfl rfl rfl rfl

theorem directory_deleteSessionPtr (x : Bytes) : (w.deleteSessionPtr x).directory =
    { w.directory with session := Function.update w.directory.session x none } := rfl

/-- The topics listed in a session. -/
theorem listed_iff (s : SessionRef) (f : Bytes) (b : Bool) :
    (∃ sub ∈ (w.session s).subscriptions.elems, sub.topicFilter = f ∧ sub.isWild = b) ↔
      (w.directory.subscription s f).map Prod.snd = some b := by
  simp only [directory, Option.map_map, Option.map_eq_some_iff, Keyed.find_eq_some,
    Function.comp_apply, Keyed.mem_def, and_assoc]

theorem directory_unsubscribeAll : (w.unsubscribeAll c).directory = { w.directory with
    subscriber := fun b f x =>
      if x = c.clientId ∧ (w.directory.subscription c.session f).map Prod.snd = some b then none
      else w.directory.subscriber b f x } := by
  rw [unsubscribeAll, directory_foldl_unsubscribe]
  simp only [listed_iff]

/-- What a client that leaves loses, but for its channel. -/
theorem directory_remove : (w.remove c).directory =
    { w.directory.leave k c with holder := w.directory.holder } := by
  rw [remove, directory_deleteClientPtr]
  split_ifs with hc
  · rw [directory_deleteSessionPtr, directory_unsubscribeAll, Directory.leave, if_pos hc]
  · rw [directory_unsubscribeAll, Directory.leave, if_neg hc]

/-! ## Connections -/

theorem directory_takeOver (x : Bytes) :
    (w.takeOver x).directory = w.directory.takeOver x := by
  have hclient : w.directory.client x = w.getClientPtr x := rfl
  rw [takeOver, Directory.takeOver, hclient]
  cases w.getClientPtr x with
  | none => rfl
  | some old => simp only [directory_close, directory_setParam_none, directory_deleteClientPtr,
      Directory.displace]

theorem directory_storeSession (x : Bytes) :
    (w.storeSession x).directory = w.directory.makeSession x := by
  refine Directory.ext rfl rfl rfl (funext₂ fun s f => ?_) rfl rfl rfl
  simp only [directory, storeSession, Directory.makeSession, Function.update_apply]
  split_ifs <;> rfl

/-- The client is given the session the directory tells. -/
theorem attachSession_eq : (w.attachSession c).1 = (w.directory.attach c).1 ∧
    (w.attachSession c).2.1 = (w.directory.attach c).2.1 ∧
    (w.attachSession c).2.2.directory = (w.directory.attach c).2.2 := by
  rcases w.attachSession_cases c with ⟨s, hc, hs, h⟩ | ⟨hc, h⟩
  · have : w.directory.attach c = (c.setSessionPtr s, true, w.directory) := by
      rw [Directory.attach, hc, show w.directory.session c.clientId = some s from hs]
      rfl
    rw [h, this]
    exact ⟨rfl, rfl, rfl⟩
  · have : w.directory.attach c =
        (c.setSessionPtr w.nextSession, false, w.directory.makeSession c.clientId) := by
      rw [Directory.attach]
      rcases hc with hc | hc
      · rw [hc]
        rfl
      · rw [show w.directory.session c.clientId = none from hc, ite_self]
        rfl
    rw [h, this]
    exact ⟨rfl, rfl, directory_storeSession w c.clientId⟩

theorem directory_register (hk : (w.contexts k).isSome) :
    ((w.regClientPtr c).setParam k (some c)).directory = w.directory.register k c := by
  have hparam : (w.regClientPtr c).contexts = w.contexts := by
    rw [regClientPtr]
    split <;> rfl
  have hset : ∀ {v : World}, (v.contexts k).isSome → (v.setParam k (some c)).directory =
      { v.directory with holder := Function.update v.directory.holder k (some c) } :=
    fun h => Directory.ext (param_setParam_some _ k c h) rfl rfl rfl rfl rfl rfl
  rw [hset (by rwa [hparam]), regClientPtr]
  cases hx : w.getClientPtr c.clientId with
  | none =>
    refine Directory.ext rfl (funext fun y => ?_) rfl rfl rfl rfl rfl
    show (w.clients.put c).find y = if _ then _ else _
    rw [Keyed.find_put]
    by_cases hy : y = c.clientId
    · rw [if_pos hy, if_pos ⟨hy, hy ▸ hx⟩]
    · rw [if_neg hy, if_neg fun h => hy h.1]
      rfl
  | some old =>
    refine Directory.ext rfl (funext fun y => ?_) rfl rfl rfl rfl rfl
    show w.getClientPtr y = if y = c.clientId ∧ w.getClientPtr y = none then _ else _
    rw [if_neg]
    · rfl
    · rintro ⟨rfl, hy⟩
      cases hx.symm.trans hy

end World

end MqttBroker
