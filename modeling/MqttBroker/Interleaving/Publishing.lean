import MqttBroker.Interleaving.Sequential

/-!
# The calls as threads

To the tables, `handle_publish` does what it does to the retained messages of the
topics, one lock or one atomic store at a time. With it, what the broker does in a call
is a thread (`calls`): the handler that is called, and nothing where no handler touches
a table. When a channel is gone, Shan.Net drops its context after the handler.

* `publishing_alone`: `handle_publish`, with no other thread between its steps.
-/

namespace MqttBroker

open Prog

/-- `handle_publish`, from where the message is forwarded, with the filters of
    `_wild_topics` that are left, in the order of the iteration. -/
inductive Publishing
  /-- Before `_topics.at`. -/
  | topic (packet : MqttPublish) (filters : List Bytes)
  /-- Before `topic::publish`, with `t_ptr`. -/
  | publish (packet : MqttPublish) (t : TopicRef) (filters : List Bytes)
  | wild (packet : MqttPublish) (filters : List Bytes)
  deriving DecidableEq

/-- A call of Shan.Net. -/
inductive Call
  | handler (h : Handler)
  | publishing (place : Publishing)
  /-- `handle_channel_disconnected`, after which the context of the channel is dropped. -/
  | losing (channelId : ChannelId) (place : Leaving)
  /-- Nothing is left to do. -/
  | returned
  deriving DecidableEq

/-- The beginning of `topic::publish`: a message to retain is stored. -/
def Shared.storeRetained (s : Shared) (t : TopicRef) (packet : MqttPublish) : Shared :=
  if packet.retain then s.modifyTopic t fun topic => topic.retain packet else s

/-- A round of the loop over `_wild_topics`. -/
def Shared.publishWild (s : Shared) (packet : MqttPublish) (topicFilter : Bytes) : Shared :=
  match s.topics true topicFilter with
  | none => s
  | some t => if topicMatch topicFilter packet.topicName then s.storeRetained t packet else s

/-- The next step of `handle_publish`. The notice to `$sys/trash` is not retained. -/
def Publishing.next (s : Shared) : Publishing → Option (Publishing × Shared)
  | topic packet filters => some <|
    match s.topics false packet.topicName with
    | none => (wild packet filters, s) -- the exception is caught
    | some t => (publish packet t filters, s)
  | publish packet t filters => some (wild packet filters, s.storeRetained t packet)
  | wild _ [] => none
  | wild packet (f :: filters) => some (wild packet filters, s.publishWild packet f)

/-- The calls. -/
def calls : Threads Call Shared where
  next
    | .handler h, s => (handlers.next h s).map fun r => (.handler r.1, r.2)
    | .publishing place, s => (place.next s).map fun r => (.publishing r.1, r.2)
    | .losing k place, s => some <|
      match place.next s with
      | some r => (.losing k r.1, r.2)
      | none => (.returned, s.setParam k none)
    | .returned, _ => none

variable {s s' : Shared} {w w' : World} {m : MqttPublish} {k : ChannelId}

/-! ## Handlers in calls -/

theorem alone_handler {h h' : Handler} (ha : handlers.Alone h s h' s') :
    calls.Alone (.handler h) s (.handler h') s' := by
  induction ha with
  | refl => exact .refl _ _
  | step hn _ ih => exact .step (by simp only [calls, hn, Option.map_some]) ih

/-- A handler that leaves stays one. -/
theorem alone_losing {place place' : Leaving}
    (ha : handlers.Alone (.leaving place) s (.leaving place') s') (k : ChannelId) :
    calls.Alone (.losing k place) s (.losing k place') s' := by
  generalize hh : Handler.leaving place = h at ha
  generalize hh' : Handler.leaving place' = h' at ha
  -- The places of the thread are told apart from the thread, for the induction.
  induction ha generalizing place with
  | refl =>
    subst hh
    cases hh'
    exact .refl _ _
  | @step t t' t'' s s' s'' hn _ ih =>
    subst hh
    obtain ⟨⟨next, u⟩, hnext, heq⟩ := Option.map_eq_some_iff.1 hn
    obtain ⟨rfl, rfl⟩ := Prod.mk.inj heq
    refine .step ?_ (ih rfl hh')
    simp only [calls, hnext]

theorem finished_returned : calls.Finished .returned := fun _ => rfl

/-! ## PUBLISH -/

/-- A message to retain is stored in a topic of a table. -/
theorem Shared.Shows.storeRetained (h : s.Shows w) {b : Bool} {f : Bytes} {t : TopicRef}
    (ht : s.topics b f = some t) (m : MqttPublish) :
    (s.storeRetained t m).Shows (w.storeRetained (.entry b f) m) := by
  rw [Shared.storeRetained, World.storeRetained]
  split_ifs
  · exact h.modifyTopic ht fun _ => rfl
  · exact h

/-- What `topic::publish` sends is not shown. -/
theorem showing_publishTopic (w : World) (p : TopicPtr) (m : MqttPublish) :
    Showing.rel (w.storeRetained p m) (publishTopic p m w).2 :=
  rel_publishTopic (fun client maxQos => showing_publish client maxQos false m) w

/-- The frame of what leaves `_wild_topics` as it is. -/
def KeepingWild : Frame World where
  rel w w' := w'.topics true = w.topics true
  refl _ := rfl
  trans h₁ h₂ := h₂.trans h₁

theorem keepingWild_publishTopic (f : Bytes) (m : MqttPublish) :
    Within KeepingWild (publishTopic (.entry false f) m) := by
  refine within_publishTopic (fun w => ?_) fun client maxQos =>
    within_publish (fun _ _ => rfl) (fun _ _ => rfl) (fun _ _ _ => rfl) maxQos false
  show (w.storeRetained (.entry false f) m).topics true = w.topics true
  have hwild : true ≠ false := Bool.noConfusion
  rw [World.storeRetained, World.modifyTopic]
  split_ifs
  · cases w.topicAt (.entry false f) with
    | none => rfl
    | some t => exact Function.update_of_ne hwild ((w.topics false).put (t.retain m)) w.topics
  · rfl

/-- The loop over `_wild_topics`. -/
theorem publishWild_alone (hs : s.Shows w) {sent sent' : Bool} {ts : List Topic}
    (h : publishWild m sent ts w = (.value sent', w')) : ∃ s',
      calls.Alone (.publishing (.wild m (ts.map Topic.topicFilter))) s (.publishing (.wild m [])) s' ∧
        s'.Shows w' := by
  induction ts generalizing s w sent with
  | nil =>
    cases h
    exact ⟨s, .refl _ _, hs⟩
  | cons t ts ih =>
    obtain ⟨sent₁, w₁, hround, hrest⟩ := bind_eq_value h
    have hshow : (s.publishWild m t.topicFilter).Shows w₁ := by
      rw [Shared.publishWild]
      dsimp only at hround
      split_ifs at hround with hmatch
      · have hpublish := showing_publishTopic w (.entry true t.topicFilter) m
        rw [hround] at hpublish
        cases hr : s.topics true t.topicFilter with
        | some r =>
          simp only [if_pos hmatch]
          exact hpublish _ (hs.storeRetained hr m)
        | none =>
          -- There is no topic to store the message in.
          refine hpublish s ?_
          rwa [World.storeRetained, World.modifyTopic, ← hs.topics, hr, Option.map_none, ite_self]
      · cases hround
        cases s.topics true t.topicFilter with
        | some r => simpa only [if_neg hmatch] using hs
        | none => exact hs
    obtain ⟨s', ha, hs'⟩ := ih hshow hrest
    exact ⟨s', .step rfl ha, hs'⟩

/-- The message that a PUBLISH found no receiver is not retained. -/
theorem showing_publishTrash (m : MqttPublish) : Within Showing (publishTrash m) := by
  intro w
  rw [publishTrash, get_bind_apply]
  cases hp : mqttPublish false 1 false w.trashTopic.topicFilter 0xffff m.topicName with
  | error what => exact Showing.refl w
  | ok p =>
    have hstore : w.storeRetained .trash p = w := by
      rw [World.storeRetained, (mqttPublish_eq_ok hp).2.2.1]
      exact if_neg Bool.false_ne_true
    have hpublish := showing_publishTopic w .trash p
    rw [hstore] at hpublish
    have hbind : Showing.rel w ((do let _ ← publishTopic .trash p : Server Unit) w).2 :=
      rel_bind hpublish fun _ => within_pure _
    exact hbind

/-- `handle_publish`, from where the message is forwarded. -/
theorem publishing_alone (hs : s.Shows w) {it : Iteration}
    (h : forwardPublish it m w = (.value (), w')) : ∃ s',
      calls.Alone (.publishing (.topic m ((it.order (w.topics true).elems).map Topic.topicFilter))) s
        (.publishing (.wild m [])) s' ∧ s'.Shows w' := by
  rw [forwardPublish, modify_bind_apply] at h
  have hs := showing_noteRetain w m.retain m.topicName m.payload s hs
  have hwild : (w.noteRetain m.retain m.topicName m.payload).topics = w.topics := by
    rw [World.noteRetain_eq]
  rw [← hwild]
  generalize w.noteRetain m.retain m.topicName m.payload = u at hs h
  obtain ⟨sent, v, hexact, h⟩ := bind_eq_value h
  rw [get_bind_apply] at h
  obtain ⟨sent', x, hloop, htrash⟩ := bind_eq_value h
  have hshow : ∀ s' : Shared, s'.Shows x → s'.Shows w' := by
    split_ifs at htrash
    · have hrel := showing_publishTrash m x
      rwa [htrash] at hrel
    · cases htrash
      exact fun s' hs' => hs'
  rw [tryCatch_topicsAt_apply, ← hs.topics] at hexact
  -- The message is published to the topic of its name, if that is there.
  cases ht : s.topics false m.topicName with
  | none =>
    rw [ht, Option.map_none] at hexact
    cases hexact
    obtain ⟨s', ha, hs'⟩ := publishWild_alone hs hloop
    refine ⟨s', .step ?_ ha, hshow s' hs'⟩
    simp only [calls, Publishing.next, ht, Option.map_some]
  | some t =>
    rw [ht, Option.map_some, Option.isSome_some, if_pos rfl] at hexact
    have hv : (publishTopic (.entry false m.topicName) m u).2 = v := by
      rw [tryCatch_apply] at hexact
      rcases hm : publishTopic (.entry false m.topicName) m u with ⟨b | what | _, y⟩ <;>
        rw [hm] at hexact <;> cases hexact <;> rfl
    have hstored := showing_publishTopic u (.entry false m.topicName) m _ (hs.storeRetained ht m)
    have hkeep := keepingWild_publishTopic m.topicName m u
    rw [hv] at hstored hkeep
    obtain ⟨s', ha, hs'⟩ := publishWild_alone hstored hloop
    -- The loop is over the topics as they were before.
    have hkeep : v.topics true = u.topics true := hkeep
    rw [hkeep] at ha
    let filters := (it.order (u.topics true).elems).map Topic.topicFilter
    have hpublish : calls.next (.publishing (.publish m t filters)) s =
        some (.publishing (.wild m filters), s.storeRetained t m) := rfl
    refine ⟨s', .step ?_ (.step hpublish ha), hshow s' hs'⟩
    simp only [calls, Publishing.next, ht, Option.map_some]
    rfl

end MqttBroker
