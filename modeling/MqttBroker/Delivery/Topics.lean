import MqttBroker.Server.Steps

/-!
# Retained messages in the tables

The message that a topic retains (`World.retainedIn`; `World.retainedAt` for one of
`_topics`) changes only where one is stored: subscribing makes topics without one,
and a topic is erased only when it has none.
-/

namespace MqttBroker

namespace World

/-- The message that the topic at a place retains. -/
def retainedIn (w : World) (p : TopicPtr) : Option MqttPublish :=
  (w.topicAt p).bind Topic.retainedMessage

/-- The message that the topic of a name retains. -/
def retainedAt (w : World) (topicName : Bytes) : Option MqttPublish :=
  (w.topicAt (.entry false topicName)).bind Topic.retainedMessage

variable (w : World) (c : MqttClient)

theorem retainedAt_eq_some {f : Bytes} {m : MqttPublish} : w.retainedAt f = some m ↔
    ∃ t, w.topicAt (.entry false f) = some t ∧ t.retainedMessage = some m :=
  Option.bind_eq_some_iff

/-- Nothing is retained by a topic that is not there. -/
theorem retainedAt_of_none {f : Bytes} (h : w.topicAt (.entry false f) = none) :
    w.retainedAt f = none := by
  rw [retainedAt, h, Option.bind_none]

/-- The topics of `_topics` are among all. -/
theorem retainedAt_of_retainedIn {v : World} (h : v.retainedIn = w.retainedIn) :
    v.retainedAt = w.retainedAt :=
  funext fun f => congrFun h (.entry false f)

theorem retainedIn_of_topics {v : World} (h : v.topics = w.topics)
    (htrash : v.trashTopic = w.trashTopic) : v.retainedIn = w.retainedIn := by
  funext p
  cases p with
  | trash => rw [retainedIn, topicAt, htrash, retainedIn, topicAt]
  | entry b f => rw [retainedIn, topicAt, h, retainedIn, topicAt]

/-- A topic is made without a message. -/
@[simp] theorem retainedIn_subscribe (f : Bytes) (q : Nat) (b : Bool) :
    (w.subscribe c f q b).retainedIn = w.retainedIn := by
  funext p
  cases p with
  | trash =>
    rw [subscribe_eq]
    rfl
  | entry b' g =>
    rw [retainedIn, topicAt_subscribe, retainedIn]
    split_ifs with h
    · obtain ⟨rfl, rfl⟩ := h
      cases w.topicAt (.entry b' g) <;> rfl
    · rfl

/-- A topic that retains a message is not erased. -/
@[simp] theorem retainedIn_unsubscribe (f : Bytes) (b : Bool) :
    (w.unsubscribe c f b).retainedIn = w.retainedIn := by
  funext p
  cases p with
  | trash =>
    rw [unsubscribe_eq]
    rfl
  | entry b' g =>
    rw [retainedIn, topicAt_unsubscribe, retainedIn]
    split_ifs with h
    · obtain ⟨rfl, rfl⟩ := h
      cases ht : w.topicAt (.entry b' g) with
      | none => rfl
      | some t =>
        rw [Option.map_some, Option.filter_some]
        cases he : (t.unsubscribe c).empty with
        | true => exact ((Topic.empty_iff _).1 he).1.symm
        | false => rfl
    · rfl

@[simp] theorem retainedIn_unsubscribeAll : (w.unsubscribeAll c).retainedIn = w.retainedIn :=
  rel_unsubscribeAll (F := ⟨fun w w' => w'.retainedIn = w.retainedIn, fun _ => rfl,
    fun h₁ h₂ => h₂.trans h₁⟩) (fun w f b => w.retainedIn_unsubscribe c f b) w

@[simp] theorem retainedIn_remove : (w.remove c).retainedIn = w.retainedIn := by
  rw [← w.retainedIn_unsubscribeAll c, remove]
  split_ifs <;> exact retainedIn_of_topics _ rfl rfl

@[simp] theorem retainedIn_resubscribe : (w.resubscribe c).retainedIn = w.retainedIn :=
  rel_resubscribe (F := ⟨fun w w' => w'.retainedIn = w.retainedIn, fun _ => rfl,
    fun h₁ h₂ => h₂.trans h₁⟩) fun _ _ v => v.retainedIn_subscribe c _ _ _

@[simp] theorem retainedAt_subscribe (f : Bytes) (q : Nat) (b : Bool) :
    (w.subscribe c f q b).retainedAt = w.retainedAt :=
  retainedAt_of_retainedIn _ (w.retainedIn_subscribe c f q b)

@[simp] theorem retainedAt_unsubscribe (f : Bytes) (b : Bool) :
    (w.unsubscribe c f b).retainedAt = w.retainedAt :=
  retainedAt_of_retainedIn _ (w.retainedIn_unsubscribe c f b)

@[simp] theorem retainedAt_remove : (w.remove c).retainedAt = w.retainedAt :=
  retainedAt_of_retainedIn _ (w.retainedIn_remove c)

@[simp] theorem retainedAt_resubscribe : (w.resubscribe c).retainedAt = w.retainedAt :=
  retainedAt_of_retainedIn _ (w.retainedIn_resubscribe c)

/-- A message is retained by the topic it is stored in, if it is not empty. -/
theorem retainedIn_storeRetained (p : TopicPtr) (m : MqttPublish) (p' : TopicPtr) :
    (w.storeRetained p m).retainedIn p' =
      if m.retain = true ∧ p = p' ∧ (w.topicAt p).isSome then
        if m.payload = [] then none else some m
      else w.retainedIn p' := by
  by_cases hr : m.retain = true
  swap
  · rw [storeRetained, if_neg hr, if_neg fun h => hr h.1]
  cases p' with
  | entry b f =>
    rw [retainedIn, topicAt_storeRetained]
    by_cases hp : p = .entry b f
    · subst hp
      cases ht : w.topicAt (.entry b f) with
      | none => simp [retainedIn, ht, hr]
      | some t => simp [Topic.retain, hr, List.length_eq_zero_iff]
    · rw [if_neg fun h => hp h.2, if_neg fun h => hp h.2.1, retainedIn]
  | trash =>
    rw [storeRetained, if_pos hr]
    cases p with
    | trash => simp [modifyTopic, setTopic, retainedIn, topicAt, Topic.retain, hr,
        List.length_eq_zero_iff]
    | entry b f =>
      rw [if_neg fun h => TopicPtr.noConfusion h.2.1, modifyTopic_entry_eq]
      rfl

theorem retainedAt_storeRetained (p : TopicPtr) (m : MqttPublish) (f : Bytes) :
    (w.storeRetained p m).retainedAt f =
      if m.retain = true ∧ p = .entry false f ∧ (w.topicAt p).isSome then
        if m.payload = [] then none else some m
      else w.retainedAt f := w.retainedIn_storeRetained p m (.entry false f)

/-- Storing a message makes no topics. -/
theorem isSome_topicAt_storeRetained (p : TopicPtr) (m : MqttPublish) (b : Bool) (f : Bytes) :
    ((w.storeRetained p m).topicAt (.entry b f)).isSome = (w.topicAt (.entry b f)).isSome := by
  rw [storeRetained]
  split_ifs
  · rw [topicAt_modifyTopic w (u := fun t => t.retain m) fun _ => rfl]
    split_ifs with hp
    · rw [hp, Option.isSome_map]
    · rfl
  · rfl

end World

end MqttBroker
