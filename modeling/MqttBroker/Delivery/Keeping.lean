import MqttBroker.Delivery.DeadTopics

/-!
# What the topics keep

A topic of either table keeps the last message to retain that a call brought for it
while it was there (`World.storedAt`), unless that was empty. Such a topic is not
erased, so nothing else than another such message changes what is kept
(`keptAt_step`), and after a run the kept messages can be read off the calls
(`kept_run_iff`).
-/

namespace MqttBroker

open Prog

/-- What the message says that the topic at a place retains. -/
def World.keptAt (w : World) (b : Bool) (f : Bytes) : Option (Nat × Bool × Bytes × Bytes) :=
  ((w.topicAt (.entry b f)).bind Topic.retainedMessage).map MqttPublish.content

/-- What the message says that a call brings for the topic at a place to retain, if the
    topic is there: a PUBLISH of the client at the channel, or its will. -/
def World.storedAt (w : World) (e : Event) (b : Bool) (f : Bytes) :
    Option (Nat × Bool × Bytes × Bytes) :=
  if (w.topicAt (.entry b f)).isSome then
    (w.param e.action.channelId).bind fun c =>
      match e.packet with
      | some (.publish m) => if m.retain = true ∧ m.Reaches b f then some m.content else none
      | some _ => none
      | none =>
        if e.action = .disconnected e.action.channelId ∧
            c.willFlag = true ∧ c.willRetain = true ∧ b = false ∧ f = c.willTopic then
          some c.willContent
        else none
  else none

/-- What is kept where a message is stored: an empty one clears. -/
def keeping (stored : Nat × Bool × Bytes × Bytes) : Option (Nat × Bool × Bytes × Bytes) :=
  if stored.2.2.2 = [] then none else some stored

variable {cfg : Config} {w v w' : World} {e : Event} {c : MqttClient} {l : List (World × Event)}

/-! ## Operations -/

namespace World

variable (w) (c)

theorem keptAt_of_topics (h : w'.topics = w.topics) : w'.keptAt = w.keptAt := by
  funext b f
  rw [keptAt, topicAt, h]
  rfl

theorem keptAt_of_retainedIn (h : w'.retainedIn = w.retainedIn) : w'.keptAt = w.keptAt :=
  funext fun b => funext fun f => congrArg (Option.map _) (congrFun h (.entry b f))

theorem keptAt_subscribe (f : Bytes) (q : Nat) (b : Bool) :
    (w.subscribe c f q b).keptAt = w.keptAt :=
  keptAt_of_retainedIn _ (w.retainedIn_subscribe c f q b)

theorem keptAt_unsubscribe (f : Bytes) (b : Bool) : (w.unsubscribe c f b).keptAt = w.keptAt :=
  keptAt_of_retainedIn _ (w.retainedIn_unsubscribe c f b)

end World

/-- What is kept stays. -/
def Kept : Frame World where
  rel w w' := w'.keptAt = w.keptAt
  refl _ := rfl
  trans h₁ h₂ := h₂.trans h₁

theorem kept_remove (w : World) (c : MqttClient) : Kept.rel w (w.remove c) := by
  have hall : Kept.rel w (w.unsubscribeAll c) :=
    rel_unsubscribeAll (fun w f b => w.keptAt_unsubscribe c f b) w
  rw [World.remove]
  split_ifs <;> exact hall

/-- A message is stored in the topics at the places `S`. -/
theorem keptAt_of_stored {m : MqttPublish} {S : Bool → Bytes → Prop} [∀ b f, Decidable (S b f)]
    (hstored : ∀ b f, v.topicAt (.entry b f) =
      if S b f then (w.topicAt (.entry b f)).map fun t => t.retain m else w.topicAt (.entry b f))
    {b : Bool} {f : Bytes} {o : Option (Nat × Bool × Bytes × Bytes)}
    (ho : o = if (w.topicAt (.entry b f)).isSome ∧ S b f then some m.content else none) :
    v.keptAt b f = o.elim (w.keptAt b f) keeping := by
  rw [ho, World.keptAt, hstored, World.keptAt]
  cases w.topicAt (.entry b f) with
  | none => simp
  | some t =>
    by_cases hS : S b f
    · by_cases hempty : m.payload = [] <;>
        simp [hS, hempty, Topic.retain, keeping, MqttPublish.content]
    · simp [hS]

/-! ## Steps -/

/-- A PUBLISH of a client is stored where it comes to. -/
theorem keptAt_publish (hsys : w.SysInv) (hst : (broker cfg).step w e = some w') {m : MqttPublish}
    (hc : w.param e.action.channelId = some c) (hp : e.packet = some (.publish m)) (b : Bool)
    (f : Bytes) : w'.keptAt b f = (w.storedAt e b f).elim (w.keptAt b f) keeping := by
  obtain ⟨hqos, -, -, hsize⟩ := (decoded_of_admits hp ((step_eq_some cfg).1 hst).1).2
  have hserved := served_eq w e.action.channelId c (.publish m)
  have htrash : (w.served e.action.channelId c (.publish m)).trashTopic = w.trashTopic := by
    rw [hserved]
  have hforward := returns_forwardPublish_stores
    (w := w.served e.action.channelId c (.publish m)) (m := m) ⟨hqos, by omega⟩ (by
      rw [htrash, hsys.trash, show sysTrash.length = 10 from rfl]
      omega) e.iteration
  -- What the handler does before it forwards leaves the topics.
  have htopics : (w.served e.action.channelId c (.publish m)).topics = w.topics := by rw [hserved]
  have hkept := step_forward hst hc hp hforward
  rw [← World.keptAt_of_topics _ htopics]
  refine keptAt_of_stored hkept ?_
  rw [World.storedAt, hc, hp, World.topicAt, World.topicAt, htopics]
  by_cases ht : ((w.topics b).find f).isSome
  · exact (if_pos ht).trans (if_congr (and_iff_right ht).symm rfl rfl)
  · exact (if_neg ht).trans (if_neg fun h => ht h.1).symm

/-- The will of a client whose channel is lost is stored in the topic of its name. -/
theorem keptAt_will (hinv : w.RetainedInv) (hst : (broker cfg).step w e = some w')
    (he : e.action = .disconnected e.action.channelId)
    (hc : w.param e.action.channelId = some c) (b : Bool) (f : Bytes) :
    w'.keptAt b f = (w.storedAt e b f).elim (w.keptAt b f) keeping := by
  obtain ⟨u, hwill, rfl⟩ := step_disconnected hst he hc
  obtain ⟨hqos, hsize⟩ := hinv.will hc
  obtain ⟨p, hcontent, hstored⟩ :=
    (returns_publishWillMessage_stores hqos hsize w).of_value hwill
  have hremove : ((u.remove c).conclude (.disconnected e.action.channelId)).keptAt = u.keptAt :=
    kept_remove u c
  have hpacket : e.packet = none := by rw [Event.packet, he]
  rw [hremove]
  refine keptAt_of_stored hstored ?_
  rw [hcontent, World.storedAt, hc, hpacket]
  by_cases ht : (w.topicAt (.entry b f)).isSome
  · rw [if_pos ht, Option.bind_some, if_congr (and_iff_right he) rfl rfl]
    exact if_congr (and_iff_right ht).symm rfl rfl
  · exact (if_neg ht).trans (if_neg fun h => ht h.1).symm

/-- Other calls leave what is kept. -/
theorem kept_stepFrame (hforward : ∀ c m, w.param e.action.channelId = some c →
      e.packet ≠ some (.publish m))
    (hwill : ∀ c, e.action = .disconnected e.action.channelId →
      w.param e.action.channelId ≠ some c) : StepFrame Kept w e where
  channels hv _ _ := World.keptAt_of_topics _ (by rw [hv])
  answer _ _ _ := rfl
  refuse _ _ _ := rfl
  retained it fs gs := Within.mono (F := TopicsKept)
    (within_publishRetainedMessage it _ fs gs fun _ _ _ m _ _ =>
      .inl fun client maxQos => topicsKept_publish client maxQos true m)
    fun _ _ htopics => World.keptAt_of_topics _ htopics
  forward hc hp _ := absurd hp (hforward _ _ hc)
  will he hc _ := absurd hc (hwill _ he)
  subscribe {v c entry} _ _ _ _ := v.keptAt_subscribe c _ _ _
  subscribeTrash _ _ := rfl
  unsubscribe {v c entry} _ _ := by
    rw [World.unsubscribeEntry]
    split
    · exact Kept.refl v
    · exact v.keptAt_unsubscribe c _ _
  leave {v c} _ := kept_remove _ c

theorem kept_joined (cfg : Config) (w : World) (j : Joining)
    (hk : (w.contexts j.channelId).isSome) : Kept.rel w (w.joined cfg j) := by
  obtain ⟨r, sessionPresent, v, -, -, -, ⟨htopics, -⟩, hcases⟩ := joined_cases cfg w j hk
  have hv : Kept.rel w v := World.keptAt_of_topics _ htopics
  rcases hcases with ⟨-, -, -, hw⟩ | ⟨-, -, -, hw⟩ <;> rw [hw]
  · have hresub := rel_resubscribe (F := Kept) (w := v) (c := (j.client w).setSessionPtr r)
      fun sub _ u => u.keptAt_subscribe _ _ _ _
    exact Kept.trans (Kept.trans hv hresub)
      (rel_redeliver (F := Kept) (fun _ => rfl) (fun _ => rfl) (fun _ _ => rfl) _)
  · exact hv

/-- What a topic keeps is replaced by what a call brings for it, and changed by nothing
    else. -/
theorem keptAt_step (h : (broker cfg).Reachable w) (hst : (broker cfg).step w e = some w')
    (b : Bool) (f : Bytes) :
    w'.keptAt b f = (w.storedAt e b f).elim (w.keptAt b f) keeping := by
  by_cases hpublish : ∃ c m, w.param e.action.channelId = some c ∧ e.packet = some (.publish m)
  · obtain ⟨c, m, hc, hp⟩ := hpublish
    exact keptAt_publish (sys_of_reachable h) hst hc hp b f
  by_cases hlost : ∃ c, e.action = .disconnected e.action.channelId ∧
      w.param e.action.channelId = some c
  · obtain ⟨c, he, hc⟩ := hlost
    exact keptAt_will (retainedInv_of_reachable h) hst he hc b f
  have hnone : w.storedAt e b f = none := by
    rw [World.storedAt]
    split_ifs
    · cases hc : w.param e.action.channelId with
      | none => rfl
      | some c =>
        rw [Option.bind_some]
        cases hp : e.packet with
        | none => exact if_neg fun hw => hlost ⟨c, hw.1, hc⟩
        | some p =>
          cases p with
          | publish m => exact absurd ⟨c, m, hc, hp⟩ hpublish
          | _ => rfl
    · rfl
  have hkept : Kept.rel w w' := by
    refine Kept.trans ?_ ((kept_stepFrame (fun c m hc hp => hpublish ⟨c, m, hc, hp⟩)
      fun c he hc => hlost ⟨c, he, hc⟩).step hst)
    rcases received_cases cfg w e with
      ⟨j, hj, hw⟩ | ⟨-, ⟨packet, -, hw⟩ | ⟨c, p, -, -, -, hw⟩ | hw⟩ <;> rw [hw]
    · exact kept_joined cfg w j (isSome_contexts_of_joining hst hj)
    · exact World.keptAt_of_topics _ (w.topics_greet _ cfg packet).1
    · exact World.keptAt_of_topics _ (by rw [served_eq])
    · exact Kept.refl w
  rw [hnone, hkept]
  rfl

/-! ## Runs -/

variable {b : Bool} {f topicName payload : Bytes} {qos : Nat} {retain : Bool}

/-- A topic keeps a message exactly if it is not empty, and the last call that brought one
    for the topic, while that was there, brought this one. -/
theorem kept_run_iff (h : (broker cfg).Run l w) :
    w.keptAt b f = some (qos, retain, topicName, payload) ↔
      ∃ l₁ x l₂, l = l₁ ++ x :: l₂ ∧ payload ≠ [] ∧
        x.1.storedAt x.2 b f = some (qos, retain, topicName, payload) ∧
          ∀ y ∈ l₂, y.1.storedAt y.2 b f = none := by
  have hkeeping : ∀ o : Option (Nat × Bool × Bytes × Bytes),
      (∃ stored ∈ o, keeping stored = some (qos, retain, topicName, payload)) ↔
        payload ≠ [] ∧ o = some (qos, retain, topicName, payload) := by
    intro o
    constructor
    · rintro ⟨stored, rfl, hkeeping⟩
      rw [keeping] at hkeeping
      split_ifs at hkeeping with hempty
      obtain rfl := Option.some.inj hkeeping
      exact ⟨hempty, rfl⟩
    · rintro ⟨hempty, rfl⟩
      exact ⟨_, rfl, if_neg hempty⟩
  have hlast := h.last_iff (fun w => w.keptAt b f) (fun x => x.1.storedAt x.2 b f) keeping rfl
    (fun _ _ _ hs hst => keptAt_step hs hst b f) (qos, retain, topicName, payload)
  simp only [hkeeping, and_assoc] at hlast
  exact hlast

/-- A message is kept by the topic of its name and by a wild one, and a will replaces the
    first. -/
theorem kept_run_will : ∃ l w, (broker mqttdCfg).Run l w ∧
    w.keptAt true [hash] = some (0, true, [0x74], [0x01]) ∧
    w.keptAt false [0x74] = some (0, true, [0x74], [0x02]) ∧
    ∃ l₁ x l₂, l = l₁ ++ x :: l₂ ∧ ([0x02] : Bytes) ≠ [] ∧
      x.1.storedAt x.2 false [0x74] = some (0, true, [0x74], [0x02]) ∧
        ∀ y ∈ l₂, y.1.storedAt y.2 false [0x74] = none := by
  have hruns : runs (fun _ _ => true) [.accept 1, .accept 2, .read 1 (connectBytes 0x02 [0x61] []),
      .read 2 (connectBytes 0x26 [0x62] (lengthPrefixed [0x74] ++ lengthPrefixed [0x02])),
      .read 1 (subscribeBytes [0x74] 0), .read 1 (subscribeBytes [hash] 0),
      .read 1 (publishBytes 0x01 [0x74] [] [0x01]), .disconnected 2]
      (fun w => decide (w.keptAt true [hash] = some (0, true, [0x74], [0x01])) &&
        decide (w.keptAt false [0x74] = some (0, true, [0x74], [0x02]))) = true := by
    decide +kernel
  obtain ⟨l, w, hl, -, hkept⟩ := exists_run hruns
  obtain ⟨hwild, hkept⟩ := Bool.and_eq_true_iff.1 hkept
  have hkept := of_decide_eq_true hkept
  exact ⟨l, w, hl, of_decide_eq_true hwild, hkept, (kept_run_iff hl).1 hkept⟩

end MqttBroker
