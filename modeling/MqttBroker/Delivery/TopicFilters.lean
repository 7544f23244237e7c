import MqttBroker.Delivery.DeadTopics

/-!
# The topic filters that are in use

What a topic is entered under, and what a session lists, are filters that
`handle_subscribe` granted: they are valid, none begins with a dollar, and each is for
the table it is in (`World.Entered`). No topic is left that it did not make.
-/

namespace MqttBroker

open Prog

/-- A filter that `handle_subscribe` grants, for the table that it is for. -/
structure Grantable (b : Bool) (f : Bytes) : Prop where
  nonempty : f ≠ []
  valid : (isTopicFilterValid f).1 = true
  notSys : f.head? ≠ some dollar
  wild : b = isWildFilter f

/-- The topics and the subscriptions are for filters that can be granted. -/
structure World.Entered (w : World) : Prop where
  topic {b f} : (w.topicAt (.entry b f)).isSome → Grantable b f
  subscription {s sub} : sub ∈ (w.session s).subscriptions → Grantable sub.isWild sub.topicFilter

variable {cfg : Config} {w v w' : World} {e : Event} {c : MqttClient}

namespace World.Entered

/-- No topic is made, and the subscriptions become fewer. -/
theorem of_less (h : w.Entered)
    (htopic : ∀ b f, (w'.topicAt (.entry b f)).isSome → (w.topicAt (.entry b f)).isSome)
    (hsub : ∀ s sub, sub ∈ (w'.session s).subscriptions → sub ∈ (w.session s).subscriptions) :
    w'.Entered where
  topic ht := h.topic (htopic _ _ ht)
  subscription hs := h.subscription (hsub _ _ hs)

theorem of_topics (h : w.Entered) (htopics : w'.topics = w.topics)
    (hsub : ∀ s sub, sub ∈ (w'.session s).subscriptions → sub ∈ (w.session s).subscriptions) :
    w'.Entered := by
  refine h.of_less (fun b f ht => ?_) hsub
  rwa [World.topicAt, htopics] at ht

theorem modifySession (h : w.Entered) (s : SessionRef) {f : Session → Session}
    (hf : ∀ sub ∈ (f (w.session s)).subscriptions, (∀ sub ∈ (w.session s).subscriptions,
      Grantable sub.isWild sub.topicFilter) → Grantable sub.isWild sub.topicFilter) :
    (w.modifySession s f).Entered where
  topic ht := h.topic ht
  subscription {s' sub} hs := by
    rw [World.session_modifySession] at hs
    split_ifs at hs
    · exact hf sub hs fun _ hs => h.subscription hs
    · exact h.subscription hs

/-- The subscriptions of a session are left. -/
theorem modifySession_less (h : w.Entered) (s : SessionRef) {f : Session → Session}
    (hf : ∀ sub ∈ (f (w.session s)).subscriptions, sub ∈ (w.session s).subscriptions) :
    (w.modifySession s f).Entered := h.modifySession s fun sub hs hall => hall sub (hf sub hs)

theorem subscribe (h : w.Entered) (c : MqttClient) {b : Bool} {f : Bytes} (hf : Grantable b f)
    (q : Nat) : (w.subscribe c f q b).Entered where
  topic {b' g} ht := by
    rw [World.topicAt_subscribe] at ht
    split_ifs at ht with hp
    · rw [hp.1, hp.2]
      exact hf
    · exact h.topic ht
  subscription hs := by
    rw [World.subscribe_eq] at hs
    exact h.subscription hs

theorem unsubscribe (h : w.Entered) (c : MqttClient) (f : Bytes) (b : Bool) :
    (w.unsubscribe c f b).Entered := by
  refine h.of_less (fun b' g ht => ?_) fun s sub hs => ?_
  · rw [World.topicAt_unsubscribe] at ht
    split_ifs at ht with hp
    · obtain ⟨rfl, rfl⟩ := hp
      cases ht' : w.topicAt (.entry b' g) with
      | none => simp [ht'] at ht
      | some t => rfl
    · exact ht
  · rw [World.unsubscribe_eq] at hs
    exact hs

end World.Entered

/-- The topics and the subscriptions stay so. -/
abbrev Entering : Frame World := Frame.keeping World.Entered

theorem entering_publishFrame : PublishFrame Entering where
  counter s w next h := h.modifySession_less s fun _ hs => hs
  publish client maxQos retained packet := by
    refine within_publish (fun w next h => h.modifySession_less _ fun _ hs => hs) (fun w p h => ?_)
      (fun w p _ h => h.of_topics rfl fun _ _ hs => hs) maxQos retained
    have hrecord : (w.record (.addressed client p)).Entered := h.of_topics rfl fun _ _ hs => hs
    refine hrecord.modifySession_less _ fun sub hs => ?_
    split_ifs at hs <;> exact hs
  store p m w h := by
    refine h.of_less (fun b f ht => ?_) fun s sub hs => ?_
    · rwa [World.isSome_topicAt_storeRetained] at ht
    · rw [World.storeRetained_eq] at hs
      exact hs
  noteWill _ _ h := h.of_topics rfl fun _ _ hs => hs
  note retain _ _ _ := rel_noteRetain (fun _ h => h.of_topics rfl fun _ _ hs => hs) retain

theorem entering_handlerFrame : HandlerFrame Entering where
  channels hw _ h := by
    refine h.of_topics ?_ fun s sub hs => ?_
    · rw [hw]
    · rw [hw] at hs
      exact hs
  write _ _ _ _ h := h.of_topics rfl fun _ _ hs => hs
  retained it k fs gs := entering_publishFrame.publishRetainedMessage it k fs gs
  will {w w' k c} _ hrun := by
    have hrel := entering_publishFrame.publishWillMessage c w
    rwa [hrun] at hrel
  subscribe {w k c entry} _ hd hq hsys h := by
    have hgrant : Grantable entry.isWild entry.topicFilter :=
      ⟨hd.1, (hd.2 hq).1, hsys, (hd.2 hq).2⟩
    refine (h.subscribe c hgrant entry.maxQos).modifySession _ fun sub hs hall => ?_
    rcases Keyed.mem_put.1 hs with rfl | ⟨hs, -⟩
    · exact hgrant
    · exact hall sub hs
  subscribeTrash _ _ h := h.of_topics rfl fun _ _ hs => hs
  unsubscribe {w k c entry} _ _ h := by
    rw [World.unsubscribeEntry]
    split
    · exact h
    · exact (h.unsubscribe c _ _).modifySession_less _ fun sub hs => (Keyed.mem_erase.1 hs).1
  leave {w k c} _ h := by
    have hparam : (w.setParam k none).Entered := h.of_topics rfl fun _ _ hs => hs
    have hall := rel_unsubscribeAll (F := Entering) (c := c)
      (fun w f b (h : w.Entered) => h.unsubscribe c f b) _ hparam
    rw [World.remove]
    split_ifs <;> exact hall.of_topics rfl fun _ _ hs => hs

/-- The subscriptions of a session that is resumed are entered again. -/
theorem entered_joined (cfg : Config) (h : w.Entered) (j : Joining)
    (hk : (w.contexts j.channelId).isSome) : (w.joined cfg j).Entered := by
  obtain ⟨r, sessionPresent, v, -, -, -, ⟨htopics, -⟩, hcases⟩ := joined_cases cfg w j hk
  rcases hcases with ⟨-, -, hsession, hw⟩ | ⟨-, -, hsession, hw⟩
  · have hv : v.Entered := h.of_topics htopics fun s sub hs => by rwa [hsession] at hs
    rw [hw]
    refine rel_redeliver (F := Entering) (fun w h => h.modifySession_less _ fun _ hs => hs)
      (fun w h => h.modifySession_less _ fun _ hs => hs)
      (fun w p h => h.of_topics rfl fun _ _ hs => hs) _ ?_
    exact rel_resubscribe (F := Entering) (fun sub hsub u hu => hu.subscribe _
      (hv.subscription hsub) _) hv
  · rw [hw]
    refine h.of_topics htopics fun s sub hs => ?_
    rw [hsession, Function.update_apply] at hs
    split_ifs at hs
    · exact absurd hs (Keyed.not_mem_empty sub)
    · exact hs

theorem entered_step (hst : (broker cfg).step w e = some w')
    (h : w.Entered) : w'.Entered := by
  refine entering_handlerFrame.step hst
    (fun _ m _ _ _ => entering_publishFrame.forwardPublish _ m) ?_
  rcases received_cases cfg w e with ⟨j, hj, hw⟩ | ⟨-, ⟨packet, -, hw⟩ | ⟨c, p, -, -, -, hw⟩ | hw⟩ <;>
    rw [hw]
  · exact entered_joined cfg h j (isSome_contexts_of_joining hst hj)
  · refine h.of_topics (w.topics_greet _ cfg packet).1 fun s sub hs => ?_
    rwa [w.session_greet] at hs
  · refine h.of_topics (by rw [served_eq]) fun s sub hs => ?_
    rwa [w.subscriptions_served] at hs
  · exact h

/-- What holds of the filters that are granted holds of all topics and subscriptions. -/
theorem entered_of_reachable (h : (broker cfg).Reachable w) :
    w.Entered := by
  refine h.invariant (I := World.Entered) ⟨fun ht => ?_, fun hs => ?_⟩
    fun _ _ _ hw hst => entered_step hst hw
  · exact absurd ht Bool.false_ne_true
  · exact absurd hs (Keyed.not_mem_empty _)

end MqttBroker
