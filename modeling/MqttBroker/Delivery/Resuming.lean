import MqttBroker.Delivery.Granting

/-!
# Resumed sessions

A client that resumes a session is entered at the topics again, with the QoS that
the session has for each filter (`subscriberAt_joined`), and then is sent the
retained messages that match, like one that subscribes (`step_resumes`). A client
with a new session is sent nothing (`step_joins_anew`).
-/

namespace MqttBroker

open Prog

variable {cfg : Config} {w w' : World} {e : Event} {c : MqttClient} {j : Joining} {s : SessionRef}

/-- The client of a session is entered as its subscriptions say. -/
theorem subscriberAt_resubscribe {sub : Subscription}
    (hsub : sub ∈ (w.session c.session).subscriptions) :
    (w.resubscribe c).subscriberAt (.entry sub.isWild sub.topicFilter) c.clientId =
      some ⟨c, sub.maxQos⟩ := by
  have hsubscription : w.directory.subscription c.session sub.topicFilter =
      some (sub.maxQos, sub.isWild) :=
    Option.map_eq_some_iff.2 ⟨sub, Keyed.find_eq_some.2 ⟨hsub, rfl⟩, rfl⟩
  have hentered : (w.resubscribe c).directory.subscriber sub.isWild sub.topicFilter c.clientId =
      some (c, sub.maxQos) := by
    rw [World.directory_resubscribe, Directory.resubscribe]
    simp only [if_pos, hsubscription]
  obtain ⟨x, hx, heq⟩ := Option.map_eq_some_iff.1 hentered
  obtain rfl : x = ⟨c, sub.maxQos⟩ := by
    obtain ⟨hclient, hqos⟩ := Prod.mk.inj heq
    rw [← hclient, ← hqos]
  rw [subscriberAt_eq]
  exact hx

/-- The subscriptions that a client is entered for when it resumes the session, those
    without wildcards first. -/
def Session.resumed (t : Session) : List Subscription :=
  (t.subscriptions.elems.filter fun sub => !sub.isWild) ++
    t.subscriptions.elems.filter fun sub => sub.isWild

/-- The deliveries of the retained messages, subscription by subscription, to the client of
    a CONNECT that resumes the session `s`. -/
def World.resumeDeliveries (cfg : Config) (w : World) (it : Iteration) (j : Joining)
    (s : SessionRef) : List Delivery :=
  (w.session s).resumed.flatMap fun sub => (w.joined cfg j).retainedDeliveries it
    ((j.client w).setSessionPtr s) sub.isWild sub.topicFilter

/-- A client that resumes a session is at its channel, and a subscriber again. -/
theorem subscriberAt_joined (cfg : Config) (hs : w.Resumes j s)
    (hk : (w.contexts j.channelId).isSome) :
    (w.joined cfg j).param j.channelId = some ((j.client w).setSessionPtr s) ∧
      ∀ sub ∈ (w.session s).subscriptions, (w.joined cfg j).subscriberAt
        (.entry sub.isWild sub.topicFilter) (j.client w).clientId =
          some ⟨(j.client w).setSessionPtr s, sub.maxQos⟩ := by
  obtain ⟨r, -, v, hparam, -, -, -, ⟨hr, -, hsession, hw⟩ | ⟨hnot, -⟩⟩ := joined_cases cfg w j hk
  · obtain rfl := Option.some.inj (hr.2.symm.trans hs.2)
    refine ⟨?_, fun sub hsub => ?_⟩
    · rw [hw, World.redeliver_eq, World.resubscribe_eq]
      exact hparam
    · rw [← hsession] at hsub
      rw [hw, World.redeliver_eq]
      exact subscriberAt_resubscribe (c := (j.client w).setSessionPtr r) hsub
  · exact absurd hs (hnot s)

/-- From the joined state, the deliveries of the retained messages are left to be made. -/
theorem delivering_resumed (cfg : Config) (h : w.RetainedInv) (hk : (w.contexts j.channelId).isSome)
    (hd : (Packet.connect j.packet).Decoded) (hs : w.Resumes j s) (it : Iteration) :
    Delivering (publishRetainedMessage it j.channelId
      (((w.session s).subscriptions.elems.filter fun sub => !sub.isWild).map
        Subscription.topicFilter)
      (((w.session s).subscriptions.elems.filter fun sub => sub.isWild).map
        Subscription.topicFilter)) (w.resumeDeliveries cfg it j s) () (w.joined cfg j) := by
  obtain ⟨hparam, hentered⟩ := subscriberAt_joined cfg hs hk
  have hretained : (w.joined cfg j).RetainedInv := retention_joined h j hk hd
  have hexact : ∀ sub ∈ (w.session s).subscriptions.elems.filter fun sub => !sub.isWild,
      sub.isWild = false := fun sub hsub => by simpa using (List.mem_filter.1 hsub).2
  have hwilds : ∀ sub ∈ (w.session s).subscriptions.elems.filter fun sub => sub.isWild,
      sub.isWild = true := fun sub hsub => (List.mem_filter.1 hsub).2
  have hsome : ∀ {b} {q : Subscription → Bool},
      (∀ sub ∈ (w.session s).subscriptions.elems.filter q, sub.isWild = b) →
      ∀ f ∈ ((w.session s).subscriptions.elems.filter q).map Subscription.topicFilter,
        ((w.joined cfg j).subscriberAt (.entry b f) (j.client w).clientId).isSome := by
    intro b q hb f hf
    obtain ⟨sub, hsub, rfl⟩ := List.mem_map.1 hf
    rw [← hb sub hsub, hentered sub (List.mem_filter.1 hsub).1]
    rfl
  have hpublish := delivering_publishRetainedMessage (c := (j.client w).setSessionPtr s) it
    (fun f m hm => (hretained.message hm).2) hparam (hsome hexact) (hsome hwilds)
  rwa [flatMap_retainedDeliveries _ _ _ hexact, flatMap_retainedDeliveries _ _ _ hwilds,
    ← List.flatMap_append] at hpublish

/-- A CONNECT that resumes a session makes the deliveries of the retained messages. -/
theorem step_resumes (h : (broker cfg).Reachable w) (hst : (broker cfg).step w e = some w')
    (hj : w.joining cfg e = some j) (hs : w.Resumes j s) :
    (w.joined cfg j).Makes (w.resumeDeliveries cfg e.iteration j s) w' := by
  obtain ⟨hp, hk, hjoining⟩ := joining_eq_some hj
  have hpublish := delivering_resumed cfg (retainedInv_of_reachable h)
    (isSome_contexts_of_joining hst hj) (decoded_of_admits hp ((step_eq_some cfg).1 hst).1).2 hs
    e.iteration
  refine returns_step hst hp ?_
  rw [hk]
  show Returns (handleConnect cfg e.iteration e.draws j.channelId j.packet) _ w
  rw [Returns, handleConnect_of_joining hjoining, acceptConnect_of_resumes cfg e.iteration hs]
  exact hpublish.returns.mono fun _ _ h => h.2.2

/-- With a new session, a CONNECT is done when it has joined. -/
theorem step_joins_anew (hst : (broker cfg).step w e = some w') (hj : w.joining cfg e = some j)
    (hnew : ∀ s, ¬w.Resumes j s) : w' = w.joined cfg j := by
  obtain ⟨hp, hk, hjoining⟩ := joining_eq_some hj
  refine eq_of_packetHandler hst hp ?_
  rw [hk]
  show handleConnect cfg e.iteration e.draws j.channelId j.packet w = _
  rw [handleConnect_of_joining hjoining, acceptConnect_of_new cfg e.iteration hnew]

end MqttBroker
