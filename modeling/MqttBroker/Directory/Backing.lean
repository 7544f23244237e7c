import MqttBroker.Directory.Leaving

/-!
# Subscribers subscribe

Whoever is entered at a topic of `_topics` or `_wild_topics` has subscribed to it: the
session of the client lists the filter, with the QoS and for the table of the entry
(`Directory.Backed`). The topic `$sys/trash`, which no session lists, is in neither. This
holds of every entry, also of one that a client left behind, as its session is used
under no other id (`Directory.Apart`).

A session that is listed for a filter need not be entered there, but that of a
connected client is. So what such a client receives is exactly what its session
lists (`entered_iff`).
-/

namespace MqttBroker

namespace Directory

/-- What is entered is a subscription of the session of its client. -/
def Backed (d : Directory) : Prop :=
  ∀ b f x c q, d.subscriber b f x = some (c, q) → d.subscription c.session f = some (q, b)

variable {d d' : Directory} {P : Bytes → Prop} {wildOf : Bytes → Bool} {k : ChannelId}
  {c : MqttClient} {x : Bytes}

namespace Backed

/-- An entry for the filter `f`, of the session of a client at a channel, is under the
    id of that client, in the table for `f`. -/
theorem eq_of_session (h : d.Backed) (ho : d.Owned wildOf) (ha : d.Apart)
    (hk : d.holder k = some c) {b : Bool} {f : Bytes} {c' : MqttClient} {q : Nat}
    (hs : d.subscriber b f x = some (c', q)) (hsession : c'.session = c.session) :
    b = wildOf f ∧ x = c.clientId :=
  ⟨ho.wild (h b f x c' q hs), (ho.key hs).symm.trans (ha.holder hk hs hsession)⟩

theorem subscribe (h : d.Backed) (ho : d.Owned wildOf) (ha : d.Apart) (hk : d.holder k = some c)
    (f : Bytes) (q : Nat) : (d.subscribe c f q (wildOf f)).Backed := by
  intro b g x c' q' hs
  simp only [Directory.subscribe] at hs ⊢
  split_ifs at hs with hnew
  · cases hs
    rw [if_pos ⟨rfl, hnew.2.1⟩, hnew.1]
  · rw [if_neg]
    · exact h b g x c' q' hs
    · -- An entry of this session for this filter would be the one that is replaced.
      rintro ⟨hsession, rfl⟩
      obtain ⟨hb, hx⟩ := h.eq_of_session ho ha hk hs hsession
      exact hnew ⟨hb, rfl, hx⟩

theorem unsubscribe (h : d.Backed) (ho : d.Owned wildOf) (ha : d.Apart) (hk : d.holder k = some c)
    (f : Bytes) : (d.unsubscribe c f (wildOf f)).Backed := by
  intro b g x c' q' hs
  simp only [Directory.unsubscribe] at hs ⊢
  split_ifs at hs with hgone
  rw [if_neg]
  · exact h b g x c' q' hs
  · rintro ⟨hsession, rfl⟩
    obtain ⟨hb, hx⟩ := h.eq_of_session ho ha hk hs hsession
    exact hgone ⟨hb, rfl, hx⟩

theorem leave (h : d.Backed) (k : ChannelId) (c : MqttClient) : (d.leave k c).Backed := by
  intro b f x c' q hs
  simp only [Directory.leave] at hs ⊢
  split_ifs at hs
  exact h b f x c' q hs

/-- Every step keeps the entries backed. -/
theorem step (h : d.Backed) (ho : d.Owned wildOf) (ha : d.Apart) (hd : d.Step wildOf d') :
    d'.Backed := by
  cases hd with
  | allocate => exact h
  | subscribe hk => exact h.subscribe ho ha hk _ _
  | unsubscribe hk => exact h.unsubscribe ho ha hk _
  | leave hk => exact h.leave _ _

theorem steps (h : d.Backed) (hv : d.Valid P) (ho : d.Owned wildOf) (ha : d.Apart)
    (hd : Relation.ReflTransGen (Step wildOf) d d') : d'.Backed := by
  have hall : (d'.Valid P ∧ d'.Owned wildOf ∧ d'.Apart) ∧ d'.Backed := by
    induction hd with
    | refl => exact ⟨⟨hv, ho, ha⟩, h⟩
    | tail _ hs ih =>
      obtain ⟨⟨hv, ho, ha⟩, h⟩ := ih
      exact ⟨⟨hv.step hs, ho.step hs, ha.step hv ho hs⟩, h.step ho ha hs⟩
  exact hall.2

/-- A connection enters the subscriptions of its session, and no entry from before has
    the session that it makes. -/
theorem connect (h : d.Backed) (ha : d.Apart) : (d.connect k c x).Backed := by
  intro b f y c' q hs
  rcases connect_subscriber_cases hs with ⟨rfl, -, hsub⟩ | hs
  · exact hsub
  · rw [connect_subscription, if_neg fun hnew => Nat.ne_of_lt (ha.lt hs) hnew.2]
    exact h b f y c' q hs

end Backed

end Directory

/-! ## Runs -/

variable {cfg : Config} {w w' : World} {e : Event} {l : List (World × Event)}

theorem backed_step (h : (broker cfg).Reachable w) (hst : (broker cfg).step w e = some w')
    (hb : w.directory.Backed) : w'.directory.Backed := by
  have ha := apart_of_reachable h
  rcases step_cases hst with ⟨-, hsteps, -⟩ | ⟨j, -, hdir, -⟩
  · exact hb.steps (valid_of_reachable h) (owned_of_reachable h) ha hsteps
  · rw [hdir]
    exact Directory.Backed.connect (d := w.directory.allocate) hb ⟨ha.lt, ha.stored, ha.holder⟩

theorem backed_of_reachable (h : (broker cfg).Reachable w) : w.directory.Backed :=
  h.induct (I := fun w => w.directory.Backed) (fun _ _ _ _ _ hs => by cases hs)
    fun _ _ _ hw hb hst => backed_step hw hst hb

/-- A subscriber of a topic has a subscription for it. -/
theorem subscription_of_subscriber (h : (broker cfg).Reachable w) {b : Bool} {f : Bytes}
    {s : Subscriber} (hs : s ∈ w.subscribersAt (.entry b f)) :
    ⟨f, s.maxQos, b⟩ ∈ (w.session s.client.session).subscriptions := by
  obtain ⟨sub, hfind, heq⟩ := Option.map_eq_some_iff.1 (backed_of_reachable h _ _ _ _ _
    (subscriber_of_mem hs))
  obtain ⟨hmem, hf⟩ := Keyed.find_eq_some.1 hfind
  obtain ⟨hq, hb⟩ := Prod.mk.inj heq
  rwa [← hf, ← hq, ← hb]

/-- What the session of a connected client with an id of its own lists is entered. -/
theorem subscriber_of_listed (h : (broker cfg).Reachable w) {k : ChannelId} {c : MqttClient}
    (hk : w.param k = some c) (hid : c.clientId ≠ []) {b : Bool} {f : Bytes} {q : Nat}
    (hs : ⟨f, q, b⟩ ∈ (w.session c.session).subscriptions) :
    ⟨c, q⟩ ∈ w.subscribersAt (.entry b f) := by
  have hv := valid_of_reachable h
  have hsub : w.directory.subscription c.session f = some (q, b) := by
    simp only [World.directory, Keyed.find_eq_some.2 ⟨hs, rfl⟩, Option.map_some]
  have hentry := hv.client_subscriber (hv.holder_client (k := k) hk hid) hid hsub
  obtain ⟨s, hfind, heq⟩ := Option.map_eq_some_iff.1 hentry
  obtain ⟨t, ht, hfind⟩ := Option.bind_eq_some_iff.1 hfind
  obtain ⟨hc, hq⟩ := Prod.mk.inj heq
  have hmem : s ∈ w.subscribersAt (.entry b f) := by
    rw [World.subscribersAt, ht]
    exact (Keyed.find_eq_some.1 hfind).1
  rwa [← hc, ← hq]

/-- Among the topics of `_topics` and `_wild_topics`, a connected client with an id of its own
    is a subscriber of exactly those that its session lists, each with the QoS listed. -/
theorem entered_iff (h : (broker cfg).Reachable w) {k : ChannelId} {c : MqttClient}
    (hk : w.param k = some c) (hid : c.clientId ≠ []) (b : Bool) (f : Bytes) (q : Nat) :
    ⟨c, q⟩ ∈ w.subscribersAt (.entry b f) ↔ ⟨f, q, b⟩ ∈ (w.session c.session).subscriptions :=
  ⟨subscription_of_subscriber h, subscriber_of_listed h hk hid⟩

/-- A client that resumes its session on another channel is entered there again. -/
theorem entered_resumed : ∃ w c, (broker mqttdCfg).Reachable w ∧ w.param 2 = some c ∧
    (⟨c, 1⟩ : Subscriber) ∈ w.subscribersAt (.entry false [0x74]) := by
  have hruns : runs (fun _ _ => true) [.accept 1, .accept 2, .read 1 (connectBytes 0x00 [0x61] []),
      .read 1 (subscribeBytes [0x74] 1), .read 2 (connectBytes 0x00 [0x61] [])]
      (fun w => (w.param 2).any fun c => decide (c.clientId ≠ []) &&
        (w.session c.session).subscriptions.elems.contains ⟨[0x74], 1, false⟩) = true := by
    decide +kernel
  obtain ⟨l, w, hl, -, hp⟩ := exists_run hruns
  obtain ⟨c, hc, hp⟩ := Option.any_eq_true _ _ |>.1 hp
  obtain ⟨hid, hsub⟩ := Bool.and_eq_true _ _ ▸ hp
  exact ⟨w, c, hl.reachable, hc, (entered_iff hl.reachable hc (of_decide_eq_true hid) _ _ _).2
    (List.contains_iff_mem.1 hsub)⟩

end MqttBroker
