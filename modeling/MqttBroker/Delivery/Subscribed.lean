import MqttBroker.Access.Presence
import MqttBroker.Delivery.Solicited

/-!
# What the sessions list

The subscriptions of a session are made by the SUBSCRIBEs of its clients and ended by
their UNSUBSCRIBEs (`World.lists`); nothing else touches them, whoever leaves, takes
over or resumes (`lists_step`). So after a run, a session lists a subscription exactly
if the last request for its filter that came from a client of this session granted it,
and among the topics of `_topics` and `_wild_topics`, a connected client is a subscriber
of exactly these (`subscribed_run_iff`).
-/

namespace MqttBroker

open Prog Relation

variable {cfg : Config} {v w w' : World} {e : Event} {c : MqttClient} {k : ChannelId}
  {l : List (World × Event)} {s : SessionRef} {f : Bytes} {sub : Subscription}

/-- What a call makes of the subscription that a session has for a topic filter: a
    SUBSCRIBE of a client of the session makes it what the last entry for the filter
    grants, and an UNSUBSCRIBE ends it, if there is such a topic. -/
def World.lists (w : World) (s : SessionRef) (f : Bytes) (e : Event) :
    Option (Option Subscription) :=
  ((w.param e.action.channelId).filter fun c => c.session = s).bind fun _ =>
    match e.packet with
    | some (.subscribe p) =>
      (p.topicFilters.filterMap fun entry => entry.subscriptionFor f).getLast?.map some
    | some (.unsubscribe p) =>
      if p.topicFilters.any fun entry =>
          entry.topicFilter = f && (w.topicAt (.entry entry.isWild f)).isSome then some none
      else none
    | _ => none

/-! ## New sessions -/

namespace Directory

variable {d d' : Directory} {P : Bytes → Prop} {wildOf : Bytes → Bool}

/-- A session that is not made yet has no subscriptions. -/
def Unused (d : Directory) : Prop :=
  ∀ s f v, d.subscription s f = some v → s < d.nextSession

theorem Unused.step (h : d.Unused) (hv : d.Valid P) (hd : d.Step wildOf d') : d'.Unused := by
  cases hd with
  | allocate | leave => exact h
  | @subscribe k c f q hk =>
    intro s g v hs
    simp only [Directory.subscribe] at hs
    split_ifs at hs with hnew
    · exact hnew.1 ▸ hv.holder_lt hk
    · exact h s g v hs
  | unsubscribe =>
    intro s g v hs
    simp only [Directory.unsubscribe] at hs
    split_ifs at hs
    exact h s g v hs

theorem Unused.steps (h : d.Unused) (hv : d.Valid P) (hd : ReflTransGen (Step wildOf) d d') :
    d'.Unused := by
  have hall : d'.Valid P ∧ d'.Unused := by
    induction hd with
    | refl => exact ⟨hv, h⟩
    | tail _ hs ih => exact ⟨ih.1.step hs, ih.2.step ih.1 hs⟩
  exact hall.2

theorem Unused.connect (h : d.Unused) (k : ChannelId) (c : MqttClient) (x : Bytes) :
    (d.connect k c x).Unused := by
  intro s f v hs
  rw [connect_nextSession]
  rw [connect_subscription] at hs
  split_ifs at hs ⊢
  · exact h s f v hs
  · exact Nat.lt_succ_of_lt (h s f v hs)

end Directory

theorem unused_of_reachable (h : (broker cfg).Reachable w) : w.directory.Unused := by
  refine h.induct (I := fun w => w.directory.Unused) (fun s f v hs => ?_) fun w e w' hw hu hst => ?_
  · cases hs
  · rcases step_cases hst with ⟨-, hsteps, -⟩ | ⟨j, -, hdir, -⟩
    · exact hu.steps (valid_of_reachable hw) hsteps
    · rw [hdir]
      exact Directory.Unused.connect (d := w.directory.allocate) hu _ _ _

/-! ## UNSUBSCRIBE -/

/-- Only the topic that is unsubscribed from may go. -/
theorem isSome_topicAt_unsubscribeEntry {entry : UnsubscribeEntry} {b : Bool}
    (h : f ≠ entry.topicFilter ∨ w.topicAt (.entry entry.isWild entry.topicFilter) = none) :
    ((w.unsubscribeEntry c entry).topicAt (.entry b f)).isSome =
      (w.topicAt (.entry b f)).isSome := by
  rw [World.unsubscribeEntry]
  split
  · rfl
  · next t ht =>
    show ((w.unsubscribe c entry.topicFilter entry.isWild).topicAt (.entry b f)).isSome = _
    rw [World.topicAt_unsubscribe, if_neg fun hp => ?_]
    exact (h.resolve_right (ht ▸ Option.some_ne_none t)) hp.2

/-- An entry ends the subscription for its filter, if there is the topic. -/
theorem find_unsubscribeEntry (w : World) (c : MqttClient) (entry : UnsubscribeEntry) :
    ((w.unsubscribeEntry c entry).session c.session).subscriptions.find f =
      if entry.topicFilter = f ∧ (w.topicAt (.entry entry.isWild f)).isSome then none
      else (w.session c.session).subscriptions.find f := by
  have hsession : (w.unsubscribe c entry.topicFilter entry.isWild).session = w.session := by
    rw [World.unsubscribe_eq]
  rw [World.unsubscribeEntry]
  split
  · next hnone =>
    rw [if_neg]
    rintro ⟨rfl, hsome⟩
    rw [hnone] at hsome
    cases hsome
  · next t ht =>
    rw [World.session_modifySession, if_pos rfl, hsession]
    show ((w.session c.session).subscriptions.erase entry.topicFilter).find f = _
    rw [Keyed.find_erase]
    by_cases hf : f = entry.topicFilter
    · rw [if_pos hf, if_pos ⟨hf.symm, by rw [hf, ht]; rfl⟩]
    · rw [if_neg hf, if_neg fun h => hf h.1.symm]

/-- The entries of an UNSUBSCRIBE end the subscriptions for their filters. -/
theorem find_foldl_unsubscribeEntry (entries : List UnsubscribeEntry) (w : World) (c : MqttClient) :
    ((entries.foldl (fun w entry => w.unsubscribeEntry c entry) w).session
        c.session).subscriptions.find f =
      if entries.any fun entry =>
          entry.topicFilter = f && (w.topicAt (.entry entry.isWild f)).isSome then none
      else (w.session c.session).subscriptions.find f := by
  induction entries generalizing w with
  | nil => rfl
  | cons entry entries ih =>
    rw [List.foldl_cons, ih, find_unsubscribeEntry, List.any_cons]
    by_cases hends : entry.topicFilter = f ∧ (w.topicAt (.entry entry.isWild f)).isSome
    · rw [if_pos hends, ite_self, if_pos]
      simp [hends]
    · -- The topics for the filter are still there.
      have htopics : ∀ b, ((w.unsubscribeEntry c entry).topicAt (.entry b f)).isSome =
          (w.topicAt (.entry b f)).isSome := by
        refine fun b => isSome_topicAt_unsubscribeEntry ?_
        by_cases hf : f = entry.topicFilter
        · refine .inr (Option.not_isSome_iff_eq_none.1 fun hsome => hends ⟨hf.symm, ?_⟩)
          rwa [hf]
        · exact .inl hf
      have hfalse : (decide (entry.topicFilter = f) &&
          (w.topicAt (.entry entry.isWild f)).isSome) = false := by
        simpa using hends
      simp only [htopics, if_neg hends, hfalse, Bool.false_or]

/-! ## Other calls -/

/-- A call that brings no packet, and no lost channel, changes channels only. -/
theorem quiet_of_no_packet (hst : (broker cfg).step w e = some w') (hp : e.packet = none)
    (hlost : e.action ≠ .disconnected e.action.channelId) : Quiet.rel w w' := by
  obtain ⟨hadmits, t, hrun, rfl⟩ := (step_eq_some cfg).1 hst
  rw [Event.program] at hrun
  rw [Event.packet] at hp
  generalize e.action = a at hadmits hrun hp hlost ⊢
  cases a with
  | accept k =>
    cases hrun
    exact quiet_contexts rfl (param_accept hadmits)
  | read k sb =>
    have hrel := rel_guarded (fun v => quiet_close v k) hrun
    rwa [channelReadPipeline_of_no_packet fun p rest hread => by simp [hread] at hp] at hrel
  | written k =>
    have hwritten : Within Quiet (channelWritten k) := within_bind within_get fun v =>
      within_ite (within_modify fun v => quiet_close v k) (within_pure ())
    exact Quiet.trans (hwritten w) (rel_guarded (fun v => quiet_close v k) hrun)
  | userEvent k =>
    cases hrun
    exact quiet_close w k
  | disconnected k => exact absurd rfl hlost

/-- The packets that are no request for topics leave the directory, but for a DISCONNECT. -/
theorem quiet_of_packet (hst : (broker cfg).step w e = some w') {p : Packet}
    (hp : e.packet = some p) (hc : w.param e.action.channelId = some c)
    (hconnect : ∀ q, p ≠ .connect q) (hsubscribe : ∀ q, p ≠ .subscribe q)
    (hunsubscribe : ∀ q, p ≠ .unsubscribe q) (hdisconnect : ∀ q, p ≠ .disconnect q) :
    Quiet.rel w w' := by
  obtain ⟨-, t, hrun, rfl⟩ := (step_eq_some cfg).1 hst
  obtain ⟨sb, rest, hact, -⟩ := packet_eq_some hp
  rw [program_of_packet hp] at hrun
  rw [hact]
  refine Quiet.trans ?_ (rel_guarded (fun v => quiet_close v _) hrun)
  cases p with
  | connect q => exact absurd rfl (hconnect q)
  | subscribe q => exact absurd rfl (hsubscribe q)
  | unsubscribe q => exact absurd rfl (hunsubscribe q)
  | disconnect q => exact absurd rfl (hdisconnect q)
  | connack | suback | unsuback | pingresp => exact Quiet.refl w
  | publish m =>
    show Quiet.rel w (handlePublish e.iteration _ m w).2
    rw [handlePublish, agent_bind_apply hc, modify_bind_apply]
    exact Quiet.trans (quiet_served w _ c (.publish m)) (quiet_publishFrame.forwardPublish _ m _)
  | puback a =>
    show Quiet.rel w (handlePuback _ a w).2
    rw [handlePuback, agent_bind_apply hc]
    exact quiet_served w e.action.channelId c (.puback a)
  | pubrec a =>
    show Quiet.rel w (handlePubrec _ a w).2
    rw [handlePubrec, agent_bind_apply hc, modify_bind_apply]
    exact Quiet.trans (quiet_served w e.action.channelId c (.pubrec a)) (quiet_write _ _ _)
  | pubrel a =>
    show Quiet.rel w (handlePubrel _ a w).2
    rw [handlePubrel, agent_bind_apply hc, modify_bind_apply]
    exact Quiet.trans (quiet_served w e.action.channelId c (.pubrel a)) (quiet_write _ _ _)
  | pubcomp a =>
    show Quiet.rel w (handlePubcomp _ a w).2
    rw [handlePubcomp, agent_bind_apply hc]
    exact quiet_served w e.action.channelId c (.pubcomp a)
  | pingreq a =>
    show Quiet.rel w (handlePingreq _ a w).2
    rw [handlePingreq, agent_bind_apply hc]
    exact Quiet.trans (quiet_served w e.action.channelId c (.pingreq a)) (quiet_write _ _ _)

/-! ## Steps -/

/-- The subscriptions of the directory are those of the sessions. -/
theorem find_of_subscription
    (h : w'.directory.subscription s f = w.directory.subscription s f) :
    (w'.session s).subscriptions.find f = (w.session s).subscriptions.find f := by
  simp only [World.directory] at h
  cases hfind : (w.session s).subscriptions.find f <;>
    cases hfind' : (w'.session s).subscriptions.find f <;> rw [hfind, hfind'] at h
  · cases h
  · cases h
  · next sub sub' =>
    obtain ⟨hqos, hwild⟩ := Prod.mk.inj (Option.some.inj h)
    have hfilter : sub'.topicFilter = sub.topicFilter :=
      (Keyed.mem_of_find hfind').2.trans (Keyed.mem_of_find hfind).2.symm
    cases sub
    cases sub'
    simp_all

theorem lists_of_no_request (hsubscribe : ∀ p, e.packet ≠ some (.subscribe p))
    (hunsubscribe : ∀ p, e.packet ≠ some (.unsubscribe p)) : w.lists s f e = none := by
  rw [World.lists]
  cases (w.param e.action.channelId).filter fun c => c.session = s with
  | none => rfl
  | some c =>
    rw [Option.bind_some]
    split
    · next p hp => exact absurd hp (hsubscribe p)
    · next p hp => exact absurd hp (hunsubscribe p)
    · rfl

/-- Other calls than SUBSCRIBE and UNSUBSCRIBE leave what the sessions list. -/
theorem find_of_no_request (h : (broker cfg).Reachable w) (hst : (broker cfg).step w e = some w')
    (hsubscribe : ∀ p, e.packet ≠ some (.subscribe p))
    (hunsubscribe : ∀ p, e.packet ≠ some (.unsubscribe p)) :
    (w'.session s).subscriptions.find f = (w.session s).subscriptions.find f := by
  refine find_of_subscription ?_
  have hquiet : Quiet.rel w w' →
      w'.directory.subscription s f = w.directory.subscription s f := fun hrel => by rw [hrel.1]
  cases hj : w.joining cfg e with
  | some j =>
    rw [(step_joining hst hj).1, Directory.connect_subscription]
    split_ifs with hnew
    · -- The session is a new one.
      refine (Option.eq_none_iff_forall_ne_some.2 fun v hv => ?_).symm
      exact Nat.lt_irrefl _ (hnew.2 ▸ unused_of_reachable h s f v hv)
    · rfl
  | none =>
    cases hleaver : w.leaver e with
    | some c =>
      rw [directory_of_leaves hst (leaver_eq_some.1 hleaver)]
      rfl
    | none =>
      cases hc : w.param e.action.channelId with
      | none =>
        have hsession := (untouched_step hst hc hj).session
        simp only [World.directory, hsession]
      | some c =>
        have hleaves : ¬w.Leaves e c := fun hleaves => by
          cases hleaver.symm.trans (leaver_eq_some.2 hleaves)
        cases hp : e.packet with
        | none => exact hquiet (quiet_of_no_packet hst hp fun he => hleaves ⟨hc, .inr he⟩)
        | some p =>
          by_cases hconnect : ∃ packet, p = .connect packet
          · obtain ⟨packet, rfl⟩ := hconnect
            have he : e.connect = some packet := by rw [Event.connect, hp]; rfl
            have hsession := (untouched_of_not_joining hst he hj).session
            simp only [World.directory, hsession]
          · refine hquiet (quiet_of_packet hst hp hc (fun q hq => hconnect ⟨q, hq⟩)
              (fun q hq => hsubscribe q (hq ▸ hp)) (fun q hq => hunsubscribe q (hq ▸ hp)) ?_)
            rintro q rfl
            exact hleaves ⟨hc, .inl ⟨q, hp⟩⟩

/-- What a SUBSCRIBE makes of the subscription of its session for a filter. -/
theorem lists_subscribe (h : (broker cfg).Reachable w) (hst : (broker cfg).step w e = some w')
    {p : MqttSubscribe} (hp : e.packet = some (.subscribe p))
    (hc : w.param e.action.channelId = some c) (s : SessionRef) (f : Bytes) :
    (w'.session s).subscriptions.find f =
      (w.lists s f e).elim ((w.session s).subscriptions.find f) id := by
  rw [(step_subscribe h hst hc hp).subscriptions, session_granted]
  simp only [World.lists, hc, hp]
  by_cases hs : c.session = s
  · rw [if_pos hs.symm, find_enterSubscriptions, Option.filter_some, if_pos (decide_eq_true hs),
      Option.bind_some]
    cases (p.topicFilters.filterMap fun entry => entry.subscriptionFor f).getLast? <;> rfl
  · rw [if_neg (Ne.symm hs), Option.filter_some, if_neg (by simpa using hs)]
    rfl

/-- What an UNSUBSCRIBE makes of it. -/
theorem lists_unsubscribe (hst : (broker cfg).step w e = some w') {p : MqttUnsubscribe}
    (hp : e.packet = some (.unsubscribe p)) (hc : w.param e.action.channelId = some c)
    (s : SessionRef) (f : Bytes) : (w'.session s).subscriptions.find f =
      (w.lists s f e).elim ((w.session s).subscriptions.find f) id := by
  have heq : w' = (p.topicFilters.foldl (fun w entry => w.unsubscribeEntry c entry)
      (w.record (.handled c (.unsubscribe p)))).write e.action.channelId
        (.unsuback (mqttUnsuback p.packetId)) :=
    eq_of_packetHandler hst hp (agent_bind_apply hc _ _)
  simp only [World.lists, hc, hp]
  by_cases hs : c.session = s
  · subst hs
    rw [Option.filter_some, if_pos (decide_eq_true rfl), Option.bind_some, heq]
    refine (find_foldl_unsubscribeEntry p.topicFilters _ c).trans ?_
    show (if (p.topicFilters.any fun entry => entry.topicFilter = f &&
      (w.topicAt (.entry entry.isWild f)).isSome) then none
        else (w.session c.session).subscriptions.find f) = _
    split_ifs <;> rfl
  · rw [Option.filter_some, if_neg (by simpa using hs), heq]
    -- The subscriptions of another session are not touched.
    refine Option.ext fun sub => Iff.trans Keyed.find_eq_some (Iff.trans ?_ Keyed.find_eq_some.symm)
    exact and_congr_left fun _ =>
      (foldl_unsubscribeEntry p.topicFilters (w.record _) c).2 s sub (.inl (Ne.symm hs))

/-- What a session lists for a filter changes as the call says. -/
theorem lists_step (h : (broker cfg).Reachable w) (hst : (broker cfg).step w e = some w')
    (s : SessionRef) (f : Bytes) : (w'.session s).subscriptions.find f =
      (w.lists s f e).elim ((w.session s).subscriptions.find f) id := by
  by_cases hsubscribe : ∃ p, e.packet = some (.subscribe p)
  · obtain ⟨p, hp⟩ := hsubscribe
    cases hc : w.param e.action.channelId with
    | some c => exact lists_subscribe h hst hp hc s f
    | none =>
      rw [(untouched_step hst hc (joining_eq_none cfg w hp fun _ => Packet.noConfusion)).session,
        World.lists, hc]
      rfl
  by_cases hunsubscribe : ∃ p, e.packet = some (.unsubscribe p)
  · obtain ⟨p, hp⟩ := hunsubscribe
    cases hc : w.param e.action.channelId with
    | some c => exact lists_unsubscribe hst hp hc s f
    | none =>
      rw [(untouched_step hst hc (joining_eq_none cfg w hp fun _ => Packet.noConfusion)).session,
        World.lists, hc]
      rfl
  · have hsubscribe := fun p hp => hsubscribe ⟨p, hp⟩
    have hunsubscribe := fun p hp => hunsubscribe ⟨p, hp⟩
    rw [find_of_no_request h hst hsubscribe hunsubscribe,
      lists_of_no_request hsubscribe hunsubscribe]
    rfl

/-! ## Runs -/

/-- A session lists a subscription exactly if the last request for its filter in the
    session made it; and among the topics of `_topics` and `_wild_topics`, a connected client
    with an id of its own is a subscriber of exactly those that its session was last
    granted, over all connections. -/
theorem subscribed_run_iff (h : (broker cfg).Run l w) :
    (∀ s sub, sub ∈ (w.session s).subscriptions ↔
      Machine.LastPut (fun y => y.1.lists s sub.topicFilter y.2) l (some sub)) ∧
    ∀ k c b f q, w.param k = some c → c.clientId ≠ [] →
      (⟨c, q⟩ ∈ w.subscribersAt (.entry b f) ↔
        Machine.LastPut (fun y => y.1.lists c.session f y.2) l (some ⟨f, q, b⟩)) := by
  have hlists : ∀ s (sub : Subscription), sub ∈ (w.session s).subscriptions ↔
      Machine.LastPut (fun y => y.1.lists s sub.topicFilter y.2) l (some sub) := by
    intro s sub
    have hlast := h.lastPut_iff (fun w => (w.session s).subscriptions.find sub.topicFilter)
      (fun y => y.1.lists s sub.topicFilter y.2) rfl
      (fun _ _ _ hv hst => lists_step hv hst s sub.topicFilter) sub
    rw [← hlast, Keyed.find_eq_some]
    exact (and_iff_left rfl).symm
  refine ⟨hlists, fun k c b f q hk hid => Iff.trans ?_ (hlists c.session ⟨f, q, b⟩)⟩
  exact ⟨subscription_of_subscriber h.reachable, subscriber_of_listed h.reachable hk hid⟩

/-- A client subscribes, unsubscribes and subscribes again with QoS 2, loses its channel
    and resumes its session on another one. -/
theorem subscribed_run_resumed : ∃ l w c, (broker mqttdCfg).Run l w ∧ w.param 2 = some c ∧
    c.clientId ≠ [] ∧ (⟨c, 2⟩ : Subscriber) ∈ w.subscribersAt (.entry false [0x74]) ∧
    Machine.LastPut (fun y => y.1.lists c.session [0x74] y.2) l (some ⟨[0x74], 2, false⟩) := by
  have hruns : runs (fun _ _ => true) [.accept 1, .accept 2, .read 1 (connectBytes 0x00 [0x61] []),
      .read 1 (subscribeBytes [0x74] 1), .read 1 (unsubscribeBytes [0x74]),
      .read 1 (subscribeBytes [0x74] 2), .disconnected 1, .read 2 (connectBytes 0x00 [0x61] [])]
      (fun w => (w.param 2).any fun c => decide (c.clientId ≠ []) &&
        (w.subscribersAt (.entry false [0x74])).contains ⟨c, 2⟩) = true := by
    decide +kernel
  obtain ⟨l, w, hl, -, hw⟩ := exists_run hruns
  obtain ⟨c, hc, hw⟩ := (Option.any_eq_true _ _).1 hw
  obtain ⟨hid, hsub⟩ := Bool.and_eq_true_iff.1 hw
  have hid := of_decide_eq_true hid
  have hsub := List.contains_iff_mem.1 hsub
  exact ⟨l, w, c, hl, hc, hid, hsub, ((subscribed_run_iff hl).2 2 c _ _ _ hc hid).1 hsub⟩

end MqttBroker
