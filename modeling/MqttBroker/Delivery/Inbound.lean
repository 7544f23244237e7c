import MqttBroker.Delivery.FanOut
import MqttBroker.Directory.Admissions

/-!
# Messages of QoS 2 from the clients

A QoS 2 PUBLISH with a packet id is pending for the session of its client until a
PUBREL with the id is handled (`pending`). The first PUBLISH of those with the id
is to be forwarded, a further one is not while the first is pending, and when none
is, the id has left `_packet_id_for_pubrel` (`ExactlyOnce`). This holds as long as
no PUBLISH is sent again (`exactlyOnce_iff`): `handle_publish` adds the id to the
list and forwards the message without looking for the id in the list, and PUBREL
takes out one occurrence.
-/

namespace MqttBroker

open Prog

/-! ## Exchanges -/

/-- What a packet of a client does to the exchange of a packet id: a QoS 2 PUBLISH
    begins it, and a PUBREL ends it. -/
def Packet.exchange (i : UInt16) (pending : Bool) : Packet → Bool
  | .publish m => if m.qos = 2 ∧ m.packetId = i then true else pending
  | .pubrel p => if p.packetId = i then false else pending
  | _ => pending

/-- What a call does to the exchange of a packet id for a session. -/
def exchange (s : SessionRef) (i : UInt16) (pending : Bool) (x : World × Event) : Bool :=
  match x.1.param x.2.action.channelId, x.2.packet with
  | some c, some p => if c.session = s then p.exchange i pending else pending
  | _, _ => pending

/-- After the calls of a run, a PUBLISH with the packet id is pending for the session. -/
def pending (l : List (World × Event)) (s : SessionRef) (i : UInt16) : Bool :=
  l.foldl (exchange s i) false

theorem pending_concat (l : List (World × Event)) (x : World × Event) (s : SessionRef)
    (i : UInt16) : pending (l ++ [x]) s i = exchange s i (pending l s i) x := by
  rw [pending, List.foldl_append]
  rfl

/-- In a run, of the QoS 2 PUBLISHes with one packet id the first is forwarded to the
    subscribers, no other one is while that is pending, and the id waits for a PUBREL
    only as long as one is pending. -/
structure ExactlyOnce (cfg : Config) (l : List (World × Event)) (w : World) : Prop where
  first {l₁ l₂ : List (World × Event)} {v : World} {e : Event} {c : MqttClient} {m : MqttPublish} :
    l = l₁ ++ (v, e) :: l₂ → v.param e.action.channelId = some c →
      e.packet = some (.publish m) → m.qos = 2 → pending l₁ c.session m.packetId = false →
      ∃ xs : List Delivered, xs.map Delivered.toDelivery = v.deliveries e.iteration m ∧
        v.writes cfg e = m.answer e.action.channelId ++ xs.map Delivered.written
  again {l₁ l₂ : List (World × Event)} {v : World} {e : Event} {c : MqttClient} {m : MqttPublish} :
    l = l₁ ++ (v, e) :: l₂ → v.param e.action.channelId = some c →
      e.packet = some (.publish m) → m.qos = 2 → pending l₁ c.session m.packetId = true →
      ∀ k p, (k, Packet.publish p) ∉ v.writes cfg e
  released s i : pending l s i = false → i ∉ (w.session s).packetIdForPubrel

/-- A client sends a QoS 2 PUBLISH while its session waits for the PUBREL of the
    packet id. -/
def World.Repeats (w : World) (e : Event) : Prop :=
  ∃ c ∈ w.param e.action.channelId, ∃ p ∈ e.packet.bind Packet.toPublish,
    p.qos = 2 ∧ p.packetId ∈ (w.session c.session).packetIdForPubrel

instance (w : World) (e : Event) : Decidable (w.Repeats e) :=
  inferInstanceAs (Decidable (∃ c ∈ w.param e.action.channelId, _))

/-- The ids that wait for a PUBREL are those with a pending PUBLISH, once each. -/
structure InboundInv (l : List (World × Event)) (w : World) : Prop where
  count s i : (w.session s).packetIdForPubrel.count i = if pending l s i then 1 else 0
  lt {s i} : pending l s i = true → s < w.nextSession

variable {cfg : Config} {w w' : World} {e : Event} {l : List (World × Event)} {k : ChannelId}
  {c : MqttClient} {m : MqttPublish} {s : SessionRef} {i : UInt16}

namespace InboundInv

theorem mem_iff (h : InboundInv l w) :
    i ∈ (w.session s).packetIdForPubrel ↔ pending l s i = true := by
  rw [← List.count_pos_iff, h.count]
  split_ifs with hp <;> simp [hp]

end InboundInv

/-! ## The rest of a step -/

/-- The ids waiting for a PUBREL do not change. -/
def Unseen : Frame World where
  rel w w' := ∀ s, (w'.session s).packetIdForPubrel = (w.session s).packetIdForPubrel
  refl _ _ := rfl
  trans h₁ h₂ s := (h₂ s).trans (h₁ s)

theorem unseen_modifySession (w : World) (s : SessionRef) {f : Session → Session}
    (h : (f (w.session s)).packetIdForPubrel = (w.session s).packetIdForPubrel) :
    Unseen.rel w (w.modifySession s f) := by
  intro s'
  rw [World.session_modifySession]
  split_ifs with hs
  · rw [h, hs]
  · rfl

theorem unseen_sessionFrame : SessionFrame Unseen where
  same _ hsession s := by rw [hsession]
  write _ _ _ _ _ := rfl
  note _ _ _ _ _ := rfl
  noteWill _ _ _ := rfl
  counter s w _ := unseen_modifySession w s rfl
  publish client maxQos retained packet := by
    refine within_publish (fun w _ => unseen_modifySession w _ rfl) (fun w m => ?_)
      (fun _ _ _ _ => rfl) maxQos retained
    refine unseen_modifySession (w.record (.addressed client m)) client.session ?_
    split_ifs <;> rfl
  subscriptions w s f hf := unseen_modifySession w s (by rw [hf])

/-! ## The beginning of a step -/

/-- Only a packet of the client at the channel begins or ends an exchange. -/
theorem exchange_of_not_served {b : Bool} (h : ¬∃ c p, e.packet = some p ∧
      w.param e.action.channelId = some c ∧ ∀ packet, p ≠ .connect packet) :
    exchange s i b (w, e) = b := by
  rw [exchange]
  split
  · rename_i c p hc hp
    cases p with
    | connect => exact ite_self b
    | _ => exact absurd ⟨c, _, hp, hc, fun _ => Packet.noConfusion⟩ h
  · rfl

/-- A packet that is not a PUBLISH with an id that waits has the id waiting once, from
    the beginning of its exchange to the end. -/
theorem count_served {S : Session} {p : Packet} {b : Bool}
    (hok : ∀ m, p = .publish m → m.qos = 2 → m.packetId ∉ S.packetIdForPubrel)
    (h : S.packetIdForPubrel.count i = if b then 1 else 0) :
    (S.served p).packetIdForPubrel.count i = if p.exchange i b then 1 else 0 := by
  cases p with
  | publish m =>
    rw [Session.served]
    by_cases h2 : m.qos = 2
    swap
    · have hexchange : (Packet.publish m).exchange i b = b := if_neg fun h => h2 h.1
      rwa [if_neg h2, hexchange]
    rw [if_pos h2, Session.addPacketIdForPubrel, List.count_append, List.count_singleton]
    by_cases hi : m.packetId = i
    · -- The id was not waiting, as the PUBLISH is not sent again.
      have hexchange : (Packet.publish m).exchange i b = true := if_pos ⟨h2, hi⟩
      rw [← hi, List.count_eq_zero.2 (hok m rfl h2), hi, hexchange, if_pos (beq_self_eq_true i),
        if_pos rfl]
    · have hexchange : (Packet.publish m).exchange i b = b := if_neg fun h => hi h.2
      rwa [hexchange, if_neg (by simpa using hi)]
  | pubrel m =>
    rw [Session.served, Session.releasePacketIdForPubrel, List.count_erase, h]
    by_cases hi : m.packetId = i
    · have hexchange : (Packet.pubrel m).exchange i b = false := if_pos hi
      rw [hexchange, hi, if_pos (beq_self_eq_true i)]
      cases b <;> rfl
    · have hexchange : (Packet.pubrel m).exchange i b = b := if_neg hi
      have hne : (m.packetId == i) = false := by simpa using hi
      rw [hexchange, hne]
      rfl
  | _ => exact h

/-- An accepted CONNECT keeps the ids of a stored session, and a new session has none. -/
theorem packetIdForPubrel_joined (cfg : Config) (w : World) (j : Joining)
    (hk : (w.contexts j.channelId).isSome) (s : SessionRef) :
    ((w.joined cfg j).session s).packetIdForPubrel = (w.session s).packetIdForPubrel ∨
      s = w.nextSession ∧ ((w.joined cfg j).session s).packetIdForPubrel = [] := by
  obtain ⟨r, sessionPresent, v, hparam, -, -, -, hcases⟩ := joined_cases cfg w j hk
  rcases hcases with ⟨-, -, hsession, hw⟩ | ⟨hnew, -, hsession, hw⟩
  · rw [hw]
    refine .inl ((Unseen.trans (unseen_sessionFrame.same (World.log_resubscribe _ _)
      (World.session_resubscribe _ _)) (rel_redeliver ?_ ?_ ?_ _) s).trans (by rw [hsession]))
    · exact fun w => unseen_modifySession w _ rfl
    · exact fun w => unseen_modifySession w _ rfl
    · exact fun _ _ _ => rfl
  · rw [hw, hsession, Function.update_apply]
    split_ifs with hs
    · refine .inr ⟨?_, rfl⟩
      have hnewcomer : v.param j.channelId = some (w.newcomer j) := hw ▸ param_joined cfg w j hk
      rw [hs, ← session_newcomer hnew]
      exact congrArg MqttClient.session (Option.some.inj (hparam.symm.trans hnewcomer))
    · exact .inl rfl

/-! ## Runs -/

/-- A QoS 2 PUBLISH that an event brings for the client at its channel. -/
theorem repeats_iff {p : MqttPublish} (hp : e.packet = some (.publish p))
    (hc : w.param e.action.channelId = some c) : w.Repeats e ↔
      p.qos = 2 ∧ p.packetId ∈ (w.session c.session).packetIdForPubrel := by
  simp [World.Repeats, hc, hp, Packet.toPublish]

/-- A step that repeats no PUBLISH keeps the ids. -/
theorem inbound_step (hw : (broker cfg).Reachable w) (hst : (broker cfg).step w e = some w')
    (h : InboundInv l w) (hok : ¬w.Repeats e) : InboundInv (l ++ [(w, e)]) w' := by
  have hrest := unseen_sessionFrame.step hst
  have hlt := nextSession_le_of_step hst
  constructor
  · intro s i
    rw [pending_concat, hrest s]
    by_cases hserved : ∃ c p, e.packet = some p ∧ w.param e.action.channelId = some c ∧
        ∀ packet, p ≠ .connect packet
    · obtain ⟨c, p, hp, hc, hconnect⟩ := hserved
      have hexchange : exchange s i (pending l s i) (w, e) =
          if c.session = s then p.exchange i (pending l s i) else pending l s i := by
        rw [exchange]
        simp only [hc, hp]
      rw [received_eq_served cfg hp hc hconnect, hexchange, w.session_served, Function.update_apply]
      by_cases hs : s = c.session
      · subst hs
        rw [if_pos rfl, if_pos rfl]
        refine count_served (fun m hm h2 hmem => hok ?_) (h.count c.session i)
        exact (repeats_iff (hm ▸ hp) hc).2 ⟨h2, hmem⟩
      · rw [if_neg hs, if_neg (Ne.symm hs)]
        exact h.count s i
    · rw [exchange_of_not_served hserved, ← h.count]
      rcases received_cases cfg w e with
        ⟨j, hj, hw'⟩ | ⟨-, ⟨packet, -, hw'⟩ | ⟨c, p, hp, hc, hconnect, -⟩ | hw'⟩
      · rw [hw']
        rcases packetIdForPubrel_joined cfg w j (isSome_contexts_of_joining hst hj) s with
          heq | ⟨rfl, heq⟩
        · rw [heq]
        · -- Nothing is pending for a session that there was not before.
          rw [heq, h.count, if_neg fun hp => Nat.lt_irrefl _ (h.lt hp)]
          rfl
      · rw [hw', w.session_greet]
      · exact absurd ⟨c, p, hp, hc, hconnect⟩ hserved
      · rw [hw']
  · intro s i hp
    rw [pending_concat, exchange] at hp
    refine Nat.lt_of_lt_of_le ?_ hlt
    split at hp
    · rename_i c p hc _
      split_ifs at hp with hs
      · rw [← hs]
        exact (valid_of_reachable hw).holder_lt hc
      · exact h.lt hp
    · exact h.lt hp

theorem inbound_of_run (h : (broker cfg).Run l w) (hok : ∀ x ∈ l, ¬x.1.Repeats x.2) :
    InboundInv l w := by
  induction h with
  | init => exact ⟨fun _ _ => rfl, fun hp => Bool.noConfusion hp⟩
  | step hrun hst ih =>
    exact inbound_step hrun.reachable hst (ih fun x hx => hok x (List.mem_append_left _ hx))
      (hok (_, _) List.mem_concat_self)

/-- In a run without repeated PUBLISHes, a message that a client sends is the first one
    with its id, and it is forwarded. -/
theorem exactlyOnce_of_run (h : (broker cfg).Run l w) (hok : ∀ x ∈ l, ¬x.1.Repeats x.2) :
    ExactlyOnce cfg l w where
  first {l₁ l₂ v e c m} hl hc hp _ _ := by
    obtain ⟨hrun, t, hst⟩ := (hl ▸ h : (broker cfg).Run (l₁ ++ (v, e) :: l₂) w).before
    obtain ⟨xs, ns, hxs, hns, hfans⟩ := step_fansOut hrun.reachable hst hp hc
    refine ⟨xs ++ ns, ?_, writes_of_written hst (by rw [hfans.written, List.append_assoc])⟩
    rw [List.map_append, hxs, hns, World.deliveries]
  again {l₁ l₂ v e c m} hl hc hp h2 hpending := by
    obtain ⟨hrun, -⟩ := (hl ▸ h : (broker cfg).Run (l₁ ++ (v, e) :: l₂) w).before
    have hinv := inbound_of_run hrun fun x hx => hok x (hl ▸ List.mem_append_left _ hx)
    refine absurd ((repeats_iff hp hc).2 ⟨h2, hinv.mem_iff.2 hpending⟩) (hok (v, e) ?_)
    rw [hl]
    exact List.mem_append_right _ List.mem_cons_self
  released s i hp hmem := by
    rw [(inbound_of_run h hok).mem_iff, hp] at hmem
    cases hmem

/-! ## Repeated messages -/

/-- From a client at a channel, a PUBREL with any id is handled, and takes out one
    occurrence. -/
theorem exists_step_pubrel (cfg : Config) (hc : w.param k = some c) (i : UInt16) : ∃ e w',
    (broker cfg).step w e = some w' ∧ e.action.channelId = k ∧
      e.packet = some (.pubrel (mqttPubrel i)) ∧
      (w'.session c.session).packetIdForPubrel = (w.session c.session).packetIdForPubrel.erase i := by
  obtain ⟨e, he, hp, ha⟩ := exists_event (readsBack_idPacket .pubrel
    (show FixedHeader.Sound ⟨.pubrel, 2, 2⟩ by decide) (fun _ => rfl) (fun _ => rfl)
      (fun _ => rfl) i) (Nat.le_refl 2) (World.isSome_contexts_of_param hc)
  refine ⟨e, (w.served k c (.pubrel (mqttPubrel i))).write c.channelId (.pubcomp (mqttPubcomp i)),
    ?_, he, hp, ?_⟩
  · refine step_of_packetHandler ha hp ?_
    rw [he]
    exact agent_bind_apply hc _ _
  · show ((w.served k c (.pubrel (mqttPubrel i))).session c.session).packetIdForPubrel = _
    rw [World.session_served, Function.update_self]
    rfl

/-- Of a PUBLISH that is repeated, a PUBREL leaves the id in the list. -/
theorem not_exactlyOnce_of_repeats (h : (broker cfg).Run l w)
    (hst : (broker cfg).step w e = some w') (hrepeats : w.Repeats e) : ∃ l₂ u,
      (broker cfg).Run (l ++ (w, e) :: l₂) u ∧ (∀ x ∈ l₂, ¬x.1.Repeats x.2) ∧
        ¬ExactlyOnce cfg (l ++ (w, e) :: l₂) u := by
  obtain ⟨c, hc, m, hm, h2, hmem⟩ := hrepeats
  obtain ⟨p, hp, hpm⟩ := Option.bind_eq_some_iff.1 hm
  obtain rfl : p = .publish m := by
    cases p <;> cases hpm
    rfl
  obtain ⟨xs, ns, -, -, hfans⟩ := step_fansOut h.reachable hst hp hc
  have htwice := hfans.packetIdForPubrel c.session
  rw [if_pos ⟨rfl, h2⟩] at htwice
  have hparam : w'.param e.action.channelId = some c := by
    obtain ⟨_, -, hdelivers⟩ :=
      (step_publish_iff h.reachable ((step_eq_some cfg).1 hst).1 hp hc).2 w' hst
    rw [hdelivers.param, accepted_eq]
    exact hc
  obtain ⟨e₂, u, hst₂, hk, hp₂, hlist⟩ := exists_step_pubrel cfg hparam m.packetId
  have hrun : (broker cfg).Run (l ++ [(w, e)] ++ [(w', e₂)]) u := (h.step hst).step hst₂
  have hpending : pending (l ++ [(w, e)] ++ [(w', e₂)]) c.session m.packetId = false := by
    rw [pending_concat, exchange, hk, hparam, hp₂]
    exact (if_pos rfl).trans (if_pos rfl)
  refine ⟨[(w', e₂)], u, ?_, fun x hx hagain => ?_, fun honce => ?_⟩
  · rwa [List.append_assoc] at hrun
  · obtain rfl := List.mem_singleton.1 hx
    obtain ⟨_, -, m', hm', -⟩ := hagain
    rw [hp₂] at hm'
    cases hm'
  · rw [List.append_assoc] at hpending
    refine honce.released c.session m.packetId hpending ?_
    rw [hlist, htwice, List.erase_append_left _ hmem]
    exact List.mem_append_right _ (List.mem_singleton_self _)

/-- Messages of QoS 2 are forwarded exactly once in a run in which none is repeated, and
    that goes on, whatever comes next, exactly if the next call repeats none. -/
theorem exactlyOnce_iff (h : (broker cfg).Run l w) (hok : ∀ x ∈ l, ¬x.1.Repeats x.2) :
    ExactlyOnce cfg l w ∧ ∀ e w', (broker cfg).step w e = some w' →
      ((∀ l₂ u, (broker cfg).Run (l ++ (w, e) :: l₂) u → (∀ x ∈ l₂, ¬x.1.Repeats x.2) →
        ExactlyOnce cfg (l ++ (w, e) :: l₂) u) ↔ ¬w.Repeats e) := by
  refine ⟨exactlyOnce_of_run h hok, fun e w' hst => ⟨fun honce hrepeats => ?_, fun hnot l₂ u hu hok₂ =>
    exactlyOnce_of_run hu fun x hx => ?_⟩⟩
  · obtain ⟨l₂, u, hu, hok₂, hviolated⟩ := not_exactlyOnce_of_repeats h hst hrepeats
    exact hviolated (honce l₂ u hu hok₂)
  · rcases List.mem_append.1 hx with hx | hx
    · exact hok x hx
    · rcases List.mem_cons.1 hx with rfl | hx
      · exact hnot
      · exact hok₂ x hx

/-- A message is sent and released, and another one sent with its id: both are
    forwarded. -/
theorem exactlyOnce_released : ∃ l w, (broker mqttdCfg).Run l w ∧
    w.publishes.map (fun x => x.2.payload) = [[0x01], [0x02]] ∧ ExactlyOnce mqttdCfg l w := by
  have hruns : runs (fun w e => !decide (w.Repeats e))
      [.accept 1, .read 1 (connectBytes 0x02 [0x61] []), .read 1 (subscribeBytes [0x74] 0x02),
        .read 1 (publishBytes 0x04 [0x74] [0x00, 0x07] [0x01]),
        .read 1 (packetBytes 0x62 [0x00, 0x07]),
        .read 1 (publishBytes 0x04 [0x74] [0x00, 0x07] [0x02])]
      (fun w => decide (w.publishes.map (fun x => x.2.payload) = [[0x01], [0x02]])) = true := by
    decide +kernel
  obtain ⟨l, w, hl, hok, hp⟩ := exists_run hruns
  refine ⟨l, w, hl, of_decide_eq_true hp, (exactlyOnce_iff hl fun x hx => ?_).1⟩
  simpa using hok x hx

/-- A client sends a PUBLISH of QoS 2 twice, and it is forwarded twice. -/
theorem repeated_publish_forwarded : ¬∀ l w, (broker mqttdCfg).Run l w → ExactlyOnce mqttdCfg l w := by
  intro h
  let a := Action.read 1 (publishBytes 0x0c [0x74] [0x00, 0x07] [0x01])
  let m : MqttPublish := ⟨⟨.publish, 0x0c, 6⟩, true, 2, false, [0x74], 7, [0x01]⟩
  have hp : a.event.packet = some (.publish m) := by
    decide +kernel
  have hruns : runs (fun w e => !decide (w.Repeats e))
      [.accept 1, .read 1 (connectBytes 0x02 [0x61] []), .read 1 (subscribeBytes [0x74] 0x02),
        .read 1 (publishBytes 0x04 [0x74] [0x00, 0x07] [0x01])]
      (fun w => ((broker mqttdCfg).step w a.event).any fun _ => (w.param 1).any fun c =>
        decide (7 ∈ (w.session c.session).packetIdForPubrel) &&
          (w.writes mqttdCfg a.event).any fun x => x.2.toPublish.isSome) = true := by
    decide +kernel
  obtain ⟨l, w, w', hl, hok, hst, hrun⟩ := exists_run_step hruns
  obtain ⟨c, hc, hrun⟩ := Option.any_eq_true _ _ |>.1 hrun
  obtain ⟨hwaits, hwritten⟩ := Bool.and_eq_true_iff.1 hrun
  obtain ⟨⟨k, p⟩, hmem, hpublish⟩ := List.any_eq_true.1 hwritten
  have hinv := inbound_of_run hl fun x hx => by simpa using hok x hx
  have honce := (h _ _ (hl.step hst)).again rfl hc hp rfl (hinv.mem_iff.1 (of_decide_eq_true hwaits))
  cases p with
  | publish m' => exact honce k m' hmem
  | _ => cases hpublish

end MqttBroker
