import MqttBroker.Delivery.Conversation
import MqttBroker.Delivery.Origins

/-!
# Messages until they are acknowledged

A call writes a PUBLISH for each message that it delivers, and one with QoS 1 or 2
under a packet id of its own. That stays in the session of its client until a call
acknowledges it there (`World.Acknowledges`). Whatever else happens, the message is not
lost: the channel may be, and a call that resumes the session writes the PUBLISH again
(`sent_until_acknowledged`).
-/

namespace MqttBroker

open Prog Relation

/-- The client of a session acknowledges a PUBLISH in a call. -/
def World.Acknowledges (w : World) (e : Event) (s : SessionRef) (p : MqttPublish) : Prop :=
  ∃ c ∈ w.param e.action.channelId, c.session = s ∧
    (p.qos = 1 ∧ (∃ a, e.packet = some (.puback a) ∧ a.packetId = p.packetId) ∨
      p.qos = 2 ∧ ∃ a, e.packet = some (.pubrec a) ∧ a.packetId = p.packetId)

/-- One of the calls acknowledges the PUBLISH. -/
def Acknowledged (l : List (World × Event)) (s : SessionRef) (p : MqttPublish) : Prop :=
  ∃ x ∈ l, x.1.Acknowledges x.2 s p

variable {cfg : Config} {v v' w w' : World} {e : Event} {l₁ l₂ : List (World × Event)} {d : Delivery}
  {s : SessionRef} {p : MqttPublish} {j : Joining} {c : MqttClient}

/-! ## Sessions -/

/-- The clients the broker has were given their sessions. -/
theorem session_lt_of_holds (h : (broker cfg).Reachable w) (hc : w.Holds c) :
    c.session < w.nextSession := by
  have hall := h.induct (I := fun w => ∀ c, w.Holds c → c.session < w.nextSession)
    (fun c hc => absurd hc (not_holds_start c)) fun w e w' h ih hst c hc => ?_
  · exact hall c hc
  · rcases admitting_step hst c hc with ⟨j, hj, rfl⟩ | hc
    · exact (valid_of_reachable (h.step hst)).holder_lt (param_of_joining hst hj)
    · exact Nat.lt_of_lt_of_le (ih c hc) (nextSession_le_of_step hst)

/-- What is due goes to sessions that there are after the call. -/
theorem session_lt_of_mem_due (h : (broker cfg).Reachable w)
    (hst : (broker cfg).step w e = some w') (hd : d ∈ w.due cfg e) :
    d.client.session < w'.nextSession := by
  rcases client_of_mem_due hd with hc | ⟨j, hj, hnew⟩
  · exact Nat.lt_of_lt_of_le (session_lt_of_holds h hc) (nextSession_le_of_step hst)
  · rw [hnew]
    exact (valid_of_reachable (h.step hst)).holder_lt (param_of_joining hst hj)

/-! ## Steps -/

/-- A PUBLISH that was addressed to the session is without an answer. -/
def World.Awaits (w : World) (s : SessionRef) (p : MqttPublish) : Prop :=
  p ∈ w.unanswered p.qos s

/-- The PUBLISH stays without an answer. -/
abbrev Awaiting (s : SessionRef) (p : MqttPublish) : Frame World :=
  Frame.keeping fun w => w.Awaits s p

theorem awaiting_record (w : World) {e : Effect}
    (he : ∀ ps, p ∈ ps → p ∈ e.unanswered p.qos s ps) : (Awaiting s p).rel w (w.record e) := by
  intro h
  show p ∈ (w.record e).unanswered p.qos s
  rw [unanswered_record]
  exact he _ h

theorem awaiting_sessionFrame (s : SessionRef) (p : MqttPublish) : SessionFrame (Awaiting s p) where
  same {w w'} hlog _ h := by
    show p ∈ w'.unanswered p.qos s
    rw [World.unanswered, hlog]
    exact h
  write w _ _ _ := awaiting_record w fun _ h => h
  note w _ _ _ := awaiting_record w fun _ h => h
  noteWill w _ := awaiting_record w fun _ h => h
  counter _ _ _ h := h
  publish client maxQos retained packet := by
    refine within_publish (fun _ _ h => h) (fun w m => ?_)
      (fun w m _ => awaiting_record w fun _ h => h) maxQos retained
    refine awaiting_record w fun ps h => ?_
    rw [Effect.unanswered]
    split_ifs
    · exact List.mem_append_left _ h
    · exact h
  subscriptions _ _ _ _ h := h

/-- A packet that a client is served with answers a PUBLISH, or leaves it. -/
theorem awaits_served (hp : w.Awaits s p) {q : Packet} (hq : e.packet = some q)
    (hc : w.param e.action.channelId = some c) :
    (w.served e.action.channelId c q).Awaits s p ∨ w.Acknowledges e s p := by
  rw [World.Awaits, unanswered_served]
  cases q with
  | puback a =>
    dsimp only
    by_cases hack : (c.session = s ∧ p.qos = 1) ∧ a.packetId = p.packetId
    · obtain ⟨⟨hs, hqos⟩, hid⟩ := hack
      exact .inr ⟨c, hc, hs, .inl ⟨hqos, a, hq, hid⟩⟩
    · refine .inl ?_
      split_ifs with hs
      · exact List.mem_filter.2 ⟨hp, decide_eq_true fun hid => hack ⟨hs, hid.symm⟩⟩
      · exact hp
  | pubrec a =>
    dsimp only
    by_cases hack : (c.session = s ∧ p.qos = 2) ∧ a.packetId = p.packetId
    · obtain ⟨⟨hs, hqos⟩, hid⟩ := hack
      exact .inr ⟨c, hc, hs, .inr ⟨hqos, a, hq, hid⟩⟩
    · refine .inl ?_
      split_ifs with hs
      · exact List.mem_filter.2 ⟨hp, decide_eq_true fun hid => hack ⟨hs, hid.symm⟩⟩
      · exact hp
  | _ => exact .inl hp

/-- An accepted CONNECT leaves a PUBLISH of a session that there was. -/
theorem awaiting_joined (cfg : Config) (j : Joining) (hk : (w.contexts j.channelId).isSome)
    (hlt : s < w.nextSession) : (Awaiting s p).rel w (w.joined cfg j) := by
  intro hp
  have hholder := param_joined cfg w j hk
  obtain ⟨r, sessionPresent, v, hparam, -, hlog, -, hcases⟩ := joined_cases cfg w j hk
  have hv : sessionPresent = true ∨ r ≠ s → v.Awaits s p := by
    intro hkeeps
    rw [World.Awaits, World.unanswered, hlog, List.foldl_append]
    show p ∈ if r = s ∧ sessionPresent = false then [] else w.unanswered p.qos s
    rw [if_neg]
    · exact hp
    · rintro ⟨hr, hnew⟩
      exact hkeeps.elim (fun hold => Bool.noConfusion (hnew.symm.trans hold)) fun hne => hne hr
  rcases hcases with ⟨-, hpresent, -, hw⟩ | ⟨hnew, -, -, hw⟩
  · rw [hw]
    have hresub := (awaiting_sessionFrame s p).same (World.log_resubscribe v _)
      (World.session_resubscribe v ((j.client w).setSessionPtr r)) (hv (.inl hpresent))
    exact rel_redeliver (F := Awaiting s p) (fun _ h => h) (fun _ h => h)
      (fun w _ => awaiting_record w fun _ h => h) _ hresub
  · -- The session is made for the client.
    rw [hw] at hholder ⊢
    refine hv (.inr fun hr => Nat.ne_of_lt hlt ?_)
    have hclient : (j.client w).setSessionPtr r = w.newcomer j :=
      Option.some.inj (hparam.symm.trans hholder)
    rw [← hr, ← session_newcomer hnew, ← hclient]
    rfl

/-- In a step, a PUBLISH stays without an answer unless the call acknowledges it. -/
theorem awaits_step (hst : (broker cfg).step w e = some w') (hlt : s < w.nextSession)
    (hp : w.Awaits s p) : w'.Awaits s p ∨ w.Acknowledges e s p := by
  have hrest := (awaiting_sessionFrame s p).step hst
  rcases received_cases cfg w e with
    ⟨j, hj, hw⟩ | ⟨-, ⟨packet, -, hw⟩ | ⟨c, q, hq, hc, -, hw⟩ | hw⟩ <;> rw [hw] at hrest
  · exact .inl (hrest (awaiting_joined cfg j (isSome_contexts_of_joining hst hj) hlt hp))
  · exact .inl (hrest ((awaiting_sessionFrame s p).same (w.log_greet _ cfg packet)
      (w.session_greet _ cfg packet) hp))
  · exact (awaits_served hp hq hc).imp_left hrest
  · exact .inl (hrest hp)

/-- What is delivered with QoS 1 or 2 and filed waits for its answer. -/
theorem awaits_of_filed (h : (broker cfg).Reachable w) {x : Delivered} (hkept : x.Kept)
    (hack : x.qos = 1 → x.publish ∈ (w.session x.client.session).publishForAck)
    (hrec : x.qos = 2 → x.publish ∈ (w.session x.client.session).publishForRec) :
    w.Awaits x.client.session x.publish := by
  obtain ⟨hdup, hqos, -⟩ := mqttPublish_eq_ok x.built
  have hunmark : x.publish.unmark = x.publish := by
    rw [MqttPublish.unmark, ← hdup]
  have haccounted := outbound_of_reachable h x.client.session
  rw [World.Awaits, hqos, ← hunmark]
  rcases hkept with hq | hq
  · rw [hq, ← haccounted.ack]
    exact List.mem_map_of_mem (hack hq)
  · rw [hq, ← haccounted.received]
    exact List.mem_map_of_mem (hrec hq)

/-- What waits for its answer is in one of the two lists of the session. -/
theorem mem_filed_of_awaits (h : (broker cfg).Reachable w) (hqos : p.qos = 1 ∨ p.qos = 2)
    (hp : w.Awaits s p) : p ∈ (w.session s).filed.map MqttPublish.unmark := by
  have haccounted := outbound_of_reachable h s
  rw [World.Awaits] at hp
  rw [Session.filed, List.map_append, haccounted.ack, haccounted.received]
  rcases hqos with hq | hq <;> rw [hq] at hp
  · exact List.mem_append_left _ hp
  · exact List.mem_append_right _ hp

/-- What waits for its answer is written again when the session is resumed. -/
theorem mem_writes_of_resumes (h : (broker cfg).Reachable w) (hst : (broker cfg).step w e = some w')
    (hj : w.joining cfg e = some j) (hs : w.Resumes j s) (hqos : p.qos = 1 ∨ p.qos = 2)
    (hp : w.Awaits s p) : (j.channelId, .publish p.setDup) ∈ w.writes cfg e := by
  obtain ⟨q, hq, rfl⟩ := List.mem_map.1 (mem_filed_of_awaits h hqos hp)
  have hwelcome : Packet.publish q.setDup ∈ w.welcome j := by
    rw [World.welcome, storedSession_eq_some.2 hs]
    refine List.mem_cons_of_mem _ (List.mem_append_left _ ?_)
    rw [← List.map_append]
    exact List.mem_map_of_mem hq
  obtain ⟨xs, -, hwritten, -⟩ := replied_of_step h hst
  rw [writes_of_written hst hwritten, World.answers, hj]
  exact List.mem_append_left _ (List.mem_map_of_mem hwelcome)

/-! ## Runs -/

/-- A PUBLISH that waits for its answer after a step waits for it until a later call
    acknowledges it. -/
theorem awaits_or_acknowledged (h : (broker cfg).Run (l₁ ++ (v, e) :: l₂) w)
    (hst : (broker cfg).step v e = some v') (hlt : s < v'.nextSession) (hp : v'.Awaits s p) :
    w.Awaits s p ∨ Acknowledged l₂ s p := by
  refine (h.holds_or_ended (fun w => s < w.nextSession ∧ w.Awaits s p)
    (fun y => y.1.Acknowledges y.2 s p) (fun u e u' _ hst hu => ?_) fun t ht => ?_).imp_left
      And.right
  · exact (awaits_step hst hu.1 hu.2).imp_left fun hp =>
      ⟨Nat.lt_of_lt_of_le hu.1 (nextSession_le_of_step hst), hp⟩
  · obtain rfl := Option.some.inj (hst.symm.trans ht)
    exact ⟨hlt, hp⟩

/-- A call writes a PUBLISH for each message that it delivers, those with QoS 1 or 2 under
    packet ids that are free and distinct in a session. Such a PUBLISH stays in the session
    until a call acknowledges it, and is written again by each call that resumes the
    session before. -/
theorem sent_until_acknowledged (h : (broker cfg).Run (l₁ ++ (v, e) :: l₂) w) :
    ∃ xs : List Delivered, xs.map Delivered.toDelivery = v.due cfg e ∧
      v.writes cfg e = v.answers cfg e ++ xs.map Delivered.written ∧
      (∀ s, ((xs.filter fun x => x.KeptIn s).map fun x => x.publish.packetId).Nodup) ∧
      ∀ x ∈ xs, x.Kept →
        (v.session x.client.session).inUse x.publish.packetId = false ∧
        (x.publish ∈ (w.session x.client.session).filed.map MqttPublish.unmark ∨
          Acknowledged l₂ x.client.session x.publish) ∧
        ∀ m₁ y m₂ j, l₂ = m₁ ++ y :: m₂ → y.1.joining cfg y.2 = some j →
          y.1.Resumes j x.client.session →
            (j.channelId, .publish x.publish.setDup) ∈ y.1.writes cfg y.2 ∨
              Acknowledged m₁ x.client.session x.publish := by
  obtain ⟨hrun, v', hst⟩ := h.before
  have hv := hrun.reachable
  obtain ⟨xs, hxs, hwritten, hdistinct, hfiled⟩ := replied_of_step hv hst
  refine ⟨xs, hxs, writes_of_written hst hwritten, fun s => ?_, fun x hx hkept => ?_⟩
  · have hids : (xs.filter fun x => x.KeptIn s).map (fun x => x.publish.packetId) = idsIn s xs :=
      List.map_congr_left fun x hx => x.packetId (of_decide_eq_true (List.mem_filter.1 hx).2).2
    exact hids ▸ hdistinct s
  obtain ⟨hfree, hack, hrec⟩ := hfiled x hx
  have hlt : x.client.session < v'.nextSession :=
    session_lt_of_mem_due hv hst (hxs ▸ List.mem_map_of_mem hx)
  have hp := awaits_of_filed (hv.step hst) hkept hack hrec
  have hqos : x.publish.qos = 1 ∨ x.publish.qos = 2 := by
    rw [(mqttPublish_eq_ok x.built).2.1]
    exact hkept
  refine ⟨by rwa [x.packetId hkept], ?_, ?_⟩
  · exact (awaits_or_acknowledged h hst hlt hp).imp_left (mem_filed_of_awaits h.reachable hqos)
  · rintro m₁ ⟨u, e'⟩ m₂ j rfl hj hs
    rw [← List.cons_append, ← List.append_assoc] at h
    obtain ⟨hrun', u', hst'⟩ := h.before
    exact (awaits_or_acknowledged hrun' hst hlt hp).imp_left
      (mem_writes_of_resumes hrun'.reachable hst' hj hs hqos)

/-- A client is lost with a message of QoS 1, and resumes its session on another channel. -/
theorem sent_until_acknowledged_resumed : ∃ l₁ v e l₂ w, ∃ x : Delivered,
    (broker mqttdCfg).Run (l₁ ++ (v, e) :: l₂) w ∧
    l₂.map (fun y => y.2.action.channelId) = [1, 2] ∧
    x.toDelivery ∈ v.due mqttdCfg e ∧ x.qos = 1 ∧ x.written ∈ v.writes mqttdCfg e ∧
    (x.publish ∈ (w.session x.client.session).filed.map MqttPublish.unmark ∨
      Acknowledged l₂ x.client.session x.publish) := by
  have hruns : runs (fun _ _ => true) [.accept 1, .accept 2, .read 1 (connectBytes 0x00 [0x61] []),
      .read 1 (subscribeBytes [0x74] 1)] (fun v =>
        ((v.due mqttdCfg (Action.read 1 (publishBytes 2 [0x74] [0x00, 0x07] [0x01])).event).any
          fun d => d.qos = 1) &&
        ((broker mqttdCfg).step v
          (Action.read 1 (publishBytes 2 [0x74] [0x00, 0x07] [0x01])).event).any fun v =>
          ((broker mqttdCfg).step v (Action.disconnected 1).event).any fun v =>
            ((broker mqttdCfg).step v
              (Action.read 2 (connectBytes 0x00 [0x61] [])).event).isSome) = true := by
    decide +kernel
  obtain ⟨l₁, v, hl, -, hrun⟩ := exists_run hruns
  obtain ⟨hdue, hrun⟩ := Bool.and_eq_true_iff.1 hrun
  obtain ⟨d, hd, hqos⟩ := List.any_eq_true.1 hdue
  obtain ⟨v₁, hst₁, hrun⟩ := Option.any_eq_true _ _ |>.1 hrun
  obtain ⟨v₂, hst₂, hrun⟩ := Option.any_eq_true _ _ |>.1 hrun
  obtain ⟨w, hst₃⟩ := Option.isSome_iff_exists.1 hrun
  have hqos := of_decide_eq_true hqos
  have hl := ((hl.step hst₁).step hst₂).step hst₃
  rw [List.append_assoc, List.append_assoc] at hl
  obtain ⟨xs, hxs, hwrites, -, hsent⟩ := sent_until_acknowledged hl
  obtain ⟨x, hx, rfl⟩ := List.mem_map.1 (hxs ▸ hd)
  refine ⟨l₁, v, _, _, w, x, hl, rfl, hd, hqos, ?_, (hsent x hx (.inl hqos)).2.1⟩
  rw [hwrites]
  exact List.mem_append_right _ (List.mem_map_of_mem hx)

end MqttBroker
