import MqttBroker.Server.Steps

/-!
# Messages to the clients

The ledgers of a session are the PUBLISHes of QoS 1 and 2 that were addressed to
it and not answered, read off the history (`World.unanswered`). The lists of the
session are its ledgers (`World.OutboundInv`), and what is written again when
the session is resumed is what they hold (`World.Resends`). That the first entry
with an id is released is as good as any: the ids differ, because a new one is
in none of the lists.
-/

namespace MqttBroker

open Prog

/-- A PUBLISH as it was made: it is marked when it is written again. -/
def MqttPublish.unmark (p : MqttPublish) : MqttPublish := { p with dup := false }

/-! ## Sessions -/

/-- The packet ids of the messages without an answer. -/
def Session.ids (t : Session) : List UInt16 :=
  (t.publishForAck ++ t.publishForRec).map MqttPublish.packetId

/-- The lists of a session are the given ones, but for the marks, and their ids
    differ from each other and from zero. -/
structure Session.Accounted (t : Session) (unacked unreceived : List MqttPublish) : Prop where
  nodup : t.ids.Nodup
  ne_zero : 0 ∉ t.ids
  ack : t.publishForAck.map MqttPublish.unmark = unacked
  received : t.publishForRec.map MqttPublish.unmark = unreceived

namespace Session.Accounted

variable {t t' : Session} {ack rec : List MqttPublish}

theorem new : Session.new.Accounted [] [] := ⟨List.nodup_nil, List.not_mem_nil, rfl, rfl⟩

/-- The account is about the two lists up to the marks. -/
theorem of_unmark (h : t.Accounted ack rec)
    (hack : t'.publishForAck.map MqttPublish.unmark = t.publishForAck.map MqttPublish.unmark)
    (hrec : t'.publishForRec.map MqttPublish.unmark = t.publishForRec.map MqttPublish.unmark) :
    t'.Accounted ack rec := by
  have hunmark : ∀ l : List MqttPublish, l.map MqttPublish.packetId =
      (l.map MqttPublish.unmark).map MqttPublish.packetId := by
    intro l
    rw [List.map_map]
    rfl
  have hids : t'.ids = t.ids := by
    rw [ids, ids, hunmark, hunmark (t.publishForAck ++ _), List.map_append, hack, hrec,
      ← List.map_append]
  exact ⟨hids ▸ h.nodup, hids ▸ h.ne_zero, hack.trans h.ack, hrec.trans h.received⟩

/-- A PUBLISH is filed under a new id. -/
theorem add (h : t.Accounted ack rec) {p : MqttPublish} (hdup : p.dup = false)
    (hnew : p.qos = 1 ∨ p.qos = 2 → p.packetId ≠ 0 ∧ t.inUse p.packetId = false) :
    (if p.qos = 1 then t.addPublishForAck p else if p.qos = 2 then t.addPublishForRec p
      else t).Accounted (if p.qos = 1 then ack ++ [p] else ack)
        (if p.qos = 2 then rec ++ [p] else rec) := by
  have hunmark : p.unmark = p := by
    rw [MqttPublish.unmark, ← hdup]
  -- Its id is a new one, whichever list it is added to.
  have hperm : ∀ t' : Session, (t'.publishForAck ++ t'.publishForRec).Perm
      (p :: (t.publishForAck ++ t.publishForRec)) → p.qos = 1 ∨ p.qos = 2 →
        t'.ids.Nodup ∧ 0 ∉ t'.ids := by
    intro t' hp hqos
    obtain ⟨h0, hnew⟩ := hnew hqos
    have hfresh : p.packetId ∉ t.ids := by
      simp only [inUse, Bool.or_eq_false_iff, List.any_eq_false, decide_eq_true_iff] at hnew
      intro hm
      obtain ⟨q, hq, hqp⟩ := List.mem_map.1 hm
      rcases List.mem_append.1 hq with hq | hq
      · exact hnew.1.1 q hq hqp
      · exact hnew.1.2 q hq hqp
    have hids : t'.ids.Perm (p.packetId :: t.ids) := hp.map _
    rw [hids.nodup_iff, List.nodup_cons, hids.mem_iff, List.mem_cons, not_or]
    exact ⟨⟨hfresh, h.nodup⟩, h0.symm, h.ne_zero⟩
  by_cases h1 : p.qos = 1
  · have h2 : p.qos ≠ 2 := by omega
    rw [if_pos h1, if_pos h1, if_neg h2]
    obtain ⟨hnodup, hzero⟩ := hperm (t.addPublishForAck p) (by
      simp only [addPublishForAck, List.append_assoc, List.singleton_append]
      exact List.perm_middle) (.inl h1)
    exact ⟨hnodup, hzero, by simp [addPublishForAck, h.ack, hunmark], h.received⟩
  · rw [if_neg h1, if_neg h1]
    by_cases h2 : p.qos = 2
    · rw [if_pos h2, if_pos h2]
      obtain ⟨hnodup, hzero⟩ := hperm (t.addPublishForRec p) (by
        simp only [addPublishForRec, ← List.append_assoc]
        exact List.perm_append_singleton _ _) (.inr h2)
      exact ⟨hnodup, hzero, h.ack, by simp [addPublishForRec, h.received, hunmark]⟩
    · rw [if_neg h2, if_neg h2]
      exact h

/-- Filtering by an id does not see the marks. -/
theorem filter_unmark (l : List MqttPublish) (id : UInt16) :
    (l.filter fun p => p.packetId ≠ id).map MqttPublish.unmark =
      (l.map MqttPublish.unmark).filter fun p => p.packetId ≠ id := by
  rw [List.filter_map]
  rfl

/-- A PUBACK releases the PUBLISH with its id. -/
theorem puback (h : t.Accounted ack rec) (id : UInt16) :
    (t.releasePublishForAck id).Accounted (ack.filter fun p => p.packetId ≠ id) rec := by
  have hids : (t.releasePublishForAck id).ids.Sublist t.ids :=
    (List.eraseP_sublist.append (List.Sublist.refl _)).map _
  refine ⟨h.nodup.sublist hids, fun h0 => h.ne_zero (hids.subset h0), ?_, h.received⟩
  have hnodup := h.nodup
  rw [ids, List.map_append] at hnodup
  rw [← h.ack, ← filter_unmark, releasePublishForAck,
    List.eraseP_eq_filter_of_nodup_map hnodup.of_append_left]

/-- A PUBREC releases the PUBLISH with its id. -/
theorem pubrec (h : t.Accounted ack rec) (id : UInt16) :
    (t.releasePublishForRec id).Accounted ack (rec.filter fun p => p.packetId ≠ id) := by
  have hids : (t.releasePublishForRec id).ids.Sublist t.ids :=
    ((List.Sublist.refl _).append List.eraseP_sublist).map _
  refine ⟨h.nodup.sublist hids, fun h0 => h.ne_zero (hids.subset h0), h.ack, ?_⟩
  have hnodup := h.nodup
  rw [ids, List.map_append] at hnodup
  rw [← h.received, ← filter_unmark, releasePublishForRec,
    List.eraseP_eq_filter_of_nodup_map hnodup.of_append_right]

end Session.Accounted

/-! ## Ledgers -/

/-- What an effect does to the ledger of the messages of a QoS that a session was
    sent and has not answered. -/
def Effect.unanswered (qos : Nat) (s : SessionRef) (ps : List MqttPublish) :
    Effect → List MqttPublish
  | .attached c sessionPresent => if c.session = s ∧ sessionPresent = false then [] else ps
  | .addressed c p => if c.session = s ∧ p.qos = qos then ps ++ [p] else ps
  | .handled c (.puback a) =>
    if c.session = s ∧ qos = 1 then ps.filter fun p => p.packetId ≠ a.packetId else ps
  | .handled c (.pubrec a) =>
    if c.session = s ∧ qos = 2 then ps.filter fun p => p.packetId ≠ a.packetId else ps
  | _ => ps

/-- The PUBLISHes of a QoS addressed to a session and not answered, in the order
    they were sent in. -/
def World.unanswered (w : World) (qos : Nat) (s : SessionRef) : List MqttPublish :=
  w.log.foldl (fun ps e => e.unanswered qos s ps) []

theorem unanswered_record (w : World) (e : Effect) (qos : Nat) (s : SessionRef) :
    (w.record e).unanswered qos s = e.unanswered qos s (w.unanswered qos s) := by
  rw [World.unanswered, World.record, List.foldl_append]
  rfl

/-- The lists of every session are its ledgers. -/
def World.OutboundInv (w : World) : Prop :=
  ∀ s, (w.session s).Accounted (w.unanswered 1 s) (w.unanswered 2 s)

variable {cfg : Config} {w w' : World} {e : Event}

theorem outbound_record (h : w.OutboundInv) {e : Effect} (he : ∀ q s ps, e.unanswered q s ps = ps) :
    (w.record e).OutboundInv := by
  intro s
  rw [unanswered_record, unanswered_record, he, he]
  exact h s

theorem outbound_modifySession (h : w.OutboundInv) {s : SessionRef} {f : Session → Session}
    (hack : (f (w.session s)).publishForAck.map MqttPublish.unmark =
      (w.session s).publishForAck.map MqttPublish.unmark)
    (hrec : (f (w.session s)).publishForRec.map MqttPublish.unmark =
      (w.session s).publishForRec.map MqttPublish.unmark) : (w.modifySession s f).OutboundInv := by
  intro s'
  rw [World.session_modifySession]
  split_ifs with hs
  · subst hs
    exact (h s').of_unmark hack hrec
  · exact h s'

/-- A PUBLISH is addressed to a client under a new id. -/
theorem outbound_address (h : w.OutboundInv) {c : MqttClient} {p : MqttPublish}
    (hdup : p.dup = false) (hnew : p.qos = 1 ∨ p.qos = 2 →
      p.packetId ≠ 0 ∧ (w.session c.session).inUse p.packetId = false) :
    (w.address c p).OutboundInv := by
  intro s
  show (((w.record (.addressed c p)).modifySession c.session _).session s).Accounted
    ((w.record (.addressed c p)).unanswered 1 s) ((w.record (.addressed c p)).unanswered 2 s)
  rw [World.session_modifySession, unanswered_record, unanswered_record]
  simp only [Effect.unanswered]
  by_cases hs : s = c.session
  · subst hs
    simp only [if_true, true_and]
    exact (h c.session).add hdup hnew
  · rw [if_neg hs, if_neg fun hc => hs hc.1.symm, if_neg fun hc => hs hc.1.symm]
    exact h s

/-- `mqtt_client::publish` files what it sends. -/
theorem outbound_publish (h : w.OutboundInv) (client : MqttClient) (maxQos : Nat) (retained : Bool)
    (packet : MqttPublish) : (client.publish maxQos retained packet w).2.OutboundInv := by
  have hcount (next : UInt16) : (w.modifySession client.session fun _ =>
      { w.session client.session with nextPacketId := next }).OutboundInv :=
    outbound_modifySession h rfl rfl
  rcases publish_cases client maxQos retained packet w with
    ⟨next, heq | ⟨id, publish, h0, hnew, hp, heq⟩⟩
  · rw [heq]
    exact hcount next
  · rw [heq]
    obtain ⟨hdup, hqos, -, -, -, hpid⟩ := mqttPublish_eq_ok hp
    refine outbound_record (outbound_address (hcount next) hdup fun hq => ?_) fun _ _ _ => rfl
    rw [hpid (hqos ▸ hq), World.session_modifySession, if_pos rfl]
    exact ⟨h0, hnew⟩

/-- Everything but the beginning of a step keeps the lists. -/
theorem outbound_sessionFrame : SessionFrame (Frame.keeping World.OutboundInv) where
  same {w w'} hlog hsession h s := by
    rw [hsession, World.unanswered, hlog, World.unanswered, hlog]
    exact h s
  write w k p hp h := outbound_record h fun _ _ _ => rfl
  note w _ _ _ h := outbound_record h fun _ _ _ => rfl
  noteWill _ _ h := outbound_record h fun _ _ _ => rfl
  counter s w _ h := outbound_modifySession h rfl rfl
  publish client maxQos retained packet w h := outbound_publish h client maxQos retained packet
  subscriptions w s f hf h := outbound_modifySession h (by rw [hf]) (by rw [hf])

/-! ## The beginning of a step -/

/-- A PUBACK and a PUBREC are entered in the ledgers. -/
theorem unanswered_served (w : World) (k : ChannelId) (c : MqttClient) (p : Packet) (q : Nat)
    (s : SessionRef) : (w.served k c p).unanswered q s =
      match p with
      | .puback a => if c.session = s ∧ q = 1 then
          (w.unanswered q s).filter fun p => p.packetId ≠ a.packetId else w.unanswered q s
      | .pubrec a => if c.session = s ∧ q = 2 then
          (w.unanswered q s).filter fun p => p.packetId ≠ a.packetId else w.unanswered q s
      | _ => w.unanswered q s := by
  rw [World.unanswered, World.foldl_log_served (fun _ _ _ _ => rfl)]
  cases p <;> rfl

theorem outbound_served (h : w.OutboundInv) (k : ChannelId) (c : MqttClient) (p : Packet) :
    (w.served k c p).OutboundInv := by
  intro s
  rw [unanswered_served, unanswered_served, w.session_served, Function.update_apply]
  by_cases hs : s = c.session
  · subst hs
    rw [if_pos rfl]
    cases p with
    | publish m =>
      refine (h c.session).of_unmark ?_ ?_
      · rw [Session.served]
        split_ifs <;> rfl
      · rw [Session.served]
        split_ifs <;> rfl
    | puback a => simpa [Session.served] using (h c.session).puback a.packetId
    | pubrec a =>
      have hrec : ((w.session c.session).served (.pubrec a)).Accounted _ _ :=
        ((h c.session).pubrec a.packetId).of_unmark rfl rfl
      simpa using hrec
    | pubrel | pubcomp => exact (h c.session).of_unmark rfl rfl
    | _ => exact h c.session
  · rw [if_neg hs]
    cases p with
    | puback | pubrec =>
      dsimp only
      rw [if_neg fun hc => hs hc.1.symm, if_neg fun hc => hs hc.1.symm]
      exact h s
    | _ => exact h s

theorem outbound_mark (h : w.OutboundInv) (c : MqttClient) : (w.redeliver c).OutboundInv := by
  have hmark : ∀ l : List MqttPublish,
      (l.map MqttPublish.setDup).map MqttPublish.unmark = l.map MqttPublish.unmark := by
    intro l
    rw [List.map_map]
    rfl
  refine rel_redeliver (F := Frame.keeping World.OutboundInv) ?_ ?_ ?_ w h
  · exact fun w h => outbound_modifySession h (hmark _) rfl
  · exact fun w h => outbound_modifySession h rfl (hmark _)
  · exact fun w p h => outbound_record h fun _ _ _ => rfl

/-- An accepted CONNECT keeps the lists of a stored session, and a new session
    has nothing in them. -/
theorem outbound_joined (h : w.OutboundInv) (j : Joining) (hk : (w.contexts j.channelId).isSome) :
    (w.joined cfg j).OutboundInv := by
  obtain ⟨r, sessionPresent, v, -, -, hlog, -, hcases⟩ := joined_cases cfg w j hk
  have hunanswered : ∀ q s, v.unanswered q s =
      if r = s ∧ sessionPresent = false then [] else w.unanswered q s := by
    intro q s
    rw [World.unanswered, hlog, List.foldl_append]
    rfl
  rcases hcases with ⟨-, rfl, hsession, hw⟩ | ⟨-, rfl, hsession, hw⟩
  · rw [hw]
    refine outbound_mark (outbound_sessionFrame.same (World.log_resubscribe _ _)
      (World.session_resubscribe _ _) fun s => ?_) _
    rw [hunanswered, hunanswered, if_neg (by simp), if_neg (by simp), hsession]
    exact h s
  · rw [hw]
    intro s
    rw [hunanswered, hunanswered, hsession, Function.update_apply]
    by_cases hs : s = r
    · rw [if_pos hs, if_pos ⟨hs.symm, rfl⟩, if_pos ⟨hs.symm, rfl⟩]
      exact Session.Accounted.new
    · rw [if_neg hs, if_neg fun hc => hs hc.1.symm, if_neg fun hc => hs hc.1.symm]
      exact h s

/-! ## Resumed sessions -/

/-- What is recorded of the publishing of a retained message. -/
def Effect.Retained : Effect → Prop
  | .addressed _ p | .write _ _ (.publish p) => p.retain = true
  | _ => False

/-- The history goes on with retained messages. -/
def Retaining : Frame World where
  rel w w' := ∃ rest, w'.log = w.log ++ rest ∧ ∀ e ∈ rest, e.Retained
  refl w := ⟨[], (List.append_nil _).symm, fun _ he => absurd he List.not_mem_nil⟩
  trans := by
    rintro s t u ⟨l, hl, hle⟩ ⟨m, hm, hme⟩
    refine ⟨l ++ m, by rw [hm, hl, List.append_assoc], fun e he => ?_⟩
    exact (List.mem_append.1 he).elim (hle e) (hme e)

theorem retaining_publish (client : MqttClient) (maxQos : Nat) (packet : MqttPublish) :
    Within Retaining (client.publish maxQos true packet) := by
  intro w
  rcases publish_cases client maxQos true packet w with
    ⟨next, heq | ⟨id, publish, -, -, hp, heq⟩⟩
  · rw [heq]
    exact ⟨[], (List.append_nil _).symm, fun _ he => absurd he List.not_mem_nil⟩
  · rw [heq]
    have hretain := (mqttPublish_eq_ok hp).2.2.1
    refine ⟨[.addressed client publish, .write client.channelId _ (.publish publish)],
      List.append_assoc _ _ _, fun e he => ?_⟩
    rcases List.mem_pair.1 he with rfl | rfl
    · exact hretain
    · exact hretain

theorem retaining_publishRetainedMessage (it : Iteration) (k : ChannelId) (fs gs : List Bytes) :
    Within Retaining (publishRetainedMessage it k fs gs) :=
  within_publishRetainedMessage it k fs gs fun _ _ _ m _ _ =>
    .inl fun client maxQos => retaining_publish client maxQos m

/-- What is written when the session `s` is resumed: its ledgers, marked, and the
    PUBRELs that wait for their answer. -/
def World.outstanding (w : World) (s : SessionRef) : List Packet :=
  (w.unanswered 1 s).map (fun p => .publish p.setDup) ++
    (w.unanswered 2 s).map (fun p => .publish p.setDup) ++
      (w.session s).packetIdForPubcomp.map fun id => .pubrel (mqttPubrel id)

/-- From `w` to `w'` an accepted CONNECT resumes the session `s`: after the
    CONNACK, what is outstanding is written, and then retained messages. -/
def World.Resends (w : World) (j : Joining) (s : SessionRef) (w' : World) : Prop :=
  let c := (j.client w).setSessionPtr s
  ∃ rest, (∀ e ∈ rest, e.Retained) ∧ w'.log = w.log ++ .attached c true ::
    (.connack (mqttConnack true 0x00) :: w.outstanding s).map (.write j.channelId (some c)) ++ rest

theorem resends_joined (cfg : Config) (h : w.OutboundInv) {j : Joining} {s : SessionRef}
    (hk : (w.contexts j.channelId).isSome) (hs : w.Resumes j s) :
    w.Resends j s (w.joined cfg j) := by
  obtain ⟨r, sessionPresent, v, hparam, -, hlog, -, hcases⟩ := joined_cases cfg w j hk
  rcases hcases with ⟨hr, rfl, hsession, hw⟩ | ⟨hnot, -⟩
  swap
  · exact absurd hs (hnot s)
  obtain rfl : r = s := Option.some.inj (hr.2.symm.trans hs.2)
  have hsetDup : ∀ {l l' : List MqttPublish}, l.map MqttPublish.unmark = l' →
      l.map (fun p => Packet.publish p.setDup) = l'.map fun p => Packet.publish p.setDup := by
    rintro l - rfl
    rw [List.map_map]
    rfl
  have hparam' : (v.resubscribe ((j.client w).setSessionPtr r)).param = v.param := by
    rw [World.resubscribe_eq]
    rfl
  refine ⟨[], by simp, ?_⟩
  rw [hw, World.log_redeliver, World.session_resubscribe, World.log_resubscribe, hparam', hsession,
    hlog]
  simp only [MqttClient.setSessionPtr_session, MqttClient.setSessionPtr_channelId,
    Joining.client_channelId, hparam, hsetDup (h r).ack, hsetDup (h r).received,
    World.outstanding, List.map_cons, List.append_assoc, List.cons_append, List.nil_append,
    List.append_nil]

/-! ## Runs -/

theorem outbound_start : World.start.OutboundInv := fun _ => Session.Accounted.new

theorem outbound_step (hst : (broker cfg).step w e = some w') (h : w.OutboundInv) :
    w'.OutboundInv := by
  refine outbound_sessionFrame.step hst ?_
  rcases received_cases cfg w e with ⟨j, hj, hw⟩ | ⟨-, ⟨packet, -, hw⟩ | ⟨c, p, hp, hc, -, hw⟩ | hw⟩
  · rw [hw]
    exact outbound_joined h j (isSome_contexts_of_joining hst hj)
  · rw [hw]
    exact outbound_sessionFrame.same (w.log_greet _ cfg _) (w.session_greet _ cfg _) h
  · rw [hw]
    exact outbound_served h _ c p
  · rwa [hw]

theorem outbound_of_reachable (h : (broker cfg).Reachable w) : w.OutboundInv :=
  h.invariant outbound_start fun _ _ _ hw hst => outbound_step hst hw

/-- When a session is resumed, what it holds is written again. -/
theorem resends_step (h : (broker cfg).Reachable w) {e : Event} {w' : World} {j : Joining}
    {s : SessionRef} (hst : (broker cfg).step w e = some w') (hj : w.joining cfg e = some j)
    (hs : w.Resumes j s) : w.Resends j s w' := by
  obtain ⟨hk, rest, hlog, hrest⟩ := rel_step_joining (F := Retaining)
    (fun w => ⟨[], (List.append_nil _).symm, fun _ he => absurd he List.not_mem_nil⟩)
    (fun it => retaining_publishRetainedMessage it _) hst hj
  obtain ⟨rest', hrest', hjoined⟩ := resends_joined cfg (outbound_of_reachable h) hk hs
  refine ⟨rest' ++ rest, fun e he => (List.mem_append.1 he).elim (hrest' e) (hrest e), ?_⟩
  rw [hlog, hjoined, List.append_assoc]

/-- In every reachable state the lists of every session are its ledgers, and what
    they hold is written again when the session is resumed. -/
theorem outbound_kept (h : (broker cfg).Reachable w) : w.OutboundInv ∧
    ∀ e w' j s, (broker cfg).step w e = some w' → w.joining cfg e = some j → w.Resumes j s →
      w.Resends j s w' :=
  ⟨outbound_of_reachable h, fun _ _ _ _ => resends_step h⟩

/-- A client is lost with a message it did not answer, which is written again
    when it comes back. -/
theorem outbound_kept_resumed : ∃ w w' j, (broker mqttdCfg).Reachable w ∧
    (broker mqttdCfg).step w (Action.read 2 (connectBytes 0x00 [0x61] [])).event = some w' ∧
    (w.unanswered 1 1).map MqttPublish.payload = [[0x01]] ∧ w.OutboundInv ∧ w.Resends j 1 w' := by
  have hruns : runs (fun _ _ => true)
      [.accept 1, .accept 2, .read 1 (connectBytes 0x00 [0x61] []),
        .read 1 (subscribeBytes [0x74] 0x01),
        .read 1 (publishBytes 0x02 [0x74] [0x00, 0x07] [0x01]), .disconnected 1]
      (fun w => ((broker mqttdCfg).step w (Action.read 2 (connectBytes 0x00 [0x61] [])).event).any
        fun _ => (w.unanswered 1 1).map MqttPublish.payload = [[0x01]] &&
          (w.joining mqttdCfg (Action.read 2 (connectBytes 0x00 [0x61] [])).event).any fun j =>
            j.packet.cleanSession = false && w.sessions j.packet.clientId = some 1) = true := by
    decide +kernel
  obtain ⟨l, w, w', hl, -, hst, hp⟩ := exists_run_step hruns
  obtain ⟨hpayload, hj⟩ := Bool.and_eq_true_iff.1 hp
  obtain ⟨j, hj, hs⟩ := Option.any_eq_true _ _ |>.1 hj
  obtain ⟨hinv, hresends⟩ := outbound_kept hl.reachable
  refine ⟨w, w', j, hl.reachable, hst, of_decide_eq_true hpayload, hinv, hresends _ _ j 1 hst hj ?_⟩
  simpa [World.Resumes] using hs

end MqttBroker
