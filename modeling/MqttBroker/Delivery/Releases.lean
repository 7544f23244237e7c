import MqttBroker.Delivery.Outbound

/-!
# Releases of the messages of QoS 2

A QoS 2 PUBLISH that was sent in a session is in flight until its PUBREC and
then its PUBCOMP are handled; the history tells which ones are, and how far they
are (`World.inFlight`). `_packet_id_for_pubcomp` is to hold the ids of the
second half (`World.ReleasesInFlight`). This holds as long as every PUBREC is
about a message that waits for one (`releases_iff`): `handle_pubrec` adds the id
to the list whether or not there was a message to release.
-/

namespace MqttBroker

open Prog

/-! ## What is in flight -/

/-- The ids of the QoS 2 messages in flight: those without a PUBREC, and those
    with a PUBREC and without a PUBCOMP. -/
structure InFlight where
  sent : List UInt16
  received : List UInt16

/-- What an effect does to the messages in flight in a session. A PUBREC is about
    a message without a PUBREC, or about nothing. -/
def Effect.inFlight (s : SessionRef) (f : InFlight) : Effect → InFlight
  | .attached c sessionPresent => if c.session = s ∧ sessionPresent = false then ⟨[], []⟩ else f
  | .addressed c p =>
    if c.session = s ∧ p.qos = 2 then { f with sent := f.sent ++ [p.packetId] } else f
  | .handled c (.pubrec a) =>
    if c.session = s ∧ a.packetId ∈ f.sent then
      ⟨f.sent.filter (· ≠ a.packetId), f.received ++ [a.packetId]⟩
    else f
  | .handled c (.pubcomp a) =>
    if c.session = s then { f with received := f.received.filter (· ≠ a.packetId) } else f
  | _ => f

/-- The QoS 2 messages in flight in a session. -/
def World.inFlight (w : World) (s : SessionRef) : InFlight :=
  w.log.foldl (fun f e => e.inFlight s f) ⟨[], []⟩

theorem inFlight_record (w : World) (e : Effect) (s : SessionRef) :
    (w.record e).inFlight s = e.inFlight s (w.inFlight s) := by
  rw [World.inFlight, World.record, List.foldl_append]
  rfl

/-- The ids waiting for a PUBCOMP differ, belong to messages in flight whose
    PUBREC was handled, and are none of the ids waiting for a PUBACK or a PUBREC. -/
structure World.ReleasesInFlight (w : World) (s : SessionRef) : Prop where
  nodup : (w.session s).packetIdForPubcomp.Nodup
  inFlight : ∀ id ∈ (w.session s).packetIdForPubcomp, id ∈ (w.inFlight s).received
  apart : ∀ id ∈ (w.session s).packetIdForPubcomp, id ∉ (w.session s).ids

/-- A PUBREC. -/
def Packet.toPubrec : Packet → Option MqttPubrec
  | .pubrec packet => some packet
  | _ => none

/-- A client sends a PUBREC with an id under which no message of its session
    waits for one. -/
def World.StrayPubrec (w : World) (e : Event) : Prop :=
  ∃ c ∈ w.param e.action.channelId, ∃ a ∈ e.packet.bind Packet.toPubrec,
    a.packetId ∉ (w.session c.session).publishForRec.map MqttPublish.packetId

instance (w : World) (e : Event) : Decidable (w.StrayPubrec e) :=
  inferInstanceAs (Decidable (∃ c ∈ w.param e.action.channelId, _))

/-! ## Sessions -/

/-- The lists of a session hold the ids of the given messages in flight. -/
structure Session.Carries (t : Session) (f : InFlight) : Prop where
  sent : t.publishForRec.map MqttPublish.packetId = f.sent
  received : t.packetIdForPubcomp = f.received
  nodup : t.packetIdForPubcomp.Nodup
  apart : ∀ id ∈ t.packetIdForPubcomp, id ∉ t.ids

namespace Session.Carries

variable {t t' : Session} {f : InFlight}

theorem new : Session.new.Carries ⟨[], []⟩ :=
  ⟨rfl, rfl, List.nodup_nil, fun _ h => absurd h List.not_mem_nil⟩

/-- Only the ids of the messages count. -/
theorem of_ids (h : t.Carries f)
    (hack : t'.publishForAck.map MqttPublish.packetId = t.publishForAck.map MqttPublish.packetId)
    (hrec : t'.publishForRec.map MqttPublish.packetId = t.publishForRec.map MqttPublish.packetId)
    (hcomp : t'.packetIdForPubcomp = t.packetIdForPubcomp) : t'.Carries f := by
  have hids : t'.ids = t.ids := by
    rw [ids, ids, List.map_append, List.map_append, hack, hrec]
  refine ⟨hrec.trans h.sent, hcomp.trans h.received, hcomp ▸ h.nodup, fun id hid => ?_⟩
  rw [hids]
  exact h.apart id (hcomp ▸ hid)

/-- A PUBLISH is filed under an id that is not in use. -/
theorem add (h : t.Carries f) {p : MqttPublish}
    (hnew : p.qos = 1 ∨ p.qos = 2 → t.inUse p.packetId = false) :
    (if p.qos = 1 then t.addPublishForAck p else if p.qos = 2 then t.addPublishForRec p
      else t).Carries (if p.qos = 2 then { f with sent := f.sent ++ [p.packetId] } else f) := by
  -- An id that waits for its PUBCOMP is in use.
  have hfree : p.qos = 1 ∨ p.qos = 2 → ∀ id ∈ t.packetIdForPubcomp, id ≠ p.packetId := by
    rintro hqos id hid rfl
    have := hnew hqos
    rw [inUse, Bool.or_eq_false_iff] at this
    exact absurd (List.contains_iff_mem.2 hid) (Bool.eq_false_iff.1 this.2)
  by_cases h1 : p.qos = 1
  · have h2 : p.qos ≠ 2 := by omega
    rw [if_pos h1, if_neg h2]
    refine ⟨h.sent, h.received, h.nodup, fun id hid hmem => ?_⟩
    have hcases : id ∈ t.ids ∨ id = p.packetId := by
      simp only [ids, addPublishForAck, List.map_append, List.mem_append, List.map_cons,
        List.map_nil, List.mem_singleton] at hmem ⊢
      tauto
    exact hcases.elim (h.apart id hid) (hfree (.inl h1) id hid)
  · rw [if_neg h1]
    by_cases h2 : p.qos = 2
    · rw [if_pos h2, if_pos h2]
      refine ⟨?_, h.received, h.nodup, fun id hid hmem => ?_⟩
      · rw [addPublishForRec, List.map_append, h.sent]
        rfl
      · have hcases : id ∈ t.ids ∨ id = p.packetId := by
          simp only [ids, addPublishForRec, List.map_append, List.mem_append, List.map_cons,
            List.map_nil, List.mem_singleton] at hmem ⊢
          tauto
        exact hcases.elim (h.apart id hid) (hfree (.inr h2) id hid)
    · rw [if_neg h2, if_neg h2]
      exact h

theorem puback (h : t.Carries f) (id : UInt16) : (t.releasePublishForAck id).Carries f := by
  have hids : (t.releasePublishForAck id).ids.Sublist t.ids :=
    (List.eraseP_sublist.append (List.Sublist.refl _)).map _
  exact ⟨h.sent, h.received, h.nodup, fun i hi hmem => h.apart i hi (hids.subset hmem)⟩

/-- A PUBREC moves an id from the messages that wait for it to the releases: the
    id is gone from the former, as their ids differ. -/
theorem pubrec (h : t.Carries f) (hnodup : t.ids.Nodup) {id : UInt16}
    (hid : id ∈ t.publishForRec.map MqttPublish.packetId) :
    ((t.releasePublishForRec id).addPacketIdForPubcomp id).Carries
      ⟨f.sent.filter (· ≠ id), f.received ++ [id]⟩ := by
  have happend := hnodup
  rw [ids, List.map_append] at happend
  have herase : (t.releasePublishForRec id).publishForRec =
      t.publishForRec.filter fun p => p.packetId ≠ id :=
    List.eraseP_eq_filter_of_nodup_map happend.of_append_right id
  have hids : ((t.releasePublishForRec id).addPacketIdForPubcomp id).ids.Sublist t.ids :=
    ((List.Sublist.refl _).append List.eraseP_sublist).map _
  have hold : id ∈ t.ids := by
    rw [ids, List.map_append]
    exact List.mem_append_right _ hid
  have hnew : id ∉ t.packetIdForPubcomp := fun hc => h.apart id hc hold
  refine ⟨?_, ?_, ?_, fun i hi hmem => ?_⟩
  · show (t.releasePublishForRec id).publishForRec.map MqttPublish.packetId = _
    rw [herase, ← h.sent, List.filter_map]
    rfl
  · show t.packetIdForPubcomp ++ [id] = _
    rw [h.received]
  · exact List.nodup_append.2 ⟨h.nodup, List.nodup_singleton id, fun a ha b hb hab =>
      hnew (List.mem_singleton.1 hb ▸ hab ▸ ha)⟩
  · rcases List.mem_append.1 (show i ∈ t.packetIdForPubcomp ++ [id] from hi) with hi | hi
    · exact h.apart i hi (hids.subset hmem)
    · -- The moved id is not left among the messages, of either QoS.
      obtain rfl := List.mem_singleton.1 hi
      rw [ids, List.map_append, List.mem_append] at hmem
      rcases hmem with hmem | hmem
      · exact List.disjoint_of_nodup_append happend hmem hid
      · obtain ⟨p, hp, hpi⟩ := List.mem_map.1 hmem
        rw [show ((t.releasePublishForRec i).addPacketIdForPubcomp i).publishForRec = _ from
          herase] at hp
        exact of_decide_eq_true (List.mem_filter.1 hp).2 hpi

theorem pubcomp (h : t.Carries f) (id : UInt16) : (t.releasePacketIdForPubcomp id).Carries
    { f with received := f.received.filter (· ≠ id) } := by
  have herase : (t.releasePacketIdForPubcomp id).packetIdForPubcomp =
      t.packetIdForPubcomp.filter (· ≠ id) := by
    rw [releasePacketIdForPubcomp, h.nodup.erase_eq_filter]
    exact List.filter_congr fun x _ => Bool.eq_iff_iff.2 (by simp)
  refine ⟨h.sent, ?_, ?_, fun i hi => ?_⟩
  · rw [herase, h.received]
  · rw [herase]
    exact h.nodup.filter _
  · rw [herase] at hi
    exact h.apart i (List.mem_filter.1 hi).1

end Session.Carries

/-- The lists of every session hold the messages in flight. -/
def World.FlightInv (w : World) : Prop := ∀ s, (w.session s).Carries (w.inFlight s)

variable {cfg : Config} {w w' : World} {e : Event} {l : List (World × Event)}

theorem World.FlightInv.releasesInFlight (h : w.FlightInv) (s : SessionRef) :
    w.ReleasesInFlight s where
  nodup := (h s).nodup
  inFlight _ hid := (h s).received ▸ hid
  apart := (h s).apart

/-! ## The rest of a step -/

theorem flight_record (h : w.FlightInv) {e : Effect} (he : ∀ s f, e.inFlight s f = f) :
    (w.record e).FlightInv := by
  intro s
  rw [inFlight_record, he]
  exact h s

theorem flight_modifySession (h : w.FlightInv) {s : SessionRef} {f : Session → Session}
    (hf : ∀ g, (w.session s).Carries g → (f (w.session s)).Carries g) :
    (w.modifySession s f).FlightInv := by
  intro s'
  rw [World.session_modifySession]
  split_ifs with hs
  · subst hs
    exact hf _ (h s')
  · exact h s'

theorem flight_address (h : w.FlightInv) {c : MqttClient} {p : MqttPublish}
    (hnew : p.qos = 1 ∨ p.qos = 2 → (w.session c.session).inUse p.packetId = false) :
    (w.address c p).FlightInv := by
  intro s
  show (((w.record (.addressed c p)).modifySession c.session _).session s).Carries
    ((w.record (.addressed c p)).inFlight s)
  rw [World.session_modifySession, inFlight_record]
  simp only [Effect.inFlight]
  by_cases hs : s = c.session
  · subst hs
    simp only [if_true, true_and]
    exact (h c.session).add hnew
  · rw [if_neg hs, if_neg fun hc => hs hc.1.symm]
    exact h s

/-- A new packet id is none of those that wait for a PUBCOMP. -/
theorem flight_publish (h : w.FlightInv) (client : MqttClient) (maxQos : Nat) (retained : Bool)
    (packet : MqttPublish) : (client.publish maxQos retained packet w).2.FlightInv := by
  have hcount (next : UInt16) : (w.modifySession client.session fun _ =>
      { w.session client.session with nextPacketId := next }).FlightInv :=
    flight_modifySession h fun g hg => hg.of_ids rfl rfl rfl
  rcases publish_cases client maxQos retained packet w with
    ⟨next, heq | ⟨id, publish, -, hnew, hp, heq⟩⟩
  · rw [heq]
    exact hcount next
  · rw [heq]
    obtain ⟨-, hqos, -, -, -, hpid⟩ := mqttPublish_eq_ok hp
    refine flight_record (flight_address (hcount next) fun hq => ?_) fun _ _ => rfl
    rw [hpid (hqos ▸ hq), World.session_modifySession, if_pos rfl]
    exact hnew

theorem flight_sessionFrame : SessionFrame (Frame.keeping World.FlightInv) where
  same {w w'} hlog hsession h s := by
    rw [hsession, World.inFlight, hlog]
    exact h s
  write w k p hp h := flight_record h fun _ _ => rfl
  note w _ _ _ h := flight_record h fun _ _ => rfl
  noteWill _ _ h := flight_record h fun _ _ => rfl
  counter s w _ h := flight_modifySession h fun _ hg => hg.of_ids rfl rfl rfl
  publish client maxQos retained packet w h := flight_publish h client maxQos retained packet
  subscriptions w s f hf h := flight_modifySession h fun _ hg =>
    hg.of_ids (by rw [hf]) (by rw [hf]) (by rw [hf])

/-! ## The beginning of a step -/

/-- A packet that is handled takes the messages in flight further. -/
theorem inFlight_served (w : World) (k : ChannelId) (c : MqttClient) (p : Packet) (s : SessionRef) :
    (w.served k c p).inFlight s = (Effect.handled c p).inFlight s (w.inFlight s) := by
  rw [World.inFlight, World.foldl_log_served (fun _ _ _ _ => rfl)]
  cases p <;> rfl

/-- A client whose PUBRECs are about messages that wait for them keeps the
    messages in flight. -/
theorem flight_served (h : w.FlightInv) (hout : w.OutboundInv) (k : ChannelId) {c : MqttClient}
    {p : Packet} (hok : ∀ a, p = .pubrec a →
      a.packetId ∈ (w.session c.session).publishForRec.map MqttPublish.packetId) :
    (w.served k c p).FlightInv := by
  intro s
  rw [inFlight_served, w.session_served, Function.update_apply]
  by_cases hs : s = c.session
  swap
  · rw [if_neg hs]
    cases p with
    | pubrec =>
      rw [Effect.inFlight, if_neg fun hc => hs hc.1.symm]
      exact h s
    | pubcomp =>
      rw [Effect.inFlight, if_neg (Ne.symm hs)]
      exact h s
    | _ => exact h s
  subst hs
  rw [if_pos rfl]
  cases p with
  | publish m =>
    refine (h c.session).of_ids ?_ ?_ ?_ <;> (rw [Session.served]; split_ifs <;> rfl)
  | puback a => exact (h c.session).puback a.packetId
  | pubrec a =>
    have hid := hok a rfl
    have hsent := hid
    rw [(h c.session).sent] at hsent
    rw [Effect.inFlight, if_pos ⟨rfl, hsent⟩]
    exact (h c.session).pubrec (hout c.session).nodup hid
  | pubrel a => exact (h c.session).of_ids rfl rfl rfl
  | pubcomp a =>
    rw [Effect.inFlight, if_pos rfl]
    exact (h c.session).pubcomp a.packetId
  | _ => exact h c.session

/-- An accepted CONNECT keeps the messages in flight of a stored session, and a
    new session has none. -/
theorem flight_joined (h : w.FlightInv) (j : Joining) (hk : (w.contexts j.channelId).isSome) :
    (w.joined cfg j).FlightInv := by
  obtain ⟨r, sessionPresent, v, -, -, hlog, -, hcases⟩ := joined_cases cfg w j hk
  have hflight : ∀ s, v.inFlight s =
      if r = s ∧ sessionPresent = false then ⟨[], []⟩ else w.inFlight s := by
    intro s
    rw [World.inFlight, hlog, List.foldl_append]
    rfl
  rcases hcases with ⟨-, rfl, hsession, hw⟩ | ⟨-, rfl, hsession, hw⟩
  · rw [hw]
    have hv : v.FlightInv := by
      intro s
      rw [hflight, if_neg (by simp), hsession]
      exact h s
    have hmark : ∀ l : List MqttPublish, (l.map MqttPublish.setDup).map MqttPublish.packetId =
        l.map MqttPublish.packetId := by
      intro l
      rw [List.map_map]
      rfl
    -- Marking the messages that are written again does not touch their ids.
    refine rel_redeliver (F := Frame.keeping World.FlightInv) ?_ ?_ ?_ _
      (flight_sessionFrame.same (World.log_resubscribe _ _) (World.session_resubscribe _ _) hv)
    · exact fun w h => flight_modifySession h fun _ hg => hg.of_ids (hmark _) rfl rfl
    · exact fun w h => flight_modifySession h fun _ hg => hg.of_ids rfl (hmark _) rfl
    · exact fun w p h => flight_record h fun _ _ => rfl
  · rw [hw]
    intro s
    rw [hflight, hsession, Function.update_apply]
    by_cases hs : s = r
    · rw [if_pos hs, if_pos ⟨hs.symm, rfl⟩]
      exact Session.Carries.new
    · rw [if_neg hs, if_neg fun hc => hs hc.1.symm]
      exact h s

/-! ## Runs -/

theorem flight_start : World.start.FlightInv := fun _ => Session.Carries.new

/-- A step without a stray PUBREC keeps the messages in flight. -/
theorem flight_step (hst : (broker cfg).step w e = some w') (h : w.FlightInv)
    (hout : w.OutboundInv) (hok : ¬w.StrayPubrec e) : w'.FlightInv := by
  refine flight_sessionFrame.step hst ?_
  rcases received_cases cfg w e with ⟨j, hj, hw⟩ | ⟨-, ⟨packet, -, hw⟩ | ⟨c, p, hp, hc, -, hw⟩ | hw⟩
  · rw [hw]
    exact flight_joined h j (isSome_contexts_of_joining hst hj)
  · rw [hw]
    exact flight_sessionFrame.same (w.log_greet _ cfg _) (w.session_greet _ cfg _) h
  · rw [hw]
    refine flight_served h hout _ fun a ha => not_not.1 fun hid => hok ?_
    rw [ha] at hp
    exact ⟨c, hc, a, Option.bind_eq_some_iff.2 ⟨_, hp, rfl⟩, hid⟩
  · rwa [hw]

/-- After a stray PUBREC, an id that is not in flight, or one that is there
    twice, waits for a PUBCOMP. -/
theorem not_releasesInFlight_of_stray (hst : (broker cfg).step w e = some w') (h : w.FlightInv)
    (hstray : w.StrayPubrec e) : ¬∀ s, w'.ReleasesInFlight s := by
  obtain ⟨c, hc, a, ha, hid⟩ := hstray
  obtain ⟨p, hp, hpa⟩ := Option.bind_eq_some_iff.1 ha
  obtain rfl : p = .pubrec a := by
    cases p <;> cases hpa
    rfl
  intro hsound
  have hw' := step_pubrec hst hc hp
  have hsession : (w'.session c.session).packetIdForPubcomp =
      (w.session c.session).packetIdForPubcomp ++ [a.packetId] := by
    rw [hw']
    show ((w.served e.action.channelId c (.pubrec a)).session c.session).packetIdForPubcomp = _
    rw [World.session_served, Function.update_self]
    rfl
  have hflight : w'.inFlight c.session = w.inFlight c.session := by
    rw [hw', World.write, inFlight_record, inFlight_served]
    refine if_neg fun hmem => hid ?_
    rw [(h c.session).sent]
    exact hmem.2
  obtain ⟨hnodup, hin, -⟩ := hsound c.session
  rw [hsession] at hnodup hin
  -- The id was in the list before, as the new one is in flight.
  have hbefore := hin a.packetId (List.mem_append_right _ (List.mem_singleton_self _))
  rw [hflight, ← (h c.session).received] at hbefore
  exact (List.nodup_append.1 hnodup).2.2 _ hbefore _ (List.mem_singleton_self _) rfl

/-- A PUBCOMP takes its id out of the list of a session that holds it once. -/
theorem not_mem_of_pubcomp (hst : (broker cfg).step w e = some w') (h : w.FlightInv)
    {c : MqttClient} {a : MqttPubcomp} (hc : w.param e.action.channelId = some c)
    (hp : e.packet = some (.pubcomp a)) :
    a.packetId ∉ (w'.session c.session).packetIdForPubcomp := by
  rw [step_pubcomp hst hc hp, World.session_served, Function.update_self]
  exact (h c.session).nodup.not_mem_erase

/-- In a run in which every PUBREC is about a message that waits for one, the ids
    waiting for a PUBCOMP are in flight, and a PUBCOMP takes its id out; a stray
    PUBREC ends that. -/
theorem releases_iff (h : (broker cfg).Run l w) (hok : ∀ x ∈ l, ¬x.1.StrayPubrec x.2) :
    (∀ s, w.ReleasesInFlight s) ∧
      ∀ e w', (broker cfg).step w e = some w' →
        ((∀ s, w'.ReleasesInFlight s) ↔ ¬w.StrayPubrec e) ∧
        ∀ c a, w.param e.action.channelId = some c → e.packet = some (.pubcomp a) →
          a.packetId ∉ (w'.session c.session).packetIdForPubcomp := by
  have hw := h.invariant (I := fun w => w.OutboundInv ∧ w.FlightInv)
    (P := fun w e => ¬w.StrayPubrec e) ⟨outbound_start, flight_start⟩
    (fun _ _ _ hw hc hst => ⟨outbound_step hst hw.1, flight_step hst hw.2 hw.1 hc⟩) hok
  refine ⟨hw.2.releasesInFlight, fun e w' hst => ⟨⟨fun hsound hstray => ?_, fun hc s => ?_⟩,
    fun c a hc hp => not_mem_of_pubcomp hst hw.2 hc hp⟩⟩
  · exact not_releasesInFlight_of_stray hst hw.2 hstray hsound
  · exact (flight_step hst hw.2 hw.1 hc).releasesInFlight s

/-- A message of QoS 2 is sent to a client that answers it with a PUBREC. -/
theorem releases_received : ∃ w, (broker mqttdCfg).Reachable w ∧
    (w.inFlight 1).received = [1] ∧ ∀ s, w.ReleasesInFlight s := by
  have hruns : runs (fun w e => !decide (w.StrayPubrec e))
      [.accept 1, .read 1 (connectBytes 0x02 [0x61] []), .read 1 (subscribeBytes [0x74] 0x02),
        .read 1 (publishBytes 0x04 [0x74] [0x00, 0x07] [0x01]),
        .read 1 (packetBytes 0x50 [0x00, 0x01])]
      (fun w => (w.inFlight 1).received = [1]) = true := by
    decide +kernel
  obtain ⟨l, w, hl, hok, hp⟩ := exists_run hruns
  refine ⟨w, hl.reachable, of_decide_eq_true hp, (releases_iff hl fun x hx => ?_).1⟩
  simpa using hok x hx

/-- A client that was sent nothing sends the same PUBREC twice. -/
theorem stray_pubrec_listed : ¬∀ w, (broker mqttdCfg).Reachable w → ∀ s, w.ReleasesInFlight s := by
  intro h
  have hruns : runs (fun _ _ => true)
      [.accept 1, .read 1 (connectBytes 0x02 [0x61] []), .read 1 (packetBytes 0x50 [0x00, 0x07]),
        .read 1 (packetBytes 0x50 [0x00, 0x07])]
      (fun w => decide ((w.session 1).packetIdForPubcomp = [0x07, 0x07])) = true := by
    decide +kernel
  obtain ⟨l, w, hl, -, hp⟩ := exists_run hruns
  have hnodup := (h w hl.reachable 1).nodup
  rw [of_decide_eq_true hp] at hnodup
  exact absurd hnodup (by decide)

end MqttBroker
