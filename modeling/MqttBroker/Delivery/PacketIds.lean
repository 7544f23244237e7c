import Mathlib.Data.FinEnum
import MqttBroker.Codec.RoundTrip
import MqttBroker.Delivery.Releases

/-!
# Free packet ids

`session::new_packet_id` looks for an id that is in none of three lists, until it
finds one. What is in the lists is told by the packets that went through the
session: the PUBLISHes without an answer, and the PUBRECs that no PUBCOMP made
up for (`World.openIds`). The search ends as long as these are fewer ids than
there are (`freeId_iff`), which nothing in the broker sees to: a client may send
PUBRECs as it likes, and leave messages without an answer.
-/

namespace MqttBroker

open Prog

/-! ## The PUBRECs of a session -/

/-- What an effect does to the PUBRECs of a session that no PUBCOMP made up for. -/
def Effect.unreleased (s : SessionRef) (ids : List UInt16) : Effect → List UInt16
  | .attached c sessionPresent => if c.session = s ∧ sessionPresent = false then [] else ids
  | .handled c (.pubrec a) => if c.session = s then ids ++ [a.packetId] else ids
  | .handled c (.pubcomp a) => if c.session = s then ids.erase a.packetId else ids
  | _ => ids

/-- The ids of the PUBRECs handled in a session and not made up for by a PUBCOMP. -/
def World.unreleased (w : World) (s : SessionRef) : List UInt16 :=
  w.log.foldl (fun ids e => e.unreleased s ids) []

/-- The ids that the packets exchanged in a session leave open: of the PUBLISHes
    of QoS 1 and 2 without an answer, and of the PUBRECs without a PUBCOMP. -/
def World.openIds (w : World) (s : SessionRef) : Finset UInt16 :=
  ((w.unanswered 1 s ++ w.unanswered 2 s).map MqttPublish.packetId ++ w.unreleased s).toFinset.erase 0

/-- Some id is in none of the lists of the session. -/
def Session.HasFreeId (t : Session) : Prop := ∃ id ≠ 0, t.inUse id = false

variable {cfg : Config} {w w' : World} {e : Event}

theorem unreleased_record (w : World) (e : Effect) (s : SessionRef) :
    (w.record e).unreleased s = e.unreleased s (w.unreleased s) := by
  rw [World.unreleased, World.record, List.foldl_append]
  rfl

/-- The ids waiting for a PUBCOMP are those of the history, in every session. -/
def World.ReleaseInv (w : World) : Prop :=
  ∀ s, (w.session s).packetIdForPubcomp = w.unreleased s

/-- Neither the list nor its history changes. -/
def Unreleasing : Frame World where
  rel w w' := (∀ s, w'.unreleased s = w.unreleased s) ∧
    ∀ s, (w'.session s).packetIdForPubcomp = (w.session s).packetIdForPubcomp
  refl _ := ⟨fun _ => rfl, fun _ => rfl⟩
  trans h₁ h₂ := ⟨fun s => (h₂.1 s).trans (h₁.1 s), fun s => (h₂.2 s).trans (h₁.2 s)⟩

theorem unreleasing_record (w : World) {e : Effect} (h : ∀ s ids, e.unreleased s ids = ids) :
    Unreleasing.rel w (w.record e) :=
  ⟨fun s => (unreleased_record w e s).trans (h s _), fun _ => rfl⟩

theorem unreleasing_modifySession (w : World) (s : SessionRef) {f : Session → Session}
    (h : (f (w.session s)).packetIdForPubcomp = (w.session s).packetIdForPubcomp) :
    Unreleasing.rel w (w.modifySession s f) := by
  refine ⟨fun _ => rfl, fun s' => ?_⟩
  rw [World.session_modifySession]
  split_ifs with hs
  · rw [h, hs]
  · rfl

theorem unreleasing_sessionFrame : SessionFrame Unreleasing where
  same hlog hsession :=
    ⟨fun s => by rw [World.unreleased, hlog, World.unreleased], fun s => by rw [hsession]⟩
  write w k _ _ := unreleasing_record w fun _ _ => rfl
  note w _ _ _ := unreleasing_record w fun _ _ => rfl
  noteWill w _ := unreleasing_record w fun _ _ => rfl
  counter s w _ := unreleasing_modifySession w s rfl
  publish client maxQos retained packet := by
    refine within_publish (fun w _ => unreleasing_modifySession w _ rfl) (fun w m => ?_)
      (fun w _ _ => unreleasing_record w fun _ _ => rfl) maxQos retained
    refine Unreleasing.trans (unreleasing_record w fun _ _ => rfl)
      (unreleasing_modifySession _ _ ?_)
    split_ifs <;> rfl
  subscriptions w s f hf := unreleasing_modifySession w s (by rw [hf])

theorem release_unreleasing (h : w.ReleaseInv) (hw : Unreleasing.rel w w') : w'.ReleaseInv := by
  intro s
  rw [hw.1, hw.2]
  exact h s

/-- A packet that is handled is entered in the history. -/
theorem unreleased_served (w : World) (k : ChannelId) (c : MqttClient) (p : Packet)
    (s : SessionRef) :
    (w.served k c p).unreleased s = (Effect.handled c p).unreleased s (w.unreleased s) := by
  rw [World.unreleased, World.foldl_log_served (fun _ _ _ _ => rfl)]
  cases p <;> rfl

/-- A PUBREC and a PUBCOMP are entered in the list as in its history. -/
theorem release_served (h : w.ReleaseInv) (k : ChannelId) (c : MqttClient) (p : Packet) :
    (w.served k c p).ReleaseInv := by
  intro s
  rw [unreleased_served, w.session_served, Function.update_apply]
  by_cases hs : s = c.session
  · subst hs
    rw [if_pos rfl]
    cases p with
    | publish m =>
      rw [Session.served]
      split_ifs <;> exact h c.session
    | pubrec a =>
      simp [Session.served, Session.addPacketIdForPubcomp, Session.releasePublishForRec,
        Effect.unreleased, h c.session]
    | pubcomp a =>
      simp [Session.served, Session.releasePacketIdForPubcomp, Effect.unreleased, h c.session]
    | _ => exact h c.session
  · rw [if_neg hs]
    cases p with
    | pubrec | pubcomp => exact (h s).trans (if_neg (Ne.symm hs)).symm
    | _ => exact h s

theorem release_joined (h : w.ReleaseInv) (j : Joining) (hk : (w.contexts j.channelId).isSome) :
    (w.joined cfg j).ReleaseInv := by
  obtain ⟨r, sessionPresent, v, -, -, hlog, -, hcases⟩ := joined_cases cfg w j hk
  have hunreleased : ∀ s, v.unreleased s =
      if r = s ∧ sessionPresent = false then [] else w.unreleased s := by
    intro s
    rw [World.unreleased, hlog, List.foldl_append]
    rfl
  rcases hcases with ⟨-, rfl, hsession, hw⟩ | ⟨-, rfl, hsession, hw⟩
  · rw [hw]
    refine release_unreleasing h (Unreleasing.trans ⟨fun s => ?_, fun s => by rw [hsession]⟩
      (Unreleasing.trans (unreleasing_sessionFrame.same (World.log_resubscribe _ _)
        (World.session_resubscribe _ _)) (rel_redeliver ?_ ?_ ?_ _)))
    · rw [hunreleased, if_neg (by simp)]
    · exact fun w => unreleasing_modifySession w _ rfl
    · exact fun w => unreleasing_modifySession w _ rfl
    · exact fun w p => unreleasing_record w fun _ _ => rfl
  · rw [hw]
    intro s
    rw [hunreleased, hsession, Function.update_apply]
    by_cases hs : s = r
    · rw [if_pos hs, if_pos ⟨hs.symm, rfl⟩]
      rfl
    · rw [if_neg hs, if_neg fun hc => hs hc.1.symm]
      exact h s

theorem release_step (hst : (broker cfg).step w e = some w') (h : w.ReleaseInv) :
    w'.ReleaseInv := by
  refine release_unreleasing ?_ (unreleasing_sessionFrame.step hst)
  rcases received_cases cfg w e with ⟨j, hj, hw⟩ | ⟨-, ⟨packet, -, hw⟩ | ⟨c, p, hp, hc, -, hw⟩ | hw⟩
  · rw [hw]
    exact release_joined h j (isSome_contexts_of_joining hst hj)
  · rw [hw]
    exact release_unreleasing h
      (unreleasing_sessionFrame.same (w.log_greet _ cfg _) (w.session_greet _ cfg _))
  · rw [hw]
    exact release_served h _ c p
  · rwa [hw]

/-! ## Free ids -/

/-- An id other than zero that is in use is an open one. -/
theorem inUse_iff_openIds (hout : w.OutboundInv) (hrel : w.ReleaseInv) (s : SessionRef)
    {id : UInt16} (h0 : id ≠ 0) : (w.session s).inUse id = true ↔ id ∈ w.openIds s := by
  have hunmark : ∀ {l l' : List MqttPublish}, l.map MqttPublish.unmark = l' →
      (id ∈ l'.map MqttPublish.packetId ↔ ∃ p ∈ l, p.packetId = id) := by
    rintro l _ rfl
    rw [List.map_map, List.mem_map]
    rfl
  rw [World.openIds, Finset.mem_erase, List.mem_toFinset, List.mem_append, List.map_append,
    List.mem_append, hunmark (hout s).ack, hunmark (hout s).received, ← hrel s, Session.inUse,
    Bool.or_eq_true, Bool.or_eq_true, List.any_eq_true, List.any_eq_true, List.contains_iff_mem]
  simp [h0]

/-- The number of ids other than zero. -/
theorem card_ids : (Finset.univ.erase (0 : UInt16)).card = 65535 := by
  rw [Finset.card_erase_of_mem (Finset.mem_univ _), Finset.card_univ, ← FinEnum.card_eq_fintypeCard,
    FinEnum.card_UInt16]
  rfl

/-- A set of ids other than zero leaves one out exactly when it has less than all
    of them. -/
theorem exists_notMem_iff_card_lt (s : Finset UInt16) (h0 : 0 ∉ s) :
    (∃ id ≠ 0, id ∉ s) ↔ s.card < 65535 := by
  have hsub : s ⊆ Finset.univ.erase 0 := fun id hid =>
    Finset.mem_erase.2 ⟨fun h => h0 (h ▸ hid), Finset.mem_univ _⟩
  rw [← card_ids]
  constructor
  · rintro ⟨id, hne, hid⟩
    refine Finset.card_lt_card ⟨hsub, fun hall => hid ?_⟩
    exact hall (Finset.mem_erase.2 ⟨hne, Finset.mem_univ _⟩)
  · intro hlt
    obtain ⟨id, hid, hnot⟩ := Finset.exists_mem_notMem_of_card_lt_card hlt
    exact ⟨id, (Finset.mem_erase.1 hid).1, hnot⟩

theorem hasFreeId_iff_newPacketId (t : Session) : t.HasFreeId ↔ t.newPacketId.isSome = true := by
  rw [← Option.ne_none_iff_isSome, ne_eq, Session.newPacketId_eq_none, Session.HasFreeId]
  simp

/-- In every reachable state, a session has a free id, and the search for one
    ends, exactly when the packets exchanged in it leave less than all ids open. -/
theorem freeId_iff (h : (broker cfg).Reachable w) (s : SessionRef) :
    ((w.session s).HasFreeId ↔ (w.openIds s).card < 65535) ∧
      ((w.session s).newPacketId.isSome = true ↔ (w.openIds s).card < 65535) := by
  obtain ⟨hout, hrel⟩ := h.invariant (I := fun w => w.OutboundInv ∧ w.ReleaseInv)
    ⟨outbound_start, fun _ => rfl⟩
    fun _ _ _ hw hst => ⟨outbound_step hst hw.1, release_step hst hw.2⟩
  have hfree : (w.session s).HasFreeId ↔ (w.openIds s).card < 65535 := by
    have hzero : 0 ∉ w.openIds s := Finset.notMem_erase 0 _
    rw [← exists_notMem_iff_card_lt _ hzero]
    refine exists_congr fun id => and_congr_right fun h0 => ?_
    rw [← inUse_iff_openIds hout hrel s h0, Bool.not_eq_true]
  exact ⟨hfree, (hasFreeId_iff_newPacketId _).symm.trans hfree⟩

/-- A session with one message without an answer has a free id. -/
theorem freeId_one_open : ∃ w, (broker mqttdCfg).Reachable w ∧ (w.openIds 1).card = 1 ∧
    (w.session 1).HasFreeId := by
  have hruns : runs (fun _ _ => true)
      [.accept 1, .read 1 (connectBytes 0x02 [0x61] []), .read 1 (subscribeBytes [0x74] 0x01),
        .read 1 (publishBytes 0x02 [0x74] [0x00, 0x07] [0x01])]
      (fun w => decide ((w.openIds 1).card = 1)) = true := by
    decide +kernel
  obtain ⟨l, w, hl, -, hp⟩ := exists_run hruns
  have hcard := of_decide_eq_true hp
  exact ⟨w, hl.reachable, hcard, (freeId_iff hl.reachable 1).1.2 (by omega)⟩

/-! ## A client that uses up the ids -/

/-- A short packet that is read back can come on any channel that is there. -/
theorem exists_event {p : Packet} (hp : p.ReadsBack) (hsize : p.header.remainingLength ≤ 2)
    {k : ChannelId} (hk : (w.contexts k).isSome = true) :
    ∃ e : Event, e.action.channelId = k ∧ e.packet = some p ∧ w.Admits e.action := by
  obtain ⟨bytes, header, -, -, -, hlen, hread⟩ := hp
  have hread := hread []
  rw [List.append_nil] at hread
  refine ⟨(Action.read k bytes).event, rfl, ?_, hk, ?_⟩
  · simp only [Event.packet, Action.event, hread]
  · exact Nat.lt_of_le_of_lt hlen (Nat.lt_of_le_of_lt (Nat.add_le_add_left hsize 8)
      (by decide : 8 + 2 < 2 ^ 64))

/-- From a client at the channel 1, a PUBREC with any id is handled. -/
theorem exists_step_pubrec (hw : (broker cfg).Reachable w) {c : MqttClient}
    (hc : w.param 1 = some c) (id : UInt16) : ∃ w', (broker cfg).Reachable w' ∧
      w'.param 1 = some c ∧ (w'.session c.session).packetIdForPubcomp =
        (w.session c.session).packetIdForPubcomp ++ [id] := by
  obtain ⟨e, he, hp, ha⟩ := exists_event (readsBack_idPacket .pubrec
    (show FixedHeader.Sound ⟨.pubrec, 0, 2⟩ by decide) (fun _ => rfl) (fun _ => rfl)
      (fun _ => rfl) id) (Nat.le_refl 2) (World.isSome_contexts_of_param hc)
  have hst : (broker cfg).step w e = some ((w.served 1 c (.pubrec (idPacket .pubrec 0 id))).write
      c.channelId (.pubrel (mqttPubrel id))) := by
    refine step_of_packetHandler ha hp ?_
    rw [he]
    exact agent_bind_apply hc _ _
  refine ⟨_, hw.step hst, ?_, ?_⟩
  · rw [← hc]
    exact congrFun (still_param (w := w) (by
      show (w.served 1 c _).contexts = w.contexts
      rw [served_eq])) 1
  · show ((w.served 1 c (.pubrec (idPacket .pubrec 0 id))).session c.session).packetIdForPubcomp = _
    rw [World.session_served, Function.update_self]
    rfl

/-- A client is connected, and then sends PUBRECs with one id after the other. -/
theorem exists_pubrecs (n : Nat) : ∃ w c, (broker mqttdCfg).Reachable w ∧ w.param 1 = some c ∧
    ∀ i, 0 < i → i ≤ n → UInt16.ofNat i ∈ (w.session c.session).packetIdForPubcomp := by
  induction n with
  | zero =>
    have hruns : runs (fun _ _ => true) [.accept 1, .read 1 (connectBytes 0x02 [0x61] [])]
        (fun w => (w.param 1).isSome) = true := by
      decide +kernel
    obtain ⟨l, w, hl, -, hp⟩ := exists_run hruns
    obtain ⟨c, hc⟩ := Option.isSome_iff_exists.1 hp
    exact ⟨w, c, hl.reachable, hc, fun i h0 hi => absurd hi (Nat.not_le.2 h0)⟩
  | succ n ih =>
    obtain ⟨w, c, hw, hc, hids⟩ := ih
    obtain ⟨w', hw', hc', hlist⟩ := exists_step_pubrec hw hc (UInt16.ofNat (n + 1))
    refine ⟨w', c, hw', hc', fun i h0 hi => ?_⟩
    rw [hlist, List.mem_append, List.mem_singleton]
    rcases Nat.lt_or_eq_of_le hi with hlt | rfl
    · exact .inl (hids i h0 (Nat.lt_succ_iff.1 hlt))
    · exact .inr rfl

/-- After the PUBRECs 1 to 65535, no id is free. -/
theorem pubrecs_use_up_ids : ¬∀ w, (broker mqttdCfg).Reachable w → ∀ s,
    (w.session s).HasFreeId := by
  intro h
  obtain ⟨w, c, hw, -, hids⟩ := exists_pubrecs 65535
  obtain ⟨id, h0, hfree⟩ := h w hw c.session
  have hpos : 0 < id.toNat := Nat.pos_of_ne_zero fun hz => h0 (UInt16.toNat_inj.1 hz)
  have hmem := hids id.toNat hpos (Nat.le_of_lt_succ id.toNat_lt)
  rw [UInt16.ofNat_toNat] at hmem
  rw [Session.inUse, Bool.or_eq_false_iff] at hfree
  exact absurd (List.contains_iff_mem.2 hmem) (Bool.eq_false_iff.1 hfree.2)

end MqttBroker
