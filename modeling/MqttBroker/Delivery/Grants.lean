import MqttBroker.Delivery.Granting
import MqttBroker.Directory.Leaving

/-!
# What was granted

The QoS that a client was granted for a filter is told by the SUBACKs: it is the
return code of the last one that grants the filter in the session of the client
(`World.lastGrant`). The broker keeps it in two places besides, in the session and
at the topic, and both agree with the SUBACKs (`grantInv_of_reachable`), also when
a session is resumed. `$sys/trash` does not: its subscribers are entered with
QoS 2, whatever they were granted.
-/

namespace MqttBroker

open Prog

/-- What SUBACKs granted: the SUBSCRIBE that waits for its answer, and by session and
    filter the return code that was granted last. -/
structure GrantLog where
  asked : Option (SessionRef × List SubscribeEntry)
  last : SessionRef → Bytes → Option Nat

/-- What an answer grants for a filter: the last return code for it that grants. -/
def grantedCode (entries : List SubscribeEntry) (returnCodes : List Nat) (f : Bytes) : Option Nat :=
  ((entries.zip returnCodes).filterMap fun x =>
    if x.1.topicFilter = f ∧ x.2 ≠ 0x80 then some x.2 else none).getLast?

/-- A SUBSCRIBE is answered by the next SUBACK. -/
def GrantLog.note (g : GrantLog) : Effect → GrantLog
  | .handled client (.subscribe p) => { g with asked := some (client.session, p.topicFilters) }
  | .write _ _ (.suback a) =>
    match g.asked with
    | none => g
    | some (s, entries) =>
      { asked := none
        last := fun s' f =>
          if s' = s then (grantedCode entries a.returnCodes f).or (g.last s' f) else g.last s' f }
  | _ => g

/-- What was granted so far. -/
def World.grantLog (w : World) : GrantLog := w.log.foldl GrantLog.note ⟨none, fun _ _ => none⟩

/-- The return code of the last SUBACK that granted the filter `f` in the session `s`. -/
def World.lastGrant (w : World) (s : SessionRef) (f : Bytes) : Option Nat := w.grantLog.last s f

variable {cfg : Config} {w v w' : World} {e : Event} {k : ChannelId} {c : MqttClient}
  {p : MqttSubscribe} {j : Joining}

/-! ## Where nothing is granted -/

theorem grantLog_record (w : World) (e : Effect) :
    (w.record e).grantLog = w.grantLog.note e := List.foldl_append

theorem grantLog_of_log (h : w'.log = w.log) : w'.grantLog = w.grantLog := by
  rw [World.grantLog, h, World.grantLog]

/-- Without a SUBSCRIBE, a SUBACK grants nothing. -/
theorem GrantLog.note_write {g : GrantLog} (h : g.asked = none) (k : ChannelId)
    (holder : Option MqttClient) (p : Packet) : g.note (.write k holder p) = g := by
  cases p with
  | suback a =>
    rw [note, h]
  | _ => rfl

theorem World.Makes.grantLog {ds : List Delivery} (h : w.Makes ds w') :
    w'.grantLog = w.grantLog := by
  obtain ⟨xs, -, hxs⟩ := h
  have hnote : ∀ (xs : List Delivered) (g : GrantLog),
      (xs.flatMap w.effects).foldl GrantLog.note g = g := by
    intro xs
    induction xs with
    | nil => exact fun _ => rfl
    | cons x xs ih => exact ih
  rw [World.grantLog, hxs.log, List.foldl_append, hnote, World.grantLog]

/-- The entries of the topics and of the sessions are among those there were. -/
structure World.Narrows (w w' : World) : Prop where
  grantLog : w'.grantLog = w.grantLog
  subscriber {p s} : s ∈ w'.subscribersAt p → s ∈ w.subscribersAt p
  subscription {r sub} : sub ∈ (w'.session r).subscriptions → sub ∈ (w.session r).subscriptions

/-- Deliveries leave the entries as they are. -/
theorem World.Makes.narrows {ds : List Delivery} (h : w.Makes ds w') : w.Narrows w' where
  grantLog := h.grantLog
  subscriber hs := h.subscribersAt ▸ hs
  subscription hs := by
    obtain ⟨xs, -, hxs⟩ := h
    rw [hxs.session] at hs
    exact hs

/-- Where no SUBSCRIBE waits for its answer, nothing is granted or entered. -/
def Narrowing : Frame World where
  rel w w' := w.grantLog.asked = none → w.Narrows w'
  refl _ _ := ⟨rfl, id, id⟩
  trans h₁ h₂ h := by
    have h₁ := h₁ h
    have h₂ := h₂ (h₁.grantLog ▸ h)
    exact ⟨h₂.grantLog.trans h₁.grantLog, fun hs => h₁.subscriber (h₂.subscriber hs),
      fun hs => h₁.subscription (h₂.subscription hs)⟩

/-- The tables stay as they are. -/
theorem narrowing_of_same (hgrants : w.grantLog.asked = none → w'.grantLog = w.grantLog)
    (hsubscribers : w'.subscribersAt = w.subscribersAt)
    (hsession : ∀ r, (w'.session r).subscriptions = (w.session r).subscriptions) :
    Narrowing.rel w w' := fun h =>
  ⟨hgrants h, fun hs => hsubscribers ▸ hs, fun hs => hsession _ ▸ hs⟩

theorem narrowing_modifySession (w : World) (r : SessionRef) {f : Session → Session}
    (hf : (f (w.session r)).subscriptions = (w.session r).subscriptions) :
    Narrowing.rel w (w.modifySession r f) := by
  refine narrowing_of_same (fun _ => rfl) (funext fun p => by cases p <;> rfl) fun r' => ?_
  rw [World.session_modifySession]
  split_ifs with hr
  · rw [hf, hr]
  · rfl

theorem narrowing_write (w : World) (k : ChannelId) (p : Packet) :
    Narrowing.rel w (w.write k p) :=
  narrowing_of_same (fun h => (grantLog_record w _).trans (GrantLog.note_write h _ _ _))
    (funext fun p => by cases p <;> rfl) fun _ => rfl

/-- An effect that is neither a SUBSCRIBE nor a SUBACK. -/
theorem narrowing_record (w : World) {e : Effect} (he : ∀ g : GrantLog, g.note e = g) :
    Narrowing.rel w (w.record e) :=
  narrowing_of_same (fun _ => (grantLog_record w e).trans (he _))
    (funext fun p => by cases p <;> rfl) fun _ => rfl

theorem narrowing_publishFrame : PublishFrame Narrowing where
  counter s w next := narrowing_modifySession w s rfl
  noteWill _ w := narrowing_record w fun _ => rfl
  publish client maxQos retained packet := by
    refine within_publish (fun w next => narrowing_modifySession w _ rfl) (fun w p => ?_)
      (fun w p _ => narrowing_write w _ _) maxQos retained
    refine Narrowing.trans (narrowing_record w (e := .addressed client p) fun _ => rfl)
      (narrowing_modifySession _ _ ?_)
    split_ifs <;> rfl
  store p m w := by
    refine narrowing_of_same (fun _ => grantLog_of_log ?_)
      (funext fun p' => w.subscribersAt_storeRetained p m p') fun r => ?_ <;>
      rw [World.storeRetained_eq]
  note retain _ _ w := rel_noteRetain (fun _ => narrowing_record w fun _ => rfl) retain

/-- A step without a SUBSCRIBE. -/
theorem narrowing_eventFrame (hp : ∀ p, e.packet ≠ some (.subscribe p)) :
    EventFrame Narrowing w e where
  channels {v v'} h _ _ := by
    refine narrowing_of_same (fun _ => grantLog_of_log ?_) ?_ fun r => ?_ <;> rw [h]
    exact funext fun p => by cases p <;> rfl
  answer _ _ _ := narrowing_write _ _ _
  refuse v _ _ := narrowing_write v _ _
  retained _ _ _ h := absurd h (hp _)
  forward _ _ _ := narrowing_publishFrame.forwardPublish _ _
  will {w' c} _ _ hrun := by
    have hrel := narrowing_publishFrame.publishWillMessage c w
    rwa [hrun] at hrel
  subscribe h _ := absurd h (hp _)
  subscribeTrash h := absurd h (hp _)
  unsubscribe {v c entry} _ _ := by
    refine fun _ => ⟨grantLog_of_log (v.unsubscribeEntry_log c entry),
      fun hs => (mem_subscribersAt_unsubscribeEntry.1 hs).1, fun {r sub} hsub => ?_⟩
    have hsession : (v.unsubscribe c entry.topicFilter entry.isWild).session = v.session := by
      rw [World.unsubscribe_eq]
    rw [World.unsubscribeEntry] at hsub
    split at hsub
    · exact hsub
    · rw [World.session_modifySession, hsession] at hsub
      split_ifs at hsub with hr
      · exact hr ▸ (Keyed.mem_erase.1 hsub).1
      · exact hsub
  leave {v c} _ := by
    have hsubscribers : (v.setParam e.action.channelId none).subscribersAt = v.subscribersAt :=
      funext fun p => by cases p <;> rfl
    refine fun _ => ⟨grantLog_of_log ?_, fun hs => ?_, fun {r sub} hsub => ?_⟩
    · rw [World.remove_eq]
      rfl
    · rw [← hsubscribers]
      exact (mem_subscribersAt_remove.1 hs).1
    · rw [World.remove_eq] at hsub
      exact hsub

theorem narrowing_close (w : World) (k : ChannelId) : Narrowing.rel w (w.close k) :=
  narrowing_of_same (fun _ => rfl) (funext fun p => by cases p <;> rfl) fun _ => rfl

theorem narrowing_greet (w : World) (k : ChannelId) (packet : MqttConnect) :
    Narrowing.rel w (w.greet cfg k packet) := by
  rw [World.greet]
  split_ifs <;>
    exact narrowing_of_same (fun _ => rfl) (funext fun p => by cases p <;> rfl) fun _ => rfl

/-- What another packet than a SUBSCRIBE begins with. -/
theorem narrowing_served (w : World) (k : ChannelId) (c : MqttClient) {p : Packet}
    (hp : ∀ q, p ≠ .subscribe q) : Narrowing.rel w (w.served k c p) := by
  have hhandled : Narrowing.rel w (w.record (.handled c p)) := by
    refine narrowing_record w fun g => ?_
    cases p with
    | subscribe q => exact absurd rfl (hp q)
    | _ => rfl
  have hsession : ∀ f : Session → Session, (∀ t, (f t).subscriptions = t.subscriptions) →
      Narrowing.rel w ((w.record (.handled c p)).modifySession c.session f) := fun f hf =>
    Narrowing.trans hhandled (narrowing_modifySession _ _ (hf _))
  cases p with
  | publish m =>
    refine Narrowing.trans hhandled ?_
    show Narrowing.rel _ (World.receivePublish _ _ _ _)
    rw [World.receivePublish]
    split_ifs
    · exact narrowing_write _ _ _
    · exact Narrowing.trans (narrowing_modifySession _ _ rfl) (narrowing_write _ _ _)
    · exact Narrowing.refl _
  | puback | pubrec | pubrel | pubcomp =>
    simp only [World.served]
    exact hsession _ fun _ => rfl
  | subscribe | unsubscribe | pingreq | disconnect => exact hhandled
  | connect | connack | suback | unsuback | pingresp => exact Narrowing.refl w

/-- A step without an accepted CONNECT and a SUBSCRIBE of a client grants nothing. -/
theorem narrows_step (h : w.grantLog.asked = none) (hst : (broker cfg).step w e = some w')
    (hj : w.joining cfg e = none)
    (hp : ∀ c p, w.param e.action.channelId = some c → e.packet ≠ some (.subscribe p)) :
    w.Narrows w' := by
  refine (?_ : Narrowing.rel w w') h
  by_cases hsub : ∃ p, e.packet = some (.subscribe p)
  · -- Nobody is there to subscribe, and the channel may be closed.
    obtain ⟨p, hpacket⟩ := hsub
    rw [eq_close_of_none hst hpacket (Option.eq_none_iff_forall_ne_some.2 fun c hc =>
      hp c p hc hpacket) fun _ => Packet.noConfusion]
    exact narrowing_close w _
  · refine Narrowing.trans ?_ ((narrowing_eventFrame fun p hp => hsub ⟨p, hp⟩).step hst hj)
    rcases received_cases cfg w e with ⟨j, hj', -⟩ | ⟨-, ⟨packet, -, hr⟩ | ⟨c, p, hpacket, -, -, hr⟩ | hr⟩
    · cases hj.symm.trans hj'
    · rw [hr]
      exact narrowing_greet w _ packet
    · rw [hr]
      exact narrowing_served w _ c fun q hq => hsub ⟨q, hq ▸ hpacket⟩
    · rw [hr]
      exact Narrowing.refl w

/-! ## SUBSCRIBE -/

/-- What a SUBACK grants is granted from then on. -/
theorem grantLog_granted (w : World) (k : ChannelId) (c : MqttClient) (p : MqttSubscribe) :
    (w.granted k c p).grantLog = ⟨none, fun s f =>
      if s = c.session then (grantedCode p.topicFilters (p.suback c).returnCodes f).or (w.lastGrant s f)
      else w.lastGrant s f⟩ := by
  have hentered : ((w.record (.handled c (.subscribe p))).entered c p.topicFilters).grantLog =
      { w.grantLog with asked := some (c.session, p.topicFilters) } := by
    rw [grantLog_of_log (w := w.record (.handled c (.subscribe p))) (by rw [entered_eq]),
      grantLog_record]
    rfl
  rw [World.granted, World.write, grantLog_record, hentered]
  rfl

theorem returnCodes_suback (p : MqttSubscribe) (c : MqttClient) :
    (p.suback c).returnCodes = p.topicFilters.map fun entry => entry.returnCode c :=
  (foldl_grant c p.topicFilters ⟨mqttSuback p.packetId, [], []⟩).2.1

/-- The return codes for a filter, among the entries. -/
theorem grantedCode_suback (p : MqttSubscribe) (c : MqttClient) (f : Bytes) :
    grantedCode p.topicFilters (p.suback c).returnCodes f = (p.topicFilters.filterMap fun entry =>
      if entry.topicFilter = f ∧ entry.returnCode c ≠ 0x80 then some (entry.returnCode c)
      else none).getLast? := by
  rw [grantedCode, returnCodes_suback, ← List.map_prod_left_eq_zip, List.filterMap_map]
  rfl

/-- What is granted for another filter than a `$`-topic is what is entered for it. -/
theorem grantedCode_eq_qosAt (hread : ∀ entry ∈ p.topicFilters, entry.Read) (c : MqttClient)
    {f : Bytes} (hf : f.head? ≠ some dollar) :
    grantedCode p.topicFilters (p.suback c).returnCodes f = (p.topicFilters.filterMap fun entry =>
      entry.qosAt c (.entry (isWildFilter f) f)).getLast? := by
  rw [grantedCode_suback]
  refine congrArg List.getLast? (List.filterMap_congr fun entry hentry => ?_)
  have htrash : ∀ b g, ¬(entry.grantsTrash c = true ∧ TopicPtr.entry b g = .trash) :=
    fun _ _ h => TopicPtr.noConfusion h.2
  by_cases hfe : entry.topicFilter = f
  · obtain ⟨-, hentry⟩ := hread entry hentry
    subst hfe
    split_ifs at hentry with hv
    · have hgranted : entry.granted = true := by simp [SubscribeEntry.granted, hentry.1, hf]
      have hcode : entry.returnCode c = entry.maxQos := by
        rw [SubscribeEntry.returnCode, hgranted, Bool.true_or, if_pos rfl]
      rw [hcode, if_pos ⟨rfl, by omega⟩, SubscribeEntry.qosAt,
        if_pos ⟨hgranted, by rw [hentry.2]⟩]
    · have hgranted : entry.granted = false := by simp [SubscribeEntry.granted, hentry.1]
      have hcode : entry.returnCode c = 0x80 := by
        rw [SubscribeEntry.returnCode, hentry.1, ite_self]
      rw [if_neg fun h => h.2 hcode, SubscribeEntry.qosAt, hgranted,
        if_neg fun h => Bool.false_ne_true h.1, if_neg (htrash _ _)]
  · rw [if_neg fun h => hfe h.1, SubscribeEntry.qosAt,
      if_neg fun h => hfe (TopicPtr.entry.inj h.2).2.symm, if_neg (htrash _ _)]

/-- An entry that enters the client at `$sys/trash` is granted. -/
theorem isSome_grantedCode_of_trash {entry : SubscribeEntry} (hentry : entry ∈ p.topicFilters)
    (h : entry.grantsTrash c = true) :
    (grantedCode p.topicFilters (p.suback c).returnCodes sysTrash).isSome := by
  have hcode : entry.returnCode c = entry.maxQos := by
    rw [SubscribeEntry.returnCode, h, Bool.or_true, if_pos rfl]
  simp only [SubscribeEntry.grantsTrash, Bool.and_eq_true, decide_eq_true_eq] at h
  have hmem : entry.maxQos ∈ p.topicFilters.filterMap fun entry =>
      if entry.topicFilter = sysTrash ∧ entry.returnCode c ≠ 0x80 then some (entry.returnCode c)
      else none :=
    List.mem_filterMap.2 ⟨entry, hentry, by rw [hcode, if_pos ⟨h.2, by omega⟩]⟩
  rw [grantedCode_suback]
  exact List.getLast?_isSome.2 (List.ne_nil_of_mem hmem)

/-- The subscription that is entered for a filter. -/
def SubscribeEntry.subscriptionFor (entry : SubscribeEntry) (f : Bytes) : Option Subscription :=
  if entry.granted ∧ entry.topicFilter = f then some ⟨entry.topicFilter, entry.maxQos, entry.isWild⟩
  else none

/-- The subscription of a session for a filter is the one of the last entry for it. -/
theorem find_enterSubscriptions (subscriptions : Keyed Subscription.topicFilter)
    (entries : List SubscribeEntry) (f : Bytes) : (enterSubscriptions subscriptions entries).find f =
      ((entries.filterMap fun entry => entry.subscriptionFor f).getLast?).or
        (subscriptions.find f) := by
  induction entries using List.reverseRecOn with
  | nil => rfl
  | append_singleton entries entry ih =>
    rw [enterSubscriptions] at ih
    rw [enterSubscriptions, List.filter_append, List.foldl_append, List.filterMap_append]
    by_cases hgranted : entry.granted = true
    · rw [List.filter_cons_of_pos hgranted, List.filter_nil, List.foldl_cons, List.foldl_nil,
        Keyed.find_put, ih]
      by_cases hf : entry.topicFilter = f
      · simp [SubscribeEntry.subscriptionFor, hgranted, hf]
      · simp [SubscribeEntry.subscriptionFor, hf, Ne.symm hf]
    · rw [List.filter_cons_of_neg hgranted, List.filter_nil, List.foldl_nil, ih]
      simp [SubscribeEntry.subscriptionFor, hgranted]

/-- What is entered for a filter has the QoS that is entered at its topic. -/
theorem map_subscriptionFor {entry : SubscribeEntry} (hread : entry.Read) (c : MqttClient)
    (f : Bytes) : (entry.subscriptionFor f).map Subscription.maxQos =
      entry.qosAt c (.entry (isWildFilter f) f) := by
  rw [SubscribeEntry.subscriptionFor, SubscribeEntry.qosAt]
  by_cases h : entry.granted = true ∧ entry.topicFilter = f
  · obtain ⟨hgranted, rfl⟩ := h
    obtain ⟨-, hwild⟩ := hread.decoded.2 (by simp_all [SubscribeEntry.granted])
    rw [if_pos ⟨hgranted, rfl⟩, if_pos ⟨hgranted, by rw [hwild]⟩]
    rfl
  · rw [if_neg h, if_neg fun hp => h ⟨hp.1, (TopicPtr.entry.inj hp.2).2.symm⟩,
      if_neg fun hp => TopicPtr.noConfusion hp.2]
    rfl

theorem getLast?_subscriptionFor (hread : ∀ entry ∈ p.topicFilters, entry.Read) (c : MqttClient)
    (f : Bytes) : ((p.topicFilters.filterMap fun entry => entry.subscriptionFor f).getLast?).map
      Subscription.maxQos = (p.topicFilters.filterMap fun entry =>
        entry.qosAt c (.entry (isWildFilter f) f)).getLast? := by
  rw [← List.getLast?_map, List.map_filterMap]
  exact congrArg List.getLast? (List.filterMap_congr fun entry hentry =>
    map_subscriptionFor (hread entry hentry) c f)

/-- No entry is for a `$`-topic, and each is for the table its filter tells. -/
theorem wild_of_qosAt {entry : SubscribeEntry} (hread : entry.Read) {b : Bool} {f : Bytes} {q : Nat}
    (h : entry.qosAt c (.entry b f) = some q) : b = isWildFilter f ∧ f.head? ≠ some dollar := by
  rw [SubscribeEntry.qosAt, if_neg fun hp : _ ∧ TopicPtr.entry b f = .trash =>
    TopicPtr.noConfusion hp.2] at h
  split_ifs at h with hp
  obtain ⟨hgranted, heq⟩ := hp
  obtain ⟨rfl, rfl⟩ := TopicPtr.entry.inj heq
  simp only [SubscribeEntry.granted, Bool.and_eq_true, decide_eq_true_eq] at hgranted
  exact ⟨(hread.decoded.2 hgranted.1).2, hgranted.2⟩

theorem wild_of_subscriptionFor {entry : SubscribeEntry} (hread : entry.Read) {f : Bytes}
    {sub : Subscription} (h : entry.subscriptionFor f = some sub) :
    sub.isWild = isWildFilter sub.topicFilter ∧ sub.topicFilter.head? ≠ some dollar := by
  rw [SubscribeEntry.subscriptionFor] at h
  split_ifs at h with hp
  cases h
  obtain ⟨hgranted, -⟩ := hp
  simp only [SubscribeEntry.granted, Bool.and_eq_true, decide_eq_true_eq] at hgranted
  exact ⟨(hread.decoded.2 hgranted.1).2, hgranted.2⟩

/-! ## The invariant -/

/-- What is entered for a filter at its topic and in a session was granted last.
    `$sys/trash` is entered with QoS 2, whatever was granted. -/
structure World.GrantInv (w : World) : Prop where
  idle : w.grantLog.asked = none
  subscriber {b f s} : s ∈ w.subscribersAt (.entry b f) → b = isWildFilter f ∧
    f.head? ≠ some dollar ∧ w.lastGrant s.client.session f = some s.maxQos
  subscription {r sub} : sub ∈ (w.session r).subscriptions →
    sub.isWild = isWildFilter sub.topicFilter ∧ sub.topicFilter.head? ≠ some dollar ∧
      w.lastGrant r sub.topicFilter = some sub.maxQos
  trash {s} : s ∈ w.subscribersAt .trash →
    s.maxQos = 2 ∧ (w.lastGrant s.client.session sysTrash).isSome

theorem World.Narrows.grantInv (hw : w.Narrows w') (h : w.GrantInv) : w'.GrantInv where
  idle := hw.grantLog ▸ h.idle
  subscriber hs := by
    rw [World.lastGrant, hw.grantLog]
    exact h.subscriber (hw.subscriber hs)
  subscription hs := by
    rw [World.lastGrant, hw.grantLog]
    exact h.subscription (hw.subscription hs)
  trash hs := by
    rw [World.lastGrant, hw.grantLog]
    exact h.trash (hw.subscriber hs)

theorem mem_subscribersAt_iff {p : TopicPtr} {s : Subscriber} :
    s ∈ w.subscribersAt p ↔ w.subscriberAt p s.client.clientId = some s := by
  rw [subscriberAt_eq, World.subscribersAt]
  cases w.topicAt p with
  | none => simp
  | some t => exact (Keyed.find_eq_some.trans (and_iff_left rfl)).symm

theorem lastGrant_granted (w : World) (k : ChannelId) (c : MqttClient) (p : MqttSubscribe)
    (r : SessionRef) (f : Bytes) : (w.granted k c p).lastGrant r f = if r = c.session then
      (grantedCode p.topicFilters (p.suback c).returnCodes f).or (w.lastGrant r f)
      else w.lastGrant r f := by
  rw [World.lastGrant, grantLog_granted]

/-- Where a SUBACK is written for a SUBSCRIBE, it tells what is entered at the topics. -/
theorem subscriber_granted (h : w.GrantInv) (ha : w.directory.Apart) (hc : w.param k = some c)
    (hread : ∀ entry ∈ p.topicFilters, entry.Read) {b : Bool} {f : Bytes} {s : Subscriber}
    (hs : s ∈ (w.granted k c p).subscribersAt (.entry b f)) :
    b = isWildFilter f ∧ f.head? ≠ some dollar ∧
      (w.granted k c p).lastGrant s.client.session f = some s.maxQos := by
  rw [mem_subscribersAt_iff, subscriberAt_granted] at hs
  rw [lastGrant_granted]
  split_ifs at hs with hid
  · cases hq : (p.topicFilters.filterMap fun entry => entry.qosAt c (.entry b f)).getLast? with
    | some q =>
      rw [hq] at hs
      cases hs
      obtain ⟨entry, hentry, hqos⟩ := List.mem_filterMap.1 (List.mem_of_getLast? hq)
      obtain ⟨rfl, hf⟩ := wild_of_qosAt (hread entry hentry) hqos
      refine ⟨rfl, hf, ?_⟩
      rw [if_pos rfl, grantedCode_eq_qosAt hread c hf, hq]
      rfl
    | none =>
      -- The filter is not entered, so the SUBACK does not grant it.
      rw [hq] at hs
      obtain ⟨rfl, hf, hgrant⟩ := h.subscriber (mem_subscribersAt_iff.2 hs)
      refine ⟨rfl, hf, ?_⟩
      rw [grantedCode_eq_qosAt hread c hf, hq, Option.none_or, ite_self]
      exact hgrant
  · -- The session of another client is another one.
    have hmem := mem_subscribersAt_iff.2 hs
    obtain ⟨hb, hf, hgrant⟩ := h.subscriber hmem
    refine ⟨hb, hf, ?_⟩
    rw [if_neg fun hsession => hid (ha.holder (k := k) hc (subscriber_of_mem hmem) hsession)]
    exact hgrant

/-- It tells what is entered in the session. -/
theorem subscription_granted (h : w.GrantInv) (hread : ∀ entry ∈ p.topicFilters, entry.Read)
    {r : SessionRef} {sub : Subscription}
    (hsub : sub ∈ ((w.granted k c p).session r).subscriptions) :
    sub.isWild = isWildFilter sub.topicFilter ∧ sub.topicFilter.head? ≠ some dollar ∧
      (w.granted k c p).lastGrant r sub.topicFilter = some sub.maxQos := by
  rw [session_granted] at hsub
  rw [lastGrant_granted]
  split_ifs at hsub ⊢ with hr
  · have hfind := Keyed.find_eq_some.2 ⟨hsub, rfl⟩
    have hqos := getLast?_subscriptionFor hread c sub.topicFilter
    rw [find_enterSubscriptions] at hfind
    cases hs : (p.topicFilters.filterMap fun entry =>
        entry.subscriptionFor sub.topicFilter).getLast? with
    | some sub' =>
      rw [hs] at hfind hqos
      obtain rfl : sub' = sub := Option.some.inj hfind
      obtain ⟨entry, hentry, hfor⟩ := List.mem_filterMap.1 (List.mem_of_getLast? hs)
      obtain ⟨hwild, hf⟩ := wild_of_subscriptionFor (hread entry hentry) hfor
      refine ⟨hwild, hf, ?_⟩
      rw [grantedCode_eq_qosAt hread c hf, ← hqos]
      rfl
    | none =>
      -- It was in the session before, and no entry is for it.
      rw [hs] at hfind hqos
      obtain ⟨hb, hf, hgrant⟩ := h.subscription (Keyed.mem_of_find hfind).1
      refine ⟨hb, hf, ?_⟩
      rw [grantedCode_eq_qosAt hread c hf, ← hqos]
      exact hgrant
  · exact h.subscription hsub

/-- A SUBACK only adds to what is granted. -/
theorem isSome_lastGrant_granted (k : ChannelId) (c : MqttClient) (p : MqttSubscribe)
    {r : SessionRef} {f : Bytes} (h : (w.lastGrant r f).isSome) :
    ((w.granted k c p).lastGrant r f).isSome := by
  rw [lastGrant_granted]
  split_ifs
  · rw [Option.isSome_or, h, Bool.or_true]
  · exact h

/-- Whoever is entered at `$sys/trash` is granted it. -/
theorem trash_granted (h : w.GrantInv) {s : Subscriber}
    (hs : s ∈ (w.granted k c p).subscribersAt .trash) :
    s.maxQos = 2 ∧ ((w.granted k c p).lastGrant s.client.session sysTrash).isSome := by
  have hold : w.subscriberAt .trash s.client.clientId = some s → s.maxQos = 2 ∧
      ((w.granted k c p).lastGrant s.client.session sysTrash).isSome := by
    intro hs
    obtain ⟨hqos, hgrant⟩ := h.trash (mem_subscribersAt_iff.2 hs)
    exact ⟨hqos, isSome_lastGrant_granted k c p hgrant⟩
  rw [mem_subscribersAt_iff, subscriberAt_granted] at hs
  split_ifs at hs with hid
  · cases hq : (p.topicFilters.filterMap fun entry => entry.qosAt c .trash).getLast? with
    | some q =>
      rw [hq] at hs
      cases hs
      obtain ⟨entry, hentry, hqos⟩ := List.mem_filterMap.1 (List.mem_of_getLast? hq)
      rw [SubscribeEntry.qosAt, if_neg fun hp => TopicPtr.noConfusion hp.2] at hqos
      split_ifs at hqos with htrash
      refine ⟨(Option.some.inj hqos).symm, ?_⟩
      rw [lastGrant_granted, if_pos rfl, Option.isSome_or,
        isSome_grantedCode_of_trash hentry htrash.1, Bool.true_or]
    | none =>
      rw [hq] at hs
      exact hold hs
  · exact hold hs

/-- What is entered for a SUBSCRIBE of the client at a channel was granted last. -/
theorem grantInv_granted (h : w.GrantInv) (ha : w.directory.Apart)
    (hc : w.param k = some c) (hread : ∀ entry ∈ p.topicFilters, entry.Read) :
    (w.granted k c p).GrantInv where
  idle := by rw [grantLog_granted]
  subscriber hs := subscriber_granted h ha hc hread hs
  subscription hsub := subscription_granted h hread hsub
  trash hs := trash_granted h hs

/-- A subscription that was granted may be entered again. -/
theorem grantInv_subscribe (h : w.GrantInv) {sub : Subscription}
    (hwild : sub.isWild = isWildFilter sub.topicFilter) (hf : sub.topicFilter.head? ≠ some dollar)
    (hgrant : w.lastGrant c.session sub.topicFilter = some sub.maxQos) :
    (w.subscribe c sub.topicFilter sub.maxQos sub.isWild).GrantInv := by
  have heq := w.subscribe_eq c sub.topicFilter sub.maxQos sub.isWild
  have hlog : (w.subscribe c sub.topicFilter sub.maxQos sub.isWild).grantLog = w.grantLog :=
    grantLog_of_log (by rw [heq])
  refine ⟨hlog ▸ h.idle, fun {b f s} hs => ?_, fun {r sub'} hsub => ?_, fun {s} hs => ?_⟩
  · rw [World.lastGrant, hlog]
    rw [mem_subscribersAt_iff, subscriberAt_subscribe] at hs
    split_ifs at hs with hp
    · cases hs
      obtain ⟨rfl, rfl⟩ := TopicPtr.entry.inj hp.1
      exact ⟨hwild, hf, hgrant⟩
    · exact h.subscriber (mem_subscribersAt_iff.2 hs)
  · rw [World.lastGrant, hlog]
    rw [heq] at hsub
    exact h.subscription hsub
  · rw [World.lastGrant, hlog]
    rw [mem_subscribersAt_iff, subscriberAt_subscribe, if_neg fun hp => TopicPtr.noConfusion hp.1,
      ← mem_subscribersAt_iff] at hs
    exact h.trash hs

/-- A session that is resumed was granted what is entered again. -/
theorem grantInv_joined (cfg : Config) (h : w.GrantInv) (j : Joining)
    (hk : (w.contexts j.channelId).isSome) :
    (w.joined cfg j).GrantInv ∧ (w.joined cfg j).grantLog = w.grantLog := by
  obtain ⟨r, sessionPresent, v, -, -, hlog, ⟨htopics, htrash⟩, hcases⟩ := joined_cases cfg w j hk
  have hgrants : v.grantLog = w.grantLog := by
    rw [World.grantLog, hlog, List.foldl_append]
    rfl
  have hsubscribers := w.subscribersAt_of_topics htopics htrash
  rcases hcases with ⟨-, -, hsession, hw⟩ | ⟨-, -, hsession, hw⟩
  · have hv : v.GrantInv := (World.Narrows.grantInv ⟨hgrants, fun hs => hsubscribers ▸ hs,
      fun hs => hsession ▸ hs⟩ h)
    have hresub := rel_resubscribe (c := (j.client w).setSessionPtr r) (w := v)
      (F := Frame.keeping fun u => u.GrantInv ∧ u.grantLog = v.grantLog) fun sub hsub u hu => ?_
    · obtain ⟨hu, hlogu⟩ := hresub ⟨hv, rfl⟩
      have hredeliver := rel_redeliver (F := Narrowing) (c := (j.client w).setSessionPtr r)
        (fun u => narrowing_modifySession u _ rfl) (fun u => narrowing_modifySession u _ rfl)
        (fun u p => narrowing_write u _ p) _ hu.idle
      rw [hw]
      exact ⟨hredeliver.grantInv hu, hredeliver.grantLog.trans (hlogu.trans hgrants)⟩
    · obtain ⟨hwild, hf, hgrant⟩ := hv.subscription hsub
      refine ⟨grantInv_subscribe hu.1 hwild hf ?_, ?_⟩
      · rw [World.lastGrant, hu.2]
        exact hgrant
      · rw [← hu.2]
        exact grantLog_of_log (by rw [World.subscribe_eq])
  · rw [hw]
    refine ⟨World.Narrows.grantInv ⟨hgrants, fun hs => hsubscribers ▸ hs, fun {s sub} hsub => ?_⟩ h,
      hgrants⟩
    rw [hsession, Function.update_apply] at hsub
    split_ifs at hsub
    · exact absurd hsub (Keyed.not_mem_empty sub)
    · exact hsub

/-! ## Runs -/

theorem grantInv_start : World.start.GrantInv :=
  ⟨rfl, fun hs => absurd hs List.not_mem_nil, fun hs => absurd hs (Keyed.not_mem_empty _),
    fun hs => absurd hs List.not_mem_nil⟩

/-- The state after a SUBSCRIBE of a client. -/
theorem step_subscribe (h : (broker cfg).Reachable w) (hst : (broker cfg).step w e = some w')
    (hc : w.param e.action.channelId = some c) (hp : e.packet = some (.subscribe p)) :
    (w.granted e.action.channelId c p).Makes
      (w.subscribeDeliveries e.iteration e.action.channelId c p) w' := by
  have hsettles := settles_handleSubscribe (retainedInv_of_reachable h) hc e.iteration p
  exact returns_step hst hp (hsettles.returns.mono fun _ _ h => h.2)

theorem grantInv_step (hw : (broker cfg).Reachable w) (h : w.GrantInv)
    (hst : (broker cfg).step w e = some w') : w'.GrantInv := by
  cases hj : w.joining cfg e with
  | some j =>
    obtain ⟨hk, hrel⟩ := rel_step_joining (F := Narrowing) (fun v => narrowing_close v _)
      (fun it => narrowing_publishFrame.publishRetainedMessage it _) hst hj
    obtain ⟨hjoined, -⟩ := grantInv_joined cfg h j hk
    exact (hrel hjoined.idle).grantInv hjoined
  | none =>
    by_cases hsub : ∃ c p, w.param e.action.channelId = some c ∧ e.packet = some (.subscribe p)
    · obtain ⟨c, p, hc, hp⟩ := hsub
      exact (step_subscribe hw hst hc hp).narrows.grantInv
        (grantInv_granted h (apart_of_reachable hw) hc (read_of_packet hp))
    · exact (narrows_step h.idle hst hj fun c p hc hp => hsub ⟨c, p, hc, hp⟩).grantInv h

theorem grantInv_of_reachable (h : (broker cfg).Reachable w) : w.GrantInv :=
  h.induct grantInv_start fun _ _ _ hw hinv hst => grantInv_step hw hinv hst

end MqttBroker
