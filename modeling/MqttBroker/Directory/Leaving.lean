import MqttBroker.Directory.Owners

/-!
# Leaving

A client that leaves is taken out of every topic of the tables, and one that
unsubscribes out of the topics it names; but nobody is ever taken out of
`$sys/trash`. So a client is left behind exactly when it subscribed to
`$sys/trash` (`severed_iff`).
-/

namespace MqttBroker

/-! ## What is claimed -/

/-- The topic at a place has the client itself as a subscriber. -/
def World.Has (w : World) (p : TopicPtr) (c : MqttClient) : Prop :=
  ∃ s ∈ w.subscribersAt p, s.client = c

/-- The event makes the client at its channel leave: it brings a DISCONNECT, or
    the channel is lost. -/
def World.Leaves (w : World) (e : Event) (c : MqttClient) : Prop :=
  w.param e.action.channelId = some c ∧
    ((∃ p, e.packet = some (.disconnect p)) ∨ e.action = .disconnected e.action.channelId)

/-- The place is under a topic filter. -/
def TopicPtr.Under : TopicPtr → Bytes → Prop
  | .trash, f => f = sysTrash
  | .entry _ g, f => f = g

/-- The client is in no topic under the filters `fs` any more, and nothing else
    becomes of the subscriptions. -/
structure World.Unsubscribed (w w' : World) (c : MqttClient) (fs : List Bytes) : Prop where
  gone {p f} : f ∈ fs → p.Under f → ¬w'.Has p c
  others {p s} : s.client.clientId ≠ c.clientId ∨ (∀ f ∈ fs, ¬p.Under f) →
    (s ∈ w'.subscribersAt p ↔ s ∈ w.subscribersAt p)
  sessions {r sub} : r ≠ c.session ∨ sub.topicFilter ∉ fs →
    (sub ∈ (w'.session r).subscriptions ↔ sub ∈ (w.session r).subscriptions)

variable {cfg : Config} {w u w' : World} {e : Event} {c : MqttClient} {k : ChannelId}

/-! ## Giving up the listed subscriptions -/

/-- A subscriber of a topic of the tables is in the directory. -/
theorem subscriber_of_mem {b : Bool} {f : Bytes} {s : Subscriber}
    (hs : s ∈ w.subscribersAt (.entry b f)) :
    w.directory.subscriber b f s.client.clientId = some (s.client, s.maxQos) := by
  rw [World.subscribersAt] at hs
  cases ht : w.topicAt (.entry b f) with
  | none =>
    rw [ht] at hs
    exact absurd hs List.not_mem_nil
  | some t =>
    rw [ht] at hs
    have hfind : t.find s.client.clientId = some s := Keyed.find_eq_some.2 ⟨hs, rfl⟩
    simp only [World.directory, ht, Option.bind_some, hfind, Option.map_some]

/-- A client at a channel is in a topic of the tables only as far as its session
    lists it. -/
theorem listed_of_has (ho : w.directory.Owned isWildFilter) (hc : w.param k = some c) {b : Bool}
    {f : Bytes} (h : w.Has (.entry b f) c) : b = isWildFilter f ∧
      ∃ sub ∈ (w.session c.session).subscriptions.elems, sub.topicFilter = f ∧ sub.isWild = b := by
  obtain ⟨s, hs, rfl⟩ := h
  have hentry := subscriber_of_mem hs
  exact ⟨ho.eq_wildOf (k := k) hc hentry, (w.listed_iff _ f b).2 (ho.listed (k := k) hc hentry)⟩

/-- The subscribers that stay when a client is removed. -/
theorem mem_subscribersAt_remove {p : TopicPtr} {s : Subscriber} :
    s ∈ (w.remove c).subscribersAt p ↔ s ∈ w.subscribersAt p ∧
      ¬∃ sub ∈ (w.session c.session).subscriptions.elems,
        p = .entry sub.isWild sub.topicFilter ∧ s.client.clientId = c.clientId := by
  have hall : (w.remove c).subscribersAt p = (w.unsubscribeAll c).subscribersAt p := by
    rw [World.remove]
    split_ifs <;> cases p <;> rfl
  rw [hall, World.unsubscribeAll]
  clear hall
  generalize (w.session c.session).subscriptions.elems = subs
  induction subs generalizing w with
  | nil => simp
  | cons sub subs ih =>
    rw [List.foldl_cons]
    refine ih.trans ?_
    rw [World.mem_subscribersAt_unsubscribe]
    simp only [List.exists_mem_cons_iff, not_or, and_assoc]

/-- A client at a channel that is removed stays in `$sys/trash` only. -/
theorem has_remove_iff (ho : w.directory.Owned isWildFilter) (hc : w.param k = some c)
    (hsubscribers : u.subscribersAt = w.subscribersAt)
    (hsubscription : u.directory.subscription = w.directory.subscription) {p : TopicPtr} :
    (u.remove c).Has p c ↔ p = .trash ∧ w.Has .trash c := by
  constructor
  · rintro ⟨s, hs, rfl⟩
    obtain ⟨hs, hnot⟩ := mem_subscribersAt_remove.1 hs
    rw [hsubscribers] at hs
    cases p with
    | trash => exact ⟨rfl, s, hs, rfl⟩
    | entry b f =>
      -- What the session lists is given up.
      have hlisted := (listed_of_has ho hc ⟨s, hs, rfl⟩).2
      rw [World.listed_iff, ← hsubscription, ← World.listed_iff] at hlisted
      obtain ⟨sub, hsub, rfl, rfl⟩ := hlisted
      exact absurd ⟨sub, hsub, rfl, rfl⟩ hnot
  · rintro ⟨rfl, s, hs, rfl⟩
    rw [← hsubscribers] at hs
    exact ⟨s, mem_subscribersAt_remove.2 ⟨hs, fun ⟨_, _, h, _⟩ => TopicPtr.noConfusion h⟩, rfl⟩

/-- A client that leaves stays in `$sys/trash` only. -/
theorem has_step_iff (h : (broker cfg).Reachable w) (hst : (broker cfg).step w e = some w')
    (hleave : w.Leaves e c) {p : TopicPtr} : w'.Has p c ↔ p = .trash ∧ w.Has .trash c := by
  have ho := owned_of_reachable h
  obtain ⟨hc, ⟨packet, hp⟩ | he⟩ := hleave
  · have heq : w' = ((w.record (.handled c (.disconnect packet))).setParam e.action.channelId
        none).remove c := eq_of_packetHandler hst hp (agent_bind_apply hc _ _)
    have hkept : ((w.record (.handled c (.disconnect packet))).setParam e.action.channelId
        none).subscribersAt = w.subscribersAt := funext fun p => by cases p <;> rfl
    rw [heq]
    exact has_remove_iff ho hc hkept rfl
  · obtain ⟨u, hwill, rfl⟩ := step_disconnected hst he hc
    have hquiet := quiet_publishFrame.publishWillMessage c w
    have hkept := subscribersKept_publishFrame.publishWillMessage c w
    rw [hwill] at hquiet hkept
    refine Iff.trans ?_ (has_remove_iff ho hc hkept (congrArg Directory.subscription hquiet.1))
    cases p <;> exact Iff.rfl

/-! ## UNSUBSCRIBE -/

theorem mem_subscribersAt_unsubscribeEntry {entry : UnsubscribeEntry} {p : TopicPtr}
    {s : Subscriber} : s ∈ (w.unsubscribeEntry c entry).subscribersAt p ↔ s ∈ w.subscribersAt p ∧
      ¬(p = .entry entry.isWild entry.topicFilter ∧ s.client.clientId = c.clientId) := by
  have hsession : ∀ (v : World) f, (v.modifySession c.session f).subscribersAt p =
      v.subscribersAt p := fun _ _ => by cases p <;> rfl
  rw [World.unsubscribeEntry]
  cases ht : w.topicAt (.entry entry.isWild entry.topicFilter) with
  | none =>
    refine (and_iff_left_of_imp fun hs => ?_).symm
    rintro ⟨rfl, -⟩
    rw [World.subscribersAt, ht] at hs
    exact List.not_mem_nil hs
  | some t =>
    rw [hsession]
    exact World.mem_subscribersAt_unsubscribe w c

theorem mem_subscriptions_unsubscribeEntry {entry : UnsubscribeEntry} {r : SessionRef}
    {sub : Subscription} (h : r ≠ c.session ∨ sub.topicFilter ≠ entry.topicFilter) :
    sub ∈ ((w.unsubscribeEntry c entry).session r).subscriptions ↔
      sub ∈ (w.session r).subscriptions := by
  have hsession : (w.unsubscribe c entry.topicFilter entry.isWild).session = w.session := by
    rw [World.unsubscribe_eq]
  rw [World.unsubscribeEntry]
  split
  · exact Iff.rfl
  · rw [World.session_modifySession, hsession]
    split_ifs with hr
    · refine Keyed.mem_erase.trans ?_
      rw [hr]
      exact and_iff_left (h.resolve_left (not_not.2 hr))
    · exact Iff.rfl

/-- The subscribers that stay, and the subscriptions that are not touched, when a
    client unsubscribes from a list of filters. -/
theorem foldl_unsubscribeEntry (entries : List UnsubscribeEntry) (w : World) (c : MqttClient) :
    (∀ p s, s ∈ (entries.foldl (fun w entry => w.unsubscribeEntry c entry) w).subscribersAt p ↔
      s ∈ w.subscribersAt p ∧ ∀ entry ∈ entries,
        ¬(p = .entry entry.isWild entry.topicFilter ∧ s.client.clientId = c.clientId)) ∧
    ∀ r sub, (r ≠ c.session ∨ ∀ entry ∈ entries, sub.topicFilter ≠ entry.topicFilter) →
      (sub ∈ ((entries.foldl (fun w entry => w.unsubscribeEntry c entry) w).session
        r).subscriptions ↔ sub ∈ (w.session r).subscriptions) := by
  induction entries generalizing w with
  | nil => simp
  | cons entry entries ih =>
    obtain ⟨hsubscribers, hsubscriptions⟩ := ih (w.unsubscribeEntry c entry)
    refine ⟨fun p s => ?_, fun r sub h => ?_⟩
    · rw [List.foldl_cons, hsubscribers, mem_subscribersAt_unsubscribeEntry, List.forall_mem_cons,
        and_assoc]
    · rw [List.foldl_cons, hsubscriptions r sub (h.imp_right fun h entry' he =>
        h entry' (List.mem_cons_of_mem _ he))]
      exact mem_subscriptions_unsubscribeEntry (h.imp_right fun h => h entry List.mem_cons_self)

/-- What a client unsubscribes from it loses, but for `$sys/trash`. -/
theorem unsubscribed_iff (h : (broker cfg).Reachable w) (hst : (broker cfg).step w e = some w')
    (hc : w.param e.action.channelId = some c) {packet : MqttUnsubscribe}
    (hp : e.packet = some (.unsubscribe packet)) :
    w.Unsubscribed w' c (packet.topicFilters.map UnsubscribeEntry.topicFilter) ↔
      ¬(sysTrash ∈ packet.topicFilters.map UnsubscribeEntry.topicFilter ∧ w.Has .trash c) := by
  have hwild := (decoded_of_admits hp ((step_eq_some cfg).1 hst).1).2
  have ho := owned_of_reachable h
  obtain ⟨hsubscribers, hsubscriptions⟩ := foldl_unsubscribeEntry packet.topicFilters
    (w.record (.handled c (.unsubscribe packet))) c
  have heq : w' = (packet.topicFilters.foldl (fun w entry => w.unsubscribeEntry c entry)
      (w.record (.handled c (.unsubscribe packet)))).write e.action.channelId
        (.unsuback (mqttUnsuback packet.packetId)) :=
    eq_of_packetHandler hst hp (agent_bind_apply hc _ _)
  have hmem : ∀ p s, s ∈ w'.subscribersAt p ↔ s ∈ w.subscribersAt p ∧
      ∀ entry ∈ packet.topicFilters,
        ¬(p = .entry entry.isWild entry.topicFilter ∧ s.client.clientId = c.clientId) := by
    intro p s
    have := hsubscribers p s
    rw [heq]
    cases p <;> exact this
  have htrash : w'.Has .trash c ↔ w.Has .trash c := by
    -- `$sys/trash` is in no table, and no filter finds it.
    refine exists_congr fun s => and_congr_left fun _ => ?_
    rw [hmem]
    exact and_iff_left fun _ _ h => TopicPtr.noConfusion h.1
  constructor
  · rintro hu ⟨hmem, hhas⟩
    exact hu.gone hmem (show TopicPtr.trash.Under sysTrash from rfl) (htrash.2 hhas)
  · intro hnot
    refine ⟨fun {p f} hf hunder hhas => ?_, fun {p s} hother => ?_, fun {r sub} hother => ?_⟩
    · -- It is in the table its filter is for, and that is the one it is taken from.
      cases p with
      | trash => exact hnot ⟨(show f = sysTrash from hunder) ▸ hf, htrash.1 hhas⟩
      | entry b g =>
        obtain rfl : f = g := hunder
        obtain ⟨s, hs, rfl⟩ := hhas
        obtain ⟨hs, hgone⟩ := (hmem _ s).1 hs
        obtain ⟨entry, hentry, rfl⟩ := List.mem_map.1 hf
        refine hgone entry hentry ⟨?_, rfl⟩
        rw [(listed_of_has ho hc ⟨s, hs, rfl⟩).1, (hwild entry hentry).2]
    · rw [hmem]
      refine and_iff_left fun entry hentry hgone => ?_
      rcases hother with hid | hunder
      · exact hid hgone.2
      · refine hunder entry.topicFilter (List.mem_map_of_mem hentry) ?_
        rw [hgone.1]
        rfl
    · rw [heq]
      refine hsubscriptions r sub (hother.imp_right fun hf entry hentry heq => hf ?_)
      rw [heq]
      exact List.mem_map_of_mem hentry

/-- A client that leaves is in no topic any more, and one that unsubscribes in
    none of those it names, exactly when it is not in `$sys/trash`, or does not
    name it. -/
theorem severed_iff (h : (broker cfg).Reachable w) (hst : (broker cfg).step w e = some w') :
    (w.Leaves e c → ((∀ p, ¬w'.Has p c) ↔ ¬w.Has .trash c)) ∧
      ∀ packet, w.param e.action.channelId = some c → e.packet = some (.unsubscribe packet) →
        (w.Unsubscribed w' c (packet.topicFilters.map UnsubscribeEntry.topicFilter) ↔
          ¬(sysTrash ∈ packet.topicFilters.map UnsubscribeEntry.topicFilter ∧ w.Has .trash c)) := by
  refine ⟨fun hleave => ?_, fun packet hc hp => unsubscribed_iff h hst hc hp⟩
  have hhas := fun {p} => has_step_iff (p := p) h hst hleave
  refine ⟨fun hnone htrash => hnone .trash (hhas.2 ⟨rfl, htrash⟩), fun hnot p hp => ?_⟩
  exact hnot (hhas.1 hp).2

/-- A client that is in `t` loses its channel. -/
theorem severed_lost : ∃ w e w' c, (broker mqttdCfg).Reachable w ∧
    (broker mqttdCfg).step w e = some w' ∧ w.Leaves e c ∧ w.Has (.entry false [0x74]) c ∧
      ∀ p, ¬w'.Has p c := by
  have hruns : runs (fun _ _ => true)
      [.accept 1, .read 1 (connectBytes 0x02 [0x61] []), .read 1 (subscribeBytes [0x74] 0x00)]
      (fun w => ((broker mqttdCfg).step w (Action.disconnected 1).event).any fun _ =>
        w.trashTopic.clients.isEmpty && (w.param 1).any fun c =>
          (w.subscribersAt (.entry false [0x74])).any fun s => s.client = c) = true := by
    decide +kernel
  obtain ⟨l, w, w', hl, -, hst, hp⟩ := exists_run_step hruns
  obtain ⟨hempty, hp⟩ := Bool.and_eq_true_iff.1 hp
  obtain ⟨c, hc, hp⟩ := (Option.any_eq_true _ _).1 hp
  obtain ⟨s, hs, heq⟩ := List.any_eq_true.1 hp
  have hleaves : w.Leaves (Action.disconnected 1).event c := ⟨hc, .inr rfl⟩
  refine ⟨w, _, w', c, hl.reachable, hst, hleaves, ⟨s, hs, of_decide_eq_true heq⟩,
    ((severed_iff hl.reachable hst).1 hleaves).2 ?_⟩
  -- Nobody is in `$sys/trash`.
  rintro ⟨s', hs', -⟩
  have hnil : w.subscribersAt .trash = [] := List.isEmpty_iff.1 hempty
  rw [hnil] at hs'
  exact List.not_mem_nil hs'

/-- The admin is in `$sys/trash`, and stays there when it unsubscribes and when it
    is gone. -/
theorem admin_stays_in_trash :
    (¬∀ w e w' c, (broker mqttdCfg).Reachable w → (broker mqttdCfg).step w e = some w' →
      w.Leaves e c → ∀ p, ¬w'.Has p c) ∧
    ¬∀ w e w' c packet, (broker mqttdCfg).Reachable w → (broker mqttdCfg).step w e = some w' →
      w.param e.action.channelId = some c → e.packet = some (.unsubscribe packet) →
        w.Unsubscribed w' c (packet.topicFilters.map UnsubscribeEntry.topicFilter) := by
  constructor
  · intro h
    have hruns : runs (fun _ _ => true)
        [.accept 1, .read 1 (adminConnectBytes 0x02 [0x61]), .read 1 (subscribeBytes sysTrash 0x00)]
        (fun w => ((broker mqttdCfg).step w (Action.disconnected 1).event).any fun w' =>
          (w.param 1).any fun c => (w'.subscribersAt .trash).any fun s => s.client = c) = true := by
      decide +kernel
    obtain ⟨l, w, w', hl, -, hst, hp⟩ := exists_run_step hruns
    obtain ⟨c, hc, hp⟩ := (Option.any_eq_true _ _).1 hp
    obtain ⟨s, hs, heq⟩ := List.any_eq_true.1 hp
    exact h w _ w' c hl.reachable hst ⟨hc, .inr rfl⟩ .trash ⟨s, hs, of_decide_eq_true heq⟩
  · intro h
    have hruns : runs (fun _ _ => true)
        [.accept 1, .read 1 (adminConnectBytes 0x02 [0x61]), .read 1 (subscribeBytes sysTrash 0x00)]
        (fun w => ((broker mqttdCfg).step w (Action.read 1 (unsubscribeBytes sysTrash)).event).any
          fun w' => (w.param 1).any fun c =>
            (w'.subscribersAt .trash).any fun s => s.client = c) = true := by
      decide +kernel
    obtain ⟨l, w, w', hl, -, hst, hp⟩ := exists_run_step hruns
    obtain ⟨c, hc, hp⟩ := (Option.any_eq_true _ _).1 hp
    obtain ⟨s, hs, heq⟩ := List.any_eq_true.1 hp
    refine (h w _ w' c _ hl.reachable hst hc rfl).gone (p := .trash) (f := sysTrash) ?_ rfl
      ⟨s, hs, of_decide_eq_true heq⟩
    exact List.mem_singleton_self _

end MqttBroker
