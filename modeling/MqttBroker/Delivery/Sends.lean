import MqttBroker.Delivery.PacketIds
import MqttBroker.Delivery.Posting

/-!
# Deliveries

What `mqtt_client::publish` is asked for, call after call, is a list of
deliveries (`Delivery`): to whom, and which PUBLISH, but for the packet id. What
it makes of them is told as a whole (`World.Delivers`): what is written, what is
filed in the sessions, and that the ids are new ones, for each other, too.

Publishing hangs when it runs out of packet ids, and only then. The ids a list of
deliveries needs of a session can be counted (`idsNeeded`), so each function that
publishes is a list of deliveries (`Delivering`): it returns exactly when there
are ids for them, and then they are made.

* `delivering_publish`: `mqtt_client::publish` makes one delivery;
* `delivering_forEach`, `delivering_foldEach`: a loop makes the deliveries of its
  rounds;
* `delivering_publishTopic`: `topic::publish` makes one for each subscriber.
-/

namespace MqttBroker

open Prog

/-- A call of `mqtt_client::publish`: what is sent, but for the packet id. -/
structure Delivery where
  client : MqttClient
  qos : Nat
  retained : Bool
  topicName : Bytes
  payload : Bytes
  deriving DecidableEq

/-- The delivery of a message to a subscriber. -/
def Subscriber.delivery (s : Subscriber) (retained : Bool) (m : MqttPublish) : Delivery :=
  ⟨s.client, min m.qos s.maxQos, retained, m.topicName, m.payload⟩

namespace Delivery

/-- The message keeps its packet id until it is answered. -/
def Kept (d : Delivery) : Prop := d.qos = 1 ∨ d.qos = 2

instance (d : Delivery) : Decidable d.Kept := inferInstanceAs (Decidable (_ ∨ _))

/-- The message goes to the session and keeps its id there. -/
def KeptIn (d : Delivery) (s : SessionRef) : Prop := d.client.session = s ∧ d.Kept

instance (d : Delivery) (s : SessionRef) : Decidable (d.KeptIn s) :=
  inferInstanceAs (Decidable (_ ∧ _))

end Delivery

/-- A delivery that was made: its packet id, and the PUBLISH. -/
structure Delivered extends Delivery where
  id : UInt16
  publish : MqttPublish
  built : mqttPublish false qos retained topicName id payload = .ok publish

/-- A message that keeps its packet id carries it. -/
theorem Delivered.packetId (x : Delivered) (h : x.Kept) : x.publish.packetId = x.id :=
  (mqttPublish_eq_ok x.built).2.2.2.2.2 h

/-! ## Counting packet ids -/

/-- The packet ids that a session must have free for deliveries: each looks for one,
    but one of QoS 0 leaves it free. -/
def idsNeeded (s : SessionRef) : List Delivery → Nat
  | [] => 0
  | d :: ds =>
    if d.client.session = s then max 1 (idsNeeded s ds + if d.Kept then 1 else 0)
    else idsNeeded s ds

/-- The packet ids of a session that deliveries take up. -/
def idsKept (s : SessionRef) (ds : List Delivery) : Nat := ds.countP fun d => d.KeptIn s

/-- What deliveries need is needed for the first of them, and then for the others. -/
theorem idsNeeded_append_le {s : SessionRef} {ds ds' : List Delivery} {n : Nat} :
    idsNeeded s (ds ++ ds') ≤ n ↔ idsNeeded s ds ≤ n ∧ idsNeeded s ds' + idsKept s ds ≤ n := by
  induction ds generalizing n with
  | nil => simp [idsNeeded, idsKept]
  | cons d ds ih =>
    rw [idsKept, List.countP_cons, List.cons_append, idsNeeded, idsNeeded]
    rw [idsKept] at ih
    by_cases hs : d.client.session = s
    · have hcount : (if decide (d.KeptIn s) = true then 1 else 0) = if d.Kept then 1 else 0 := by
        simp [Delivery.KeptIn, hs]
      rw [if_pos hs, if_pos hs, hcount, max_le_iff, max_le_iff, and_assoc]
      refine and_congr_right fun hn => ?_
      have ih := @ih (n - if d.Kept then 1 else 0)
      have hone : (if d.Kept then 1 else 0) ≤ 1 := by split_ifs <;> omega
      omega
    · rw [if_neg hs, if_neg hs, ih, if_neg (by simp [Delivery.KeptIn, hs]), Nat.add_zero]

/-- The packet ids that `session::new_packet_id` may find. -/
def Session.freeIds (t : Session) : Finset UInt16 :=
  Finset.univ.filter fun id => id ≠ 0 ∧ t.inUse id = false

theorem Session.mem_freeIds {t : Session} {id : UInt16} :
    id ∈ t.freeIds ↔ id ≠ 0 ∧ t.inUse id = false := by
  rw [freeIds, Finset.mem_filter, and_iff_right (Finset.mem_univ _)]

theorem Session.newPacketId_isSome_iff (t : Session) :
    t.newPacketId.isSome = true ↔ 1 ≤ t.freeIds.card := by
  rw [← hasFreeId_iff_newPacketId, Nat.one_le_iff_ne_zero, Finset.card_ne_zero]
  exact exists_congr fun _ => mem_freeIds.symm

/-- There are free packet ids for deliveries, in every session. -/
def World.HasIdsFor (w : World) (ds : List Delivery) : Prop :=
  ∀ s, idsNeeded s ds ≤ (w.session s).freeIds.card

/-- Whether there are packet ids depends on which of them are in use. -/
theorem hasIdsFor_congr {w v : World} {ds : List Delivery}
    (h : ∀ s, (v.session s).inUse = (w.session s).inUse) : v.HasIdsFor ds ↔ w.HasIdsFor ds := by
  refine forall_congr' fun s => ?_
  rw [Session.freeIds, Session.freeIds, h]

/-- No more packet ids are needed than there are deliveries. -/
theorem idsNeeded_le_length (s : SessionRef) (ds : List Delivery) : idsNeeded s ds ≤ ds.length := by
  induction ds with
  | nil => exact Nat.le_refl 0
  | cons d ds ih =>
    rw [idsNeeded, List.length_cons]
    split_ifs <;> omega

/-- The messages and releases of a session without an answer. -/
def Session.load (t : Session) : Nat :=
  t.publishForAck.length + t.publishForRec.length + t.packetIdForPubcomp.length

/-- Each of them takes up one packet id at most. -/
theorem Session.le_card_freeIds (t : Session) : 65535 ≤ t.freeIds.card + t.load := by
  let used := t.publishForAck.map MqttPublish.packetId ++ t.publishForRec.map MqttPublish.packetId ++
    t.packetIdForPubcomp
  have hused : t.freeIds = Finset.univ.erase 0 \ used.toFinset := by
    ext id
    rw [Session.mem_freeIds, Finset.mem_sdiff, Finset.mem_erase, List.mem_toFinset,
      and_iff_left (Finset.mem_univ _), ← Bool.not_eq_true, Session.inUse]
    simp [used, or_assoc]
  have hlength : used.length = t.load := by
    simp [used, Session.load, Nat.add_assoc]
  have hsub := Finset.le_card_sdiff used.toFinset (Finset.univ.erase (0 : UInt16))
  have hcard := card_ids
  have hlist := used.toFinset_card_le
  rw [← hused] at hsub
  omega

/-- A session that nothing goes to needs no packet ids. -/
theorem idsNeeded_eq_zero {s : SessionRef} {ds : List Delivery}
    (h : ∀ d ∈ ds, d.client.session ≠ s) : idsNeeded s ds = 0 := by
  induction ds with
  | nil => rfl
  | cons d ds ih =>
    rw [idsNeeded, if_neg (h d List.mem_cons_self)]
    exact ih fun d' hd' => h d' (List.mem_cons_of_mem _ hd')

/-- There are packet ids for deliveries to sessions that are not much in use. -/
theorem hasIdsFor_of_load {w : World} {ds : List Delivery}
    (h : ∀ d ∈ ds, ds.length + (w.session d.client.session).load ≤ 65535) : w.HasIdsFor ds := by
  intro s
  by_cases hs : ∃ d ∈ ds, d.client.session = s
  · obtain ⟨d, hd, rfl⟩ := hs
    have := h d hd
    have := (w.session d.client.session).le_card_freeIds
    have := idsNeeded_le_length d.client.session ds
    omega
  · rw [idsNeeded_eq_zero fun d hd heq => hs ⟨d, hd, heq⟩]
    exact Nat.zero_le _

/-- Deliveries to one client need packet ids of its session. -/
theorem hasIdsFor_iff_session {w : World} {ds : List Delivery} {s : SessionRef}
    (h : ∀ d ∈ ds, d.client.session = s) :
    w.HasIdsFor ds ↔ idsNeeded s ds ≤ (w.session s).freeIds.card := by
  refine ⟨fun hids => hids s, fun hids s' => ?_⟩
  by_cases hs : s' = s
  · rwa [hs]
  · rw [idsNeeded_eq_zero fun d hd heq => hs (heq.symm.trans (h d hd))]
    exact Nat.zero_le _

/-! ## Deliveries as a whole -/

/-- The packet ids that deliveries take up in a session. -/
def idsIn (s : SessionRef) (xs : List Delivered) : List UInt16 :=
  (xs.filter fun x => x.KeptIn s).map Delivered.id

/-- The PUBLISHes of a QoS that are made for a session. -/
def madeFor (qos : Nat) (s : SessionRef) (xs : List Delivered) : List MqttPublish :=
  (xs.filter fun x => x.client.session = s ∧ x.qos = qos).map Delivered.publish

theorem madeFor_singleton (qos : Nat) (s : SessionRef) (x : Delivered) :
    madeFor qos s [x] = if x.client.session = s ∧ x.qos = qos then [x.publish] else [] := by
  rw [madeFor, List.filter_cons]
  simp only [decide_eq_true_eq]
  split_ifs <;> rfl

/-- What `mqtt_client::publish` adds to the history. -/
def World.effects (w : World) (x : Delivered) : List Effect :=
  [.addressed x.client x.publish,
    .write x.client.channelId (w.param x.client.channelId) (.publish x.publish)]

/-- From `w` to `w'` the deliveries `xs` are made: they are written, and those that
    keep their packet ids are filed in the sessions. Retained messages may be
    stored meanwhile. -/
structure World.Delivers (w : World) (xs : List Delivered) (w' : World) : Prop where
  log : w'.log = w.log ++ xs.flatMap w.effects
  session s : w'.session s = { w.session s with
    nextPacketId := (w'.session s).nextPacketId
    publishForAck := (w.session s).publishForAck ++ madeFor 1 s xs
    publishForRec := (w.session s).publishForRec ++ madeFor 2 s xs }
  unaddressed s : (∀ x ∈ xs, x.client.session ≠ s) → w'.session s = w.session s
  fresh : ∀ x ∈ xs, x.id ≠ 0 ∧ (w.session x.client.session).inUse x.id = false
  distinct s : (idsIn s xs).Nodup
  others : w' = { w with
    session := w'.session, topics := w'.topics, trashTopic := w'.trashTopic, log := w'.log }
  subscribersAt : w'.subscribersAt = w.subscribersAt
  trash : w'.trashTopic.topicFilter = w.trashTopic.topicFilter

namespace World.Delivers

variable {w v w' : World} {xs ys : List Delivered}

theorem param (h : w.Delivers xs w') : w'.param = w.param := by
  rw [h.others]
  rfl

theorem effects (h : w.Delivers xs w') : w'.effects = w.effects := by
  funext x
  rw [World.effects, h.param, World.effects]

/-- The ids in use afterwards. -/
theorem inUse (h : w.Delivers xs w') (s : SessionRef) (id : UInt16) :
    (w'.session s).inUse id = true ↔ (w.session s).inUse id = true ∨ id ∈ idsIn s xs := by
  have hmade : ∀ q, q = 1 ∨ q = 2 → ((madeFor q s xs).any (fun p => p.packetId = id) = true ↔
      ∃ x ∈ xs, (x.client.session = s ∧ x.qos = q) ∧ x.id = id) := by
    intro q hq
    have hid : ∀ x : Delivered, x.qos = q → x.publish.packetId = x.id := by
      intro x hx
      rw [← hx] at hq
      exact x.packetId hq
    simp only [madeFor, List.any_eq_true, List.mem_map, List.mem_filter, decide_eq_true_eq]
    constructor
    · rintro ⟨p, ⟨x, ⟨hx, hxs⟩, rfl⟩, rfl⟩
      exact ⟨x, hx, hxs, (hid x hxs.2).symm⟩
    · rintro ⟨x, hx, hxs, rfl⟩
      exact ⟨x.publish, ⟨x, ⟨hx, hxs⟩, rfl⟩, hid x hxs.2⟩
  have hids : id ∈ idsIn s xs ↔ (∃ x ∈ xs, (x.client.session = s ∧ x.qos = 1) ∧ x.id = id) ∨
      ∃ x ∈ xs, (x.client.session = s ∧ x.qos = 2) ∧ x.id = id := by
    simp only [idsIn, List.mem_map, List.mem_filter, decide_eq_true_eq, Delivery.KeptIn,
      Delivery.Kept, and_or_left, or_and_right, exists_or, and_assoc]
  rw [h.session, Session.inUse, Session.inUse, hids, ← hmade 1 (.inl rfl), ← hmade 2 (.inr rfl)]
  simp only [List.any_append, Bool.or_eq_true]
  tauto

/-- What keeps its packet id is filed. -/
theorem filed (h : w.Delivers xs w') {x : Delivered} (hx : x ∈ xs) :
    (x.qos = 1 → x.publish ∈ (w'.session x.client.session).publishForAck) ∧
      (x.qos = 2 → x.publish ∈ (w'.session x.client.session).publishForRec) := by
  have hmade : ∀ q, x.qos = q → x.publish ∈ madeFor q x.client.session xs := fun q hq =>
    List.mem_map_of_mem (List.mem_filter.2 ⟨hx, decide_eq_true ⟨rfl, hq⟩⟩)
  rw [h.session]
  exact ⟨fun hq => List.mem_append_right _ (hmade 1 hq),
    fun hq => List.mem_append_right _ (hmade 2 hq)⟩

/-- The deliveries are made without anything being sent. -/
theorem of_nil (hlog : w'.log = w.log) (hsession : w'.session = w.session)
    (hothers : w' = { w with
      session := w'.session, topics := w'.topics, trashTopic := w'.trashTopic, log := w'.log })
    (hsubscribers : w'.subscribersAt = w.subscribersAt)
    (htrash : w'.trashTopic.topicFilter = w.trashTopic.topicFilter) : w.Delivers [] w' where
  log := hlog.trans (List.append_nil _).symm
  session s := by simp [hsession, madeFor]
  unaddressed s _ := by rw [hsession]
  fresh := by simp
  distinct _ := List.nodup_nil
  others := hothers
  subscribersAt := hsubscribers
  trash := htrash

theorem refl (w : World) : w.Delivers [] w :=
  @of_nil w w rfl rfl rfl rfl rfl

theorem trans (h : w.Delivers xs v) (h' : v.Delivers ys w') : w.Delivers (xs ++ ys) w' where
  log := by rw [h'.log, h.log, h.effects, List.flatMap_append, List.append_assoc]
  session s := by
    rw [h'.session, h.session]
    simp [madeFor, List.append_assoc]
  unaddressed s hs := by
    rw [h'.unaddressed s fun y hy => hs y (List.mem_append_right _ hy),
      h.unaddressed s fun x hx => hs x (List.mem_append_left _ hx)]
  fresh := by
    intro z hz
    rcases List.mem_append.1 hz with hx | hy
    · exact h.fresh z hx
    · obtain ⟨h0, hfree⟩ := h'.fresh z hy
      refine ⟨h0, Bool.eq_false_iff.2 fun hused => Bool.eq_false_iff.1 hfree ?_⟩
      exact (h.inUse _ _).2 (.inl hused)
  distinct s := by
    rw [idsIn, List.filter_append, List.map_append]
    refine (h.distinct s).append (h'.distinct s) fun id hx hy => ?_
    -- An id that was taken up is not found again.
    obtain ⟨y, hys, rfl⟩ := List.mem_map.1 hy
    obtain ⟨hmem, hkept⟩ := List.mem_filter.1 hys
    obtain ⟨rfl, -⟩ := of_decide_eq_true hkept
    exact Bool.eq_false_iff.1 (h'.fresh y hmem).2 ((h.inUse _ _).2 (.inr hx))
  others := by rw [h'.others, h.others]
  subscribersAt := h'.subscribersAt.trans h.subscribersAt
  trash := h'.trash.trans h.trash

/-- The free ids are those that were free and are not taken up. -/
theorem freeIds (h : w.Delivers xs w') (s : SessionRef) :
    (w'.session s).freeIds = (w.session s).freeIds \ (idsIn s xs).toFinset := by
  ext id
  rw [Finset.mem_sdiff, Session.mem_freeIds, Session.mem_freeIds, List.mem_toFinset,
    ← Bool.not_eq_true, h.inUse, not_or, Bool.not_eq_true, and_assoc]

/-- What is read off the history, one thing for each delivery, is read off the deliveries. -/
theorem filterMap_log {β : Type} {f : Effect → Option β} {g : Delivered → β}
    (hf : ∀ x, (w.effects x).filterMap f = [g x]) (h : w.Delivers xs w') :
    w'.log.filterMap f = w.log.filterMap f ++ xs.map g := by
  have heffects : ∀ l : List Delivered, (l.flatMap w.effects).filterMap f = l.map g := by
    intro l
    induction l with
    | nil => rfl
    | cons x l ih =>
      rw [List.flatMap_cons, List.filterMap_append, ih, hf]
      rfl
  rw [h.log, List.filterMap_append, heffects]

theorem idsIn_subset (h : w.Delivers xs w') (s : SessionRef) :
    (idsIn s xs).toFinset ⊆ (w.session s).freeIds := by
  intro id hid
  obtain ⟨x, hx, rfl⟩ := List.mem_map.1 (List.mem_toFinset.1 hid)
  obtain ⟨hmem, hkept⟩ := List.mem_filter.1 hx
  obtain ⟨rfl, -⟩ := of_decide_eq_true hkept
  exact Session.mem_freeIds.2 (h.fresh x hmem)

/-- Every delivery that keeps its id leaves one less. -/
theorem card_freeIds (h : w.Delivers xs w') (s : SessionRef) : (w'.session s).freeIds.card +
    idsKept s (xs.map Delivered.toDelivery) = (w.session s).freeIds.card := by
  have hcard : (idsIn s xs).toFinset.card = idsKept s (xs.map Delivered.toDelivery) := by
    rw [List.toFinset_card_of_nodup (h.distinct s), idsIn, List.length_map, idsKept,
      List.countP_map, List.countP_eq_length_filter]
    rfl
  rw [h.freeIds, ← hcard, Finset.card_sdiff_add_card_eq_card (h.idsIn_subset s)]

/-- There are ids for deliveries and further ones when there are ids for these
    first, and then for the others. -/
theorem hasIdsFor_append (h : w.Delivers xs v) {ds : List Delivery} :
    w.HasIdsFor (xs.map Delivered.toDelivery ++ ds) ↔
      w.HasIdsFor (xs.map Delivered.toDelivery) ∧ v.HasIdsFor ds := by
  rw [World.HasIdsFor, World.HasIdsFor, World.HasIdsFor, ← forall_and]
  refine forall_congr' fun s => ?_
  rw [idsNeeded_append_le, ← h.card_freeIds s]
  omega

end World.Delivers

/-! ## Programs that make deliveries -/

/-- From `w` to `w'` deliveries are made, whatever their packet ids are. -/
def World.Makes (w : World) (ds : List Delivery) (w' : World) : Prop :=
  ∃ xs : List Delivered, xs.map Delivered.toDelivery = ds ∧ w.Delivers xs w'

/-- Run from `w`, the program returns exactly when there are ids for the deliveries
    `ds`, and then they are made and it returns `a`. -/
def Delivering {α : Type} (m : Server α) (ds : List Delivery) (a : α) (w : World) : Prop :=
  Settles m (w.HasIdsFor ds) (fun b w' => b = a ∧ w.Makes ds w') w

variable {w v w' : World} {ds ds' : List Delivery} {α β : Type}

theorem makes_nil (w : World) : w.Makes [] w := ⟨[], rfl, .refl w⟩

theorem World.Makes.trans (h : w.Makes ds v) (h' : v.Makes ds' w') : w.Makes (ds ++ ds') w' := by
  obtain ⟨xs, rfl, hxs⟩ := h
  obtain ⟨ys, rfl, hys⟩ := h'
  exact ⟨xs ++ ys, List.map_append, hxs.trans hys⟩

theorem World.Makes.subscribersAt (h : w.Makes ds w') : w'.subscribersAt = w.subscribersAt := by
  obtain ⟨_, -, hxs⟩ := h
  exact hxs.subscribersAt

theorem World.Makes.trash (h : w.Makes ds w') :
    w'.trashTopic.topicFilter = w.trashTopic.topicFilter := by
  obtain ⟨_, -, hxs⟩ := h
  exact hxs.trash

theorem World.Makes.param (h : w.Makes ds w') : w'.param = w.param := by
  obtain ⟨_, -, hxs⟩ := h
  exact hxs.param

theorem World.Makes.hasIdsFor_append (h : w.Makes ds v) :
    w.HasIdsFor (ds ++ ds') ↔ w.HasIdsFor ds ∧ v.HasIdsFor ds' := by
  obtain ⟨xs, rfl, hxs⟩ := h
  exact hxs.hasIdsFor_append

theorem hasIdsFor_nil (w : World) : w.HasIdsFor [] := fun _ => Nat.zero_le _

theorem World.HasIdsFor.left (h : w.HasIdsFor (ds ++ ds')) : w.HasIdsFor ds :=
  fun s => (idsNeeded_append_le.1 (h s)).1

theorem hasIdsFor_singleton {d : Delivery} :
    w.HasIdsFor [d] ↔ (w.session d.client.session).newPacketId.isSome = true := by
  rw [Session.newPacketId_isSome_iff]
  have hone : max 1 (0 + if d.Kept then 1 else 0) = 1 := by
    split_ifs <;> rfl
  constructor
  · intro h
    have := h d.client.session
    rwa [idsNeeded, if_pos rfl, idsNeeded, hone] at this
  · intro h s
    rw [idsNeeded, idsNeeded, hone]
    split_ifs with hs
    · rwa [← hs]
    · exact Nat.zero_le _

theorem delivering_pure (a : α) (w : World) : Delivering (pure a) [] a w :=
  settles_pure (hasIdsFor_nil w) ⟨rfl, makes_nil w⟩

/-- The deliveries of a program are those of its statements, one after the other.
    More may be known of the state between them. -/
theorem delivering_bind_of_returns {m : Server β} {k : β → Server α} {a : α} {b : β}
    {R : World → Prop} (hm : Delivering m ds b w) (hR : Returns m (fun _ => R) w)
    (hk : ∀ v, w.Makes ds v → R v → Delivering (k b) ds' a v) :
    Delivering (m >>= k) (ds ++ ds') a w := by
  refine settles_bind (hm.and_returns hR) World.HasIdsFor.left fun b' v hids h => ?_
  obtain ⟨⟨rfl, hmakes⟩, hv⟩ := h
  refine (hk v hmakes hv).mono ?_ fun a' u _ h => ⟨h.1, hmakes.trans h.2⟩
  rw [hmakes.hasIdsFor_append, and_iff_right hids]

theorem delivering_bind_within {F : Frame World} {m : Server β} {k : β → Server α} {a : α} {b : β}
    (hm : Delivering m ds b w) (hF : Within F m)
    (hk : ∀ v, w.Makes ds v → F.rel w v → Delivering (k b) ds' a v) :
    Delivering (m >>= k) (ds ++ ds') a w :=
  delivering_bind_of_returns hm ((hm.returns.and_state (hF w)).mono fun _ _ h => h.2) hk

theorem delivering_bind {m : Server β} {k : β → Server α} {a : α} {b : β}
    (hm : Delivering m ds b w) (hk : ∀ v, w.Makes ds v → Delivering (k b) ds' a v) :
    Delivering (m >>= k) (ds ++ ds') a w :=
  delivering_bind_of_returns (R := fun _ => True) hm (hm.returns.mono fun _ _ _ => trivial)
    fun v hv _ => hk v hv

theorem delivering_get_bind {k : World → Server α} {a : α} (h : Delivering (k w) ds a w) :
    Delivering (get >>= k) ds a w := settles_get_bind h

/-- A statement that delivers nothing. -/
theorem delivering_modify_bind {f : World → World} {k : Unit → Server α} {a : α}
    (hf : w.Makes [] (f w)) (h : Delivering (k ()) ds a (f w)) :
    Delivering (modify f >>= k) ds a w := by
  refine settles_modify_bind (h.mono ?_ fun a' u _ hu => ⟨hu.1, hf.trans hu.2⟩)
  exact (and_iff_right (hasIdsFor_nil w)).symm.trans hf.hasIdsFor_append.symm

theorem delivering_tryCatch {m : Server α} {h : String → Server α} {a : α}
    (hm : Delivering m ds a w) : Delivering (tryCatch m h) ds a w := settles_tryCatch hm

/-- The deliveries of a loop are those of its rounds, one after the other. Its rounds
    begin within a frame that they stay in. -/
theorem delivering_foldEach_within {F : Frame World} {l : List β} {a : α} {f : α → β → Server α}
    {g : α → β → α} {ds : β → List Delivery} (hF : ∀ a, ∀ b ∈ l, Within F (f a b))
    (hf : ∀ b ∈ l, ∀ a ds' v, w.Makes ds' v → F.rel w v → Delivering (f a b) (ds b) (g a b) v) :
    Delivering (foldEach l a f) (l.flatMap ds) (l.foldl g a) w := by
  suffices H : ∀ (l' : List β) (a : α) (ds' : List Delivery) (v : World), (∀ b ∈ l', b ∈ l) →
      w.Makes ds' v → F.rel w v → Delivering (foldEach l' a f) (l'.flatMap ds) (l'.foldl g a) v from
    H l a [] w (fun _ hb => hb) (makes_nil w) (F.refl w)
  intro l'
  induction l' with
  | nil => exact fun a _ v _ _ _ => delivering_pure a v
  | cons b l' ih =>
    intro a ds' v hl hv hrel
    rw [List.flatMap_cons]
    have hb := hl b List.mem_cons_self
    refine delivering_bind_within (hf b hb a ds' v hv hrel) (hF a b hb) fun u hu hvu => ?_
    exact ih (g a b) _ u (fun b' hb' => hl b' (List.mem_cons_of_mem _ hb')) (hv.trans hu)
      (F.trans hrel hvu)

theorem delivering_foldEach {l : List β} {a : α} {f : α → β → Server α} {g : α → β → α}
    {ds : β → List Delivery} (hf : ∀ b ∈ l, ∀ a ds' v, w.Makes ds' v →
      Delivering (f a b) (ds b) (g a b) v) :
    Delivering (foldEach l a f) (l.flatMap ds) (l.foldl g a) w :=
  delivering_foldEach_within (F := ⟨fun _ _ => True, fun _ => trivial, fun _ _ => trivial⟩)
    (fun _ _ _ _ => trivial) fun b hb a ds' v hv _ => hf b hb a ds' v hv

theorem delivering_forEach_within {F : Frame World} {l : List β} {f : β → Server Unit}
    {ds : β → List Delivery} (hF : ∀ b ∈ l, Within F (f b))
    (hf : ∀ b ∈ l, ∀ ds' v, w.Makes ds' v → F.rel w v → Delivering (f b) (ds b) () v) :
    Delivering (forEach l f) (l.flatMap ds) () w := by
  rw [forEach_eq_foldEach]
  exact delivering_foldEach_within (g := fun _ _ => ()) (fun _ => hF) fun b hb _ => hf b hb

/-- What comes after a loop begins within its frame, too. -/
theorem delivering_forEach_bind_within {F : Frame World} {l : List β} {f : β → Server Unit}
    {k : Unit → Server α} {a : α} {ds : β → List Delivery} (hF : ∀ b ∈ l, Within F (f b))
    (hf : ∀ b ∈ l, ∀ ds' v, w.Makes ds' v → F.rel w v → Delivering (f b) (ds b) () v)
    (hk : ∀ v, w.Makes (l.flatMap ds) v → F.rel w v → Delivering (k ()) ds' a v) :
    Delivering (forEach l f >>= k) (l.flatMap ds ++ ds') a w :=
  delivering_bind_within (delivering_forEach_within hF hf) (within_forEach hF) hk

theorem delivering_forEach {l : List β} {f : β → Server Unit} {ds : β → List Delivery}
    (hf : ∀ b ∈ l, ∀ ds' v, w.Makes ds' v → Delivering (f b) (ds b) () v) :
    Delivering (forEach l f) (l.flatMap ds) () w := by
  rw [forEach_eq_foldEach]
  exact delivering_foldEach (g := fun _ _ => ()) fun b hb _ => hf b hb

/-! ## `mqtt_client::publish` -/

theorem session_address (w : World) (c : MqttClient) (p : MqttPublish) (s : SessionRef) :
    (w.address c p).session s = { w.session s with
      publishForAck := (w.session s).publishForAck ++ if c.session = s ∧ p.qos = 1 then [p] else []
      publishForRec := (w.session s).publishForRec ++
        if c.session = s ∧ p.qos = 2 then [p] else [] } := by
  rw [World.address, World.session_modifySession]
  split_ifs <;> simp_all [Session.addPublishForAck, Session.addPublishForRec, World.record]

/-- `mqtt_client::publish` makes one delivery. -/
theorem delivering_publish {m : MqttPublish} (hm : m.Sendable) (s : Subscriber) (retained : Bool)
    (w : World) :
    Delivering (s.client.publish s.maxQos retained m) [s.delivery retained m] () w := by
  rw [Delivering, Settles, publish_apply, hasIdsFor_singleton, Subscriber.delivery]
  cases hid : (w.session s.client.session).newPacketId with
  | none =>
    -- `session::new_packet_id` loops, at any QoS.
    simp
  | some r =>
    obtain ⟨h0, hfree, hr⟩ := Session.newPacketId_eq_some hid
    obtain ⟨p, hp⟩ := mqttPublish_of_sizes
      (Nat.lt_of_le_of_lt (Nat.min_le_left m.qos s.maxQos) hm.1) hm.2 false retained r.1
    simp only [hp]
    refine ⟨by simp, trivial, [⟨s.delivery retained m, r.1, p, hp⟩], rfl, ?_⟩
    have hqos : p.qos = min m.qos s.maxQos := (mqttPublish_eq_ok hp).2.1
    have hsession : ∀ s', (((w.modifySession s.client.session fun _ => r.2).address s.client
        p).write s.client.channelId (.publish p)).session s' = { w.session s' with
          nextPacketId := if s' = s.client.session then r.2.nextPacketId
            else (w.session s').nextPacketId
          publishForAck := (w.session s').publishForAck ++
            if s.client.session = s' ∧ p.qos = 1 then [p] else []
          publishForRec := (w.session s').publishForRec ++
            if s.client.session = s' ∧ p.qos = 2 then [p] else [] } := by
      intro s'
      refine (session_address _ s.client p s').trans ?_
      rw [World.session_modifySession]
      -- The packet id is taken from the session of the subscriber, and from no other.
      by_cases hs : s' = s.client.session
      · rw [if_pos hs, if_pos hs, hr, hs]
      · rw [if_neg hs, if_neg hs]
    have hmade : ∀ q s', (if s.client.session = s' ∧ p.qos = q then [p] else []) =
        madeFor q s' [⟨s.delivery retained m, r.1, p, hp⟩] := by
      intro q s'
      rw [madeFor_singleton, hqos]
      rfl
    constructor
    · rw [List.flatMap_singleton]
      exact List.append_assoc _ _ _
    · intro s'
      rw [hsession, hmade, hmade]
    · intro s' hs'
      have hne : s.client.session ≠ s' := hs' _ List.mem_cons_self
      rw [hsession, if_neg hne.symm, if_neg fun h => hne h.1, if_neg fun h => hne h.1]
      simp
    · intro x hx
      obtain rfl := List.mem_singleton.1 hx
      exact ⟨h0, hfree⟩
    · intro s'
      rw [idsIn, List.filter_cons]
      split_ifs <;> simp
    · rfl
    · rfl
    · rfl

/-- `session::new_packet_id` moves the counter, and returns when there is a free id. -/
theorem settles_newPacketId (w : World) (s : SessionRef) :
    Settles (newPacketId s) (w.session s).HasFreeId (fun _ v => ∃ next,
      v = w.modifySession s fun _ => { w.session s with nextPacketId := next }) w := by
  rw [hasFreeId_iff_newPacketId]
  refine settles_get_bind ?_
  cases hid : (w.session s).newPacketId with
  | none => exact Bool.false_ne_true
  | some r =>
    refine settles_modify_bind (settles_pure rfl ⟨r.2.nextPacketId, ?_⟩)
    rw [← (Session.newPacketId_eq_some hid).2.2]

/-! ## `topic::publish` -/

/-- Storing a retained message delivers nothing. -/
theorem makes_storeRetained (w : World) (p : TopicPtr) (m : MqttPublish) :
    w.Makes [] (w.storeRetained p m) := by
  have heq := w.storeRetained_eq p m
  refine ⟨[], rfl,
    .of_nil (by rw [heq]) (by rw [heq]) (by rw [heq]) ?_ (w.trashTopic_storeRetained p m)⟩
  funext p'
  exact w.subscribersAt_storeRetained p m p'

/-- What a message delivers at a place. -/
def World.deliveriesAt (w : World) (m : MqttPublish) (p : TopicPtr) : List Delivery :=
  (w.subscribersAt p).map fun s => s.delivery false m

theorem World.Makes.deliveriesAt (h : w.Makes ds w') : w'.deliveriesAt = w.deliveriesAt := by
  funext m p
  rw [World.deliveriesAt, h.subscribersAt, World.deliveriesAt]

/-- `topic::publish` makes a delivery for each subscriber. -/
theorem delivering_publishTopic {m : MqttPublish} (hm : m.Sendable) (p : TopicPtr) (w : World) :
    Delivering (publishTopic p m) (w.deliveriesAt m p) (!(w.subscribersAt p).isEmpty) w := by
  have hstore := makes_storeRetained w p m
  refine delivering_modify_bind hstore (delivering_get_bind ?_)
  rw [← hstore.deliveriesAt, ← hstore.subscribersAt, ← List.append_nil (World.deliveriesAt _ m p),
    World.deliveriesAt, List.map_eq_flatMap]
  refine delivering_bind (delivering_forEach fun s _ ds v _ => ?_) fun v _ => delivering_pure _ v
  exact delivering_publish hm s false v

end MqttBroker
