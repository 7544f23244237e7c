import MqttBroker.Delivery.FanOut

/-!
# Notices to `$sys/trash`

`handle_publish` is to tell the subscribers of `$sys/trash` of a message that was
forwarded to nobody (`World.NotifiesExactly`). It keeps a flag for that, which
every wild topic that matches overwrites: in the end the flag tells of the last
of them in the iteration alone (`findsReceiver_eq`). A topic without subscribers
stays in the tables as long as it retains a message, and where one is the last,
the notice is published although others were sent the message. So notices are
exact as long as that last topic has a subscriber, or nobody has, or nobody is
there to be told (`notifiesExactly_iff`).
-/

namespace MqttBroker

variable {cfg : Config} {w w' : World} {e : Event} {it : Iteration} {m : MqttPublish}
  {k : ChannelId} {c : MqttClient}

/-- Somebody is subscribed to a topic the message comes to. -/
def World.HasReceiver (w : World) (m : MqttPublish) : Prop :=
  ∃ b f, m.Reaches b f ∧ w.subscribersAt (.entry b f) ≠ []

/-- The wild topics that match, in the order of the iteration. -/
def World.wildMatching (w : World) (it : Iteration) (m : MqttPublish) : List Topic :=
  (it.order (w.topics true).elems).filter fun t => topicMatch t.topicFilter m.topicName

/-- A message of the client `c` at the channel `k` is forwarded, and the subscribers of
    `$sys/trash` are told of it exactly when nobody receives it. -/
def World.NotifiesExactly (w : World) (it : Iteration) (k : ChannelId) (c : MqttClient)
    (m : MqttPublish) (w' : World) : Prop :=
  ∃ xs ns : List Delivered, w.FansOut k c m (xs ++ ns) w' ∧
    xs.map Delivered.toDelivery = w.forwards it m ∧
    (w.HasReceiver m → ns = []) ∧
    (¬w.HasReceiver m → ns.map Delivered.toDelivery = w.notices m)

/-- A loop that overwrites a value leaves the last one. -/
theorem foldl_overwrite {α β : Type} (f : α → β) (l : List α) (b : β) :
    l.foldl (fun _ a => f a) b = (l.getLast?.map f).getD b := by
  rcases List.eq_nil_or_concat l with rfl | ⟨l, a, rfl⟩
  · rfl
  · simp

/-- The flag tells of the last wild topic that matches, if there is one. -/
theorem findsReceiver_eq (w : World) (it : Iteration) (m : MqttPublish) : w.findsReceiver it m =
    ((w.wildMatching it m).getLast?.map fun t => !t.clients.elems.isEmpty).getD
      (!(w.subscribersAt (.entry false m.topicName)).isEmpty) := by
  rw [← foldl_overwrite, World.wildMatching, List.foldl_filter]
  rfl

/-- Whoever receives the message is among the subscribers of the topic of its name, or
    of a wild topic that matches. -/
theorem hasReceiver_iff (w : World) (it : Iteration) (m : MqttPublish) : w.HasReceiver m ↔
    w.subscribersAt (.entry false m.topicName) ≠ [] ∨
      ∃ t ∈ w.wildMatching it m, t.clients.elems ≠ [] := by
  have hwild : ∀ t ∈ w.wildMatching it m,
      w.subscribersAt (.entry true t.topicFilter) = t.clients.elems := by
    intro t ht
    have htopic : w.topicAt (.entry true t.topicFilter) = some t :=
      Keyed.find_eq_some.2 ⟨(it.perm _).mem_iff.1 (List.mem_filter.1 ht).1, rfl⟩
    rw [World.subscribersAt, htopic]
    rfl
  constructor
  · rintro ⟨b, f, hreach, hsub⟩
    cases b with
    | false =>
      left
      rwa [← show f = m.topicName from hreach]
    | true =>
      cases ht : w.topicAt (.entry true f) with
      | none => exact absurd (by rw [World.subscribersAt, ht]; rfl) hsub
      | some t =>
        obtain ⟨hmem, rfl⟩ := Keyed.mem_of_find ht
        have hmem : t ∈ w.wildMatching it m :=
          List.mem_filter.2 ⟨(it.perm _).mem_iff.2 hmem, hreach⟩
        exact .inr ⟨t, hmem, hwild t hmem ▸ hsub⟩
  · rintro (hsub | ⟨t, ht, hsub⟩)
    · exact ⟨false, _, rfl, hsub⟩
    · exact ⟨true, t.topicFilter, (List.mem_filter.1 ht).2, hwild t ht ▸ hsub⟩

/-- The flag is wrong exactly when somebody receives the message, but nobody through the
    last wild topic that matches. -/
theorem findsReceiver_iff (w : World) (it : Iteration) (m : MqttPublish) :
    (w.findsReceiver it m = true ↔ w.HasReceiver m) ↔ (w.HasReceiver m →
      ∀ t, (w.wildMatching it m).getLast? = some t → t.clients.elems ≠ []) := by
  rw [hasReceiver_iff w it m, findsReceiver_eq]
  cases hlast : (w.wildMatching it m).getLast? with
  | none =>
    rw [List.getLast?_eq_none_iff] at hlast
    simp [hlast]
  | some t =>
    have hmem := List.mem_of_getLast? hlast
    simp only [Option.map_some, Option.getD_some, Bool.not_eq_true', List.isEmpty_eq_false_iff,
      Option.some.injEq, forall_eq']
    exact ⟨fun h => h.2, fun h => ⟨fun ht => .inr ⟨t, hmem, ht⟩, h⟩⟩

/-- A PUBLISH of a client in a reachable state: its notices are exact exactly when nobody
    is subscribed to `$sys/trash`, or nobody receives the message, or somebody does
    through the last wild topic in the iteration that matches, if there is one. -/
theorem notifiesExactly_iff (h : (broker cfg).Reachable w) (hst : (broker cfg).step w e = some w')
    (hp : e.packet = some (.publish m)) (hc : w.param e.action.channelId = some c) :
    w.NotifiesExactly e.iteration e.action.channelId c m w' ↔
      w.subscribersAt .trash = [] ∨ ¬w.HasReceiver m ∨
        ∀ t, (w.wildMatching e.iteration m).getLast? = some t → t.clients.elems ≠ [] := by
  obtain ⟨xs, ns, hxs, hns, hfans⟩ := step_fansOut h hst hp hc
  have hflag := findsReceiver_iff w e.iteration m
  have hnotices : w.notices m = [] ↔ w.subscribersAt .trash = [] := List.map_eq_nil_iff
  constructor
  · rintro ⟨xs', ns', hfans', hxs', hhas, -⟩
    -- As many notices were written as should be.
    have hlength : ns.length = ns'.length := by
      have hwritten := congrArg List.length
        (List.append_cancel_left (hfans.written.symm.trans hfans'.written))
      have hforwards := congrArg List.length (hxs.trans hxs'.symm)
      simp only [List.length_map, List.length_append] at hwritten hforwards
      omega
    refine or_iff_not_imp_left.2 fun htrash => or_iff_not_imp_left.2 fun hreceiver => ?_
    rw [not_not] at hreceiver
    refine hflag.1 (iff_of_true ?_ hreceiver) hreceiver
    rw [hhas hreceiver, List.length_nil, List.length_eq_zero_iff] at hlength
    by_contra hfinds
    rw [hlength, if_neg hfinds] at hns
    exact htrash (hnotices.1 hns.symm)
  · intro hwhen
    refine ⟨xs, ns, hfans, hxs, fun hreceiver => ?_, fun hreceiver => ?_⟩
    · rcases hwhen with htrash | hnone | hlast
      · rw [hnotices.2 htrash, ite_self] at hns
        exact List.map_eq_nil_iff.1 hns
      · exact absurd hreceiver hnone
      · rw [if_pos ((hflag.2 fun _ => hlast).2 hreceiver)] at hns
        exact List.map_eq_nil_iff.1 hns
    · rwa [if_neg fun hfinds => hreceiver
        ((hflag.2 fun hr => absurd hr hreceiver).1 hfinds)] at hns

/-- A message that a client receives through the only wild topic is told to nobody. -/
theorem notifiesExactly_heard : ∃ (w w' : World) (c : MqttClient) (m : MqttPublish),
    (broker mqttdCfg).Reachable w ∧ w.subscribersAt .trash ≠ [] ∧ w.HasReceiver m ∧
      w.NotifiesExactly ⟨id, fun _ => .refl _⟩ 1 c m w' := by
  let e := (Action.read 1 (publishBytes 0x00 [0x74] [] [0x01])).event
  let m : MqttPublish := ⟨⟨.publish, 0, 4⟩, false, 0, false, [0x74], 0, [0x01]⟩
  have hp : e.packet = some (.publish m) := by
    decide +kernel
  have hruns : runs (fun _ _ => true)
      [.accept 1, .read 1 (adminConnectBytes 0x02 [0x61]), .read 1 (subscribeBytes sysTrash 0x02),
        .read 1 (subscribeBytes [0x2b] 0x00)]
      (fun w => ((broker mqttdCfg).step w e).any fun _ => (w.param 1).any fun _ =>
        !(w.subscribersAt .trash).isEmpty && !(w.subscribersAt (.entry true [0x2b])).isEmpty &&
          (w.wildMatching e.iteration m).all fun t => !t.clients.elems.isEmpty) = true := by
    decide +kernel
  obtain ⟨l, w, w', hl, -, hst, hrun⟩ := exists_run_step hruns
  obtain ⟨c, hc, hrun⟩ := Option.any_eq_true _ _ |>.1 hrun
  simp only [Bool.and_eq_true, Bool.not_eq_true', List.isEmpty_eq_false_iff, List.all_eq_true] at hrun
  obtain ⟨⟨htrash, hwild⟩, hall⟩ := hrun
  refine ⟨w, w', c, m, hl.reachable, htrash, ⟨true, [0x2b], by decide, hwild⟩,
    (notifiesExactly_iff hl.reachable hst hp hc).2 (.inr (.inr fun t ht => ?_))⟩
  exact hall t (List.mem_of_getLast? ht)

/-- A wild topic that nobody is subscribed to retains a message, and another message
    that it matches, and that a client is sent, is told to have found no receiver. -/
theorem notice_despite_receiver : ¬∀ w e w' m c, (broker mqttdCfg).Reachable w →
    (broker mqttdCfg).step w e = some w' → e.packet = some (.publish m) →
    w.param e.action.channelId = some c →
    w.NotifiesExactly e.iteration e.action.channelId c m w' := by
  intro h
  let e := (Action.read 1 (publishBytes 0x00 [0x74] [] [0x01])).event
  let m : MqttPublish := ⟨⟨.publish, 0, 4⟩, false, 0, false, [0x74], 0, [0x01]⟩
  have hp : e.packet = some (.publish m) := by
    decide +kernel
  have hruns : runs (fun _ _ => true)
      [.accept 1, .read 1 (adminConnectBytes 0x02 [0x61]), .read 1 (subscribeBytes sysTrash 0x02),
        .read 1 (subscribeBytes [0x74] 0x00), .read 1 (subscribeBytes [0x2b] 0x00),
        .read 1 (publishBytes 0x01 [0x74] [] [0x01]), .read 1 (unsubscribeBytes [0x2b])]
      (fun w => ((broker mqttdCfg).step w e).any fun w' => (w.param 1).any fun _ =>
        !(w.subscribersAt (.entry false [0x74])).isEmpty &&
          decide (w'.written.length = w.written.length + (w.forwards e.iteration m).length + 1)) =
        true := by
    decide +kernel
  obtain ⟨l, w, w', hl, -, hst, hrun⟩ := exists_run_step hruns
  obtain ⟨c, hc, hrun⟩ := Option.any_eq_true _ _ |>.1 hrun
  simp only [Bool.and_eq_true, Bool.not_eq_true', List.isEmpty_eq_false_iff,
    decide_eq_true_eq] at hrun
  obtain ⟨hsub, hcount⟩ := hrun
  obtain ⟨xs, ns, hfans, hxs, hhas, -⟩ := h w e w' m c hl.reachable hst hp hc
  have hwritten := congrArg List.length hfans.written
  rw [hhas ⟨false, [0x74], rfl, hsub⟩, hcount, ← hxs] at hwritten
  simp [MqttPublish.answer, m] at hwritten

end MqttBroker
