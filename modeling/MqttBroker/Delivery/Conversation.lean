import MqttBroker.Delivery.Outcomes

/-!
# Conversations

What a client hears, over a run. Before a CONNECT is accepted on a channel, no
other packet than a CONNACK is written to it (`welcomed_first`). Every CONNECT, and
every request of a client, is answered once, in the order of the calls, and nothing
is answered that was not asked (`answered_in_order`).
-/

namespace MqttBroker

open Prog

variable {cfg : Config} {w w' : World} {e : Event} {l : List (World × Event)} {k : ChannelId}
  {c : MqttClient} {p : Packet}

/-! ## Order -/

/-- A CONNACK. -/
def Packet.isConnack : Packet → Bool
  | .connack _ => true
  | _ => false

/-- Among the packets is a CONNACK that tells the channel that its CONNECT is accepted. -/
def Welcomed (xs : List (ChannelId × Packet)) (k : ChannelId) : Prop :=
  ∃ sessionPresent, (k, .connack (mqttConnack sessionPresent 0x00)) ∈ xs

/-- Each packet but a CONNACK is to a channel that was welcomed by the packets before it. -/
def WelcomedFirst (xs : List (ChannelId × Packet)) : Prop :=
  ∀ ys k p zs, xs = ys ++ (k, p) :: zs → p.isConnack = false → Welcomed ys k

theorem Welcomed.mono {xs ys : List (ChannelId × Packet)} (h : Welcomed xs k) (hsub : xs ⊆ ys) :
    Welcomed ys k := h.imp fun _ hmem => hsub hmem

/-- Packets to welcomed channels may follow. -/
theorem welcomedFirst_append {xs ys : List (ChannelId × Packet)} (h : WelcomedFirst xs)
    (hys : ∀ x ∈ ys, x.2.isConnack = true ∨ Welcomed xs x.1) : WelcomedFirst (xs ++ ys) := by
  intro us k p vs heq hp
  rcases List.append_eq_append_iff.1 heq with ⟨zs, rfl, hzs⟩ | ⟨zs, rfl, hzs⟩
  · have hmem : (k, p) ∈ ys := hzs ▸ List.mem_append_right _ List.mem_cons_self
    exact ((hys _ hmem).resolve_left (by simp [hp])).mono (List.subset_append_left _ _)
  · cases zs with
    | nil =>
      have hmem : (k, p) ∈ ys := by
        rw [List.nil_append] at hzs
        exact hzs ▸ List.mem_cons_self
      exact ((hys _ hmem).resolve_left (by simp [hp])).mono (by rw [List.append_nil]; simp)
    | cons z zs =>
      obtain ⟨rfl, rfl⟩ := List.cons.inj hzs
      exact h us k p zs rfl hp

/-! ## Steps -/

theorem holds_of_mem_deliveriesAt {m : MqttPublish} {place : TopicPtr} {d : Delivery}
    (h : d ∈ w.deliveriesAt m place) : w.Holds d.client := by
  obtain ⟨s, hs, rfl⟩ := List.mem_map.1 h
  exact .inr (.inr ⟨place, s, hs, rfl⟩)

/-- What is due goes to clients the broker has, or to the one it lets in. -/
theorem client_of_mem_due {d : Delivery} (h : d ∈ w.due cfg e) : w.Holds d.client ∨
    ∃ j, w.joining cfg e = some j ∧ d.client = w.newcomer j := by
  rw [World.due] at h
  cases hj : w.joining cfg e with
  | some j =>
    simp only [hj] at h
    cases hs : w.storedSession j with
    | none => simp [hs] at h
    | some s =>
      rw [hs] at h
      obtain ⟨sub, -, h⟩ := List.mem_flatMap.1 h
      obtain ⟨m, -, rfl⟩ := List.mem_map.1 h
      obtain ⟨hclean, hs⟩ := storedSession_eq_some.1 hs
      exact .inr ⟨j, rfl, (Directory.connect_eq_of_present (d := w.directory.allocate)
        (c := j.client w) j.channelId hclean hs j.clientId).1.symm⟩
  | none =>
    simp only [hj] at h
    refine .inl ?_
    cases hc : w.param e.action.channelId with
    | none => simp [hc] at h
    | some c =>
      rw [hc] at h
      have h : d ∈ w.dueFor e c := h
      rw [World.dueFor] at h
      split at h
      · next m hp =>
        rcases List.mem_append.1 h with h | h
        · obtain ⟨place, -, h⟩ := List.mem_flatMap.1 h
          exact holds_of_mem_deliveriesAt h
        · split_ifs at h
          · exact absurd h List.not_mem_nil
          · obtain ⟨s, hs, rfl⟩ := List.mem_map.1 h
            exact .inr (.inr ⟨.trash, s, hs, rfl⟩)
      · rw [client_of_mem_subscribeDeliveries h]
        exact .inl ⟨_, hc⟩
      · exact absurd h List.not_mem_nil
      · split_ifs at h
        · obtain ⟨s, hs, rfl⟩ := List.mem_map.1 h
          exact .inr (.inr ⟨_, s, hs, rfl⟩)
        · exact absurd h List.not_mem_nil

/-- A client that the broker has was welcomed. -/
def World.WelcomedClients (w : World) : Prop := ∀ c, w.Holds c → Welcomed w.written c.channelId

/-- What is answered is a CONNACK first, or goes to the client at the channel. -/
theorem answers_cases (cfg : Config) (w : World) (e : Event) :
    (∃ (j : Joining) (ps : List Packet), w.joining cfg e = some j ∧ w.answers cfg e =
      (j.channelId, .connack (mqttConnack (w.storedSession j).isSome 0x00)) ::
        ps.map fun p => (j.channelId, p)) ∨
    w.joining cfg e = none ∧ ∀ x ∈ w.answers cfg e, x.2.isConnack = true ∨
      ∃ c, w.param e.action.channelId = some c ∧ (x.1 = e.action.channelId ∨ x.1 = c.channelId) := by
  rw [World.answers]
  cases hj : w.joining cfg e with
  | some j =>
    have hwelcome : w.welcome j =
        .connack (mqttConnack (w.storedSession j).isSome 0x00) :: (w.welcome j).tail := by
      rw [World.welcome]
      cases w.storedSession j <;> rfl
    exact .inl ⟨j, (w.welcome j).tail, rfl, congrArg (List.map _) hwelcome⟩
  | none =>
    refine .inr ⟨rfl, fun x hx => ?_⟩
    cases hp : e.packet with
    | none => simp [hp] at hx
    | some p =>
      cases hc : w.param e.action.channelId with
      | none => cases p <;> simp_all [Packet.isConnack]
      | some c =>
        refine or_iff_not_imp_left.2 fun hconnack => ⟨c, rfl, ?_⟩
        cases p with
        | publish m =>
          simp only [hp, hc, Option.elim_some, Packet.answers, MqttPublish.answer] at hx
          split_ifs at hx <;> simp_all
        | _ => simp_all [Packet.answers, Packet.isConnack]

theorem welcomed_step (h : (broker cfg).Reachable w) (hst : (broker cfg).step w e = some w')
    (hclients : w.WelcomedClients) (hfirst : WelcomedFirst w.written) :
    w'.WelcomedClients ∧ WelcomedFirst w'.written := by
  obtain ⟨xs, hxs, hwritten, -⟩ := replied_of_step h hst
  rw [← List.append_assoc] at hwritten
  have hchannel : ∀ {k c}, w.param k = some c → c.channelId = k :=
    (valid_of_reachable h).holder_channel
  -- The answers, and then the deliveries.
  have hanswers : WelcomedFirst (w.written ++ w.answers cfg e) ∧ ∀ j,
      w.joining cfg e = some j → Welcomed (w.written ++ w.answers cfg e) j.channelId := by
    rcases answers_cases cfg w e with ⟨j, ps, hj, heq⟩ | ⟨hj, hcases⟩
    · have hconnack : WelcomedFirst (w.written ++
          [(j.channelId, .connack (mqttConnack (w.storedSession j).isSome 0x00))]) :=
        welcomedFirst_append hfirst fun x hx => .inl (by rw [List.mem_singleton.1 hx]; rfl)
      have hwelcomed : Welcomed (w.written ++
          [(j.channelId, .connack (mqttConnack (w.storedSession j).isSome 0x00))]) j.channelId :=
        ⟨_, List.mem_append_right _ (List.mem_singleton_self _)⟩
      have hrest : ∀ x ∈ ps.map fun p => (j.channelId, p), x.2.isConnack = true ∨
          Welcomed (w.written ++
            [(j.channelId, .connack (mqttConnack (w.storedSession j).isSome 0x00))]) x.1 := by
        intro x hx
        obtain ⟨p, -, rfl⟩ := List.mem_map.1 hx
        exact .inr hwelcomed
      have hall := welcomedFirst_append hconnack hrest
      rw [heq, List.append_cons]
      refine ⟨hall, fun j' hj' => ?_⟩
      obtain rfl := Option.some.inj (hj.symm.trans hj')
      exact hwelcomed.mono (List.subset_append_left _ _)
    · refine ⟨welcomedFirst_append hfirst fun x hx => ?_, fun j hj' => by cases hj.symm.trans hj'⟩
      refine (hcases x hx).imp_right fun ⟨c, hc, hk⟩ => ?_
      rw [hk.elim id fun hk => hk.trans (hchannel hc), ← hchannel hc]
      exact hclients c (.inl ⟨_, hc⟩)
  rw [hwritten]
  have hheld : ∀ c, w.Holds c → Welcomed (w.written ++ w.answers cfg e) c.channelId :=
    fun c hc => (hclients c hc).mono (List.subset_append_left _ _)
  refine ⟨fun c hc => ?_, welcomedFirst_append hanswers.1 fun x hx => .inr ?_⟩
  · rw [hwritten]
    refine Welcomed.mono ?_ (List.subset_append_left _ _)
    rcases admitting_step hst c hc with ⟨j, hj, rfl⟩ | hc
    · rw [World.newcomer, Directory.newcomer_channelId]
      exact hanswers.2 j hj
    · exact hheld c hc
  · obtain ⟨y, hy, rfl⟩ := List.mem_map.1 hx
    have hdue : y.toDelivery ∈ w.due cfg e := hxs ▸ List.mem_map_of_mem hy
    show Welcomed _ y.client.channelId
    rcases client_of_mem_due hdue with hc | ⟨j, hj, hnew⟩
    · exact hheld _ hc
    · rw [hnew, World.newcomer, Directory.newcomer_channelId]
      exact hanswers.2 j hj

/-! ## Runs -/

theorem not_holds_start (c : MqttClient) : ¬World.start.Holds c := by
  rintro (⟨k, hk⟩ | hc | ⟨p, s, hs, -⟩)
  · cases hk
  · exact Keyed.not_mem_empty c hc
  · cases p with
    | trash => exact Keyed.not_mem_empty s hs
    | entry b f => exact List.not_mem_nil hs

/-- Before a CONNECT is accepted on a channel, only CONNACKs are written to it. -/
theorem welcomed_first (h : (broker cfg).Reachable w) {ys zs : List (ChannelId × Packet)}
    (hw : w.written = ys ++ (k, p) :: zs) (hp : p.isConnack = false) :
    ∃ sessionPresent, (k, .connack (mqttConnack sessionPresent 0x00)) ∈ ys := by
  have hstart : World.start.WelcomedClients ∧ WelcomedFirst World.start.written := by
    refine ⟨fun c hc => absurd hc (not_holds_start c), fun ys k p zs heq => ?_⟩
    exact absurd heq.symm (List.append_ne_nil_of_right_ne_nil _ (List.cons_ne_nil _ _))
  obtain ⟨-, hfirst⟩ := h.induct (I := fun w => w.WelcomedClients ∧ WelcomedFirst w.written) hstart
    fun w e w' h hI hst => welcomed_step h hst hI.1 hI.2
  exact hfirst ys k p zs hw hp

/-- A client subscribes after its CONNECT. -/
theorem welcomed_first_suback : ∃ w ys p, (broker mqttdCfg).Reachable w ∧
    w.written = ys ++ (1, p) :: [] ∧ p.isConnack = false ∧
    ∃ sessionPresent, (1, .connack (mqttConnack sessionPresent 0x00)) ∈ ys := by
  have hruns : runs (fun _ _ => true) [.accept 1, .read 1 (connectBytes 0x02 [0x61] []),
      .read 1 (subscribeBytes [0x61] 1)]
      (fun w => w.written.getLast?.any fun x => x.1 = 1 && !x.2.isConnack) = true := by
    decide +kernel
  obtain ⟨l, w, hl, -, hrun⟩ := exists_run hruns
  obtain ⟨⟨k, p⟩, hlast, hrun⟩ := Option.any_eq_true _ _ |>.1 hrun
  obtain ⟨hk, hp⟩ := Bool.and_eq_true_iff.1 hrun
  obtain rfl : k = 1 := of_decide_eq_true hk
  obtain ⟨ys, hys⟩ := List.getLast?_eq_some_iff.1 hlast
  have hp : p.isConnack = false := by simpa using hp
  exact ⟨w, ys, p, hl.reachable, hys, hp, welcomed_first hl.reachable hys hp⟩

/-! ## Answers -/

/-- A packet that answers another one, and is not sent on any other occasion. -/
def Packet.isAnswer : Packet → Bool
  | .connack _ | .puback _ | .pubrec _ | .pubcomp _ | .suback _ | .unsuback _ | .pingresp _ => true
  | _ => false

/-- The answer to a packet of the client `c` at the channel `k`. -/
def Packet.reply (k : ChannelId) (c : MqttClient) : Packet → List (ChannelId × Packet)
  | .publish m => m.answer k
  | .pubrel a => [(c.channelId, .pubcomp (mqttPubcomp a.packetId))]
  | .subscribe p => [(k, .suback (p.suback c))]
  | .unsubscribe p => [(k, .unsuback (mqttUnsuback p.packetId))]
  | .pingreq _ => [(k, .pingresp mqttPingresp)]
  | _ => []

/-- The answer to what a call brings: to a CONNECT a CONNACK, and to a packet of a client
    what it asks for. -/
def World.reply (cfg : Config) (w : World) (e : Event) : List (ChannelId × Packet) :=
  match e.packet with
  | none => []
  | some (.connect packet) => [(e.action.channelId, .connack <|
      match w.joining cfg e with
      | some j => mqttConnack (w.storedSession j).isSome 0x00
      | none => mqttConnack false (w.refusalCode e.draws packet))]
  | some p => (w.param e.action.channelId).elim [] (p.reply e.action.channelId)

/-- Of what is written to a client that is accepted, the CONNACK is an answer. -/
theorem filter_isAnswer_welcome (w : World) (j : Joining) :
    ((w.welcome j).map fun p => (j.channelId, p)).filter (fun x => x.2.isAnswer) =
      [(j.channelId, .connack (mqttConnack (w.storedSession j).isSome 0x00))] := by
  have hnone : ∀ {α : Type} (xs : List α) (f : α → Packet), (∀ a, (f a).isAnswer = false) →
      (xs.map f).filter Packet.isAnswer = [] := by
    intro α xs f hf
    refine List.filter_eq_nil_iff.2 fun p hp => ?_
    obtain ⟨a, -, rfl⟩ := List.mem_map.1 hp
    rw [hf]
    exact Bool.false_ne_true
  rw [List.filter_map]
  show ((w.welcome j).filter Packet.isAnswer).map _ = _
  rw [World.welcome]
  cases w.storedSession j with
  | none => rfl
  | some s =>
    rw [List.filter_cons_of_pos rfl, List.filter_append, List.filter_append, hnone _ _ fun _ => rfl,
      hnone _ _ fun _ => rfl, hnone _ _ fun _ => rfl]
    rfl

/-- Of what is written in a call, the answers are the reply. -/
theorem filter_isAnswer_answers (cfg : Config) (w : World) (e : Event) :
    (w.answers cfg e).filter (fun x => x.2.isAnswer) = w.reply cfg e := by
  cases hp : e.packet with
  | none =>
    rw [(answers_of_no_packet cfg w hp).2, World.reply, hp]
    rfl
  | some p =>
    by_cases hconnect : ∃ packet, p = .connect packet
    · obtain ⟨packet, rfl⟩ := hconnect
      rw [World.answers, World.reply, hp]
      cases hj : w.joining cfg e with
      | some j =>
        rw [(joining_eq_some hj).2.1]
        exact filter_isAnswer_welcome w j
      | none => rfl
    · have hne : ∀ packet, p ≠ .connect packet := fun packet h => hconnect ⟨packet, h⟩
      have hreply : w.reply cfg e =
          (w.param e.action.channelId).elim [] (p.reply e.action.channelId) := by
        rw [World.reply, hp]
        cases p with
        | connect packet => exact absurd rfl (hne packet)
        | _ => rfl
      rw [hreply, answers_of_packet cfg hp hne]
      cases w.param e.action.channelId with
      | none => rfl
      | some c =>
        cases p with
        | publish m =>
          show (m.answer _).filter _ = m.answer _
          rw [MqttPublish.answer]
          split_ifs <;> rfl
        | _ => rfl

/-- The answers that are written in a run are those to its calls, in their order. -/
theorem answered_in_order (h : (broker cfg).Run l w) :
    w.written.filter (fun x => x.2.isAnswer) = l.flatMap fun x => x.1.reply cfg x.2 := by
  induction h with
  | init => rfl
  | @step l w w' e h hst ih =>
    obtain ⟨xs, -, hwritten, -⟩ := replied_of_step h.reachable hst
    have hdelivered : (xs.map Delivered.written).filter (fun x => x.2.isAnswer) = [] := by
      refine List.filter_eq_nil_iff.2 fun x hx => ?_
      obtain ⟨y, -, rfl⟩ := List.mem_map.1 hx
      exact Bool.false_ne_true
    rw [hwritten, List.filter_append, List.filter_append, hdelivered, List.append_nil, ih,
      filter_isAnswer_answers, List.flatMap_append, List.flatMap_singleton]

/-- A PUBLISH before the CONNECT is not answered; a PINGREQ and a PUBLISH after it are. -/
theorem answered_in_order_requests : ∃ l w, (broker mqttdCfg).Run l w ∧
    w.written.filter (fun x => x.2.isAnswer) = l.flatMap (fun x => x.1.reply mqttdCfg x.2) ∧
    (w.written.filter fun x => x.2.isAnswer).length = 3 := by
  have hruns : runs (fun _ _ => true) [.accept 1, .read 1 (publishBytes 2 [0x61] [0x00, 0x07] []),
      .read 1 (connectBytes 0x02 [0x61] []), .read 1 (packetBytes 0xc0 []),
      .read 1 (publishBytes 2 [0x61] [0x00, 0x07] [])]
      (fun w => (w.written.filter fun x => x.2.isAnswer).length = 3) = true := by
    decide +kernel
  obtain ⟨l, w, hl, -, hlength⟩ := exists_run hruns
  exact ⟨l, w, hl, answered_in_order hl, of_decide_eq_true hlength⟩

end MqttBroker
