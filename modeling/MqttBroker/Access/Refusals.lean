import MqttBroker.Server.Steps

/-!
# Refused CONNECTs

A CONNECT is to be refused on a channel on which one was accepted before, and
when it names another protocol (`Refuses`); then it should change nothing but
the channel it came on (`World.Unaffected`). What decides is whether the later
checks of `handle_connect` pass (`refused_unaffected_iff`): it closes the channel
and goes on, and after a DISCONNECT it does not even close it.
-/

namespace MqttBroker

open Prog

/-! ## What a refused CONNECT leaves alone -/

/-- A CONNACK that tells a client that it is connected. -/
def Effect.Accepts : Effect → Prop
  | .write _ _ (.connack p) => p.connectReturnCode = 0
  | _ => False

/-- From `w` to `w'`, at most the channel `k` is closed and refused: the tables
    and the parameters of the channels are as before, no other channel changes,
    and no CONNACK with the return code 0 is written. -/
structure World.Unaffected (w w' : World) (k : ChannelId) : Prop where
  clients : w'.clients = w.clients
  sessions : w'.sessions = w.sessions
  topics : w'.topics = w.topics
  param : w'.param = w.param
  others : ∀ k' ≠ k, w'.contexts k' = w.contexts k'
  answers : ∃ rest, w'.log = w.log ++ rest ∧ ∀ e ∈ rest, ¬e.Accepts

/-- Moreover `$sys/trash` and the contents of the sessions are as before. -/
structure World.Untouched (w w' : World) (k : ChannelId) : Prop extends World.Unaffected w w' k where
  trashTopic : w'.trashTopic = w.trashTopic
  session : w'.session = w.session

/-- A CONNECT was accepted on the channel since the channel is there. -/
def AcceptedOn (cfg : Config) (l : List (World × Event)) (k : ChannelId) : Prop :=
  ∃ l₁ x l₂, l = l₁ ++ x :: l₂ ∧ (∃ j ∈ x.1.joining cfg x.2, j.channelId = k) ∧
    ∀ y ∈ l₂, y.2.action ≠ .disconnected k

/-- After the steps `l`, an event brings a CONNECT that is to be refused. -/
def Refuses (cfg : Config) (l : List (World × Event)) (e : Event) : Prop :=
  ∃ packet ∈ e.connect,
    packet.protocolName ≠ cfg.protocolName ∨ AcceptedOn cfg l e.action.channelId

/-- A CONNECT passes `check_integrity`, and comes from an admin or, where
    authentication is asked for, from an authenticated user. -/
def World.Passes (cfg : Config) (draws : List (Nat × Nat)) (w : World) (packet : MqttConnect) :
    Prop :=
  ∃ r ∈ w.checkIntegrity draws packet, r.1 = 0x00 ∧
    (cfg.isAdmin r.2.username r.2.password ∨ cfg.authentication = false ∨
      cfg.authenticate r.2.username r.2.password)

/-- The steps that leave everything but the channel `k` alone. -/
def Refusing (k : ChannelId) : Frame World where
  rel w w' := w.Untouched w' k
  refl w := ⟨⟨rfl, rfl, rfl, rfl, fun _ _ => rfl, [], (List.append_nil _).symm,
    fun _ he => absurd he List.not_mem_nil⟩, rfl, rfl⟩
  trans := by
    rintro s t u h₁ h₂
    obtain ⟨l, hl, hle⟩ := h₁.answers
    obtain ⟨m, hm, hme⟩ := h₂.answers
    refine ⟨⟨h₂.clients.trans h₁.clients, h₂.sessions.trans h₁.sessions, h₂.topics.trans h₁.topics,
      h₂.param.trans h₁.param, fun k' hk => (h₂.others k' hk).trans (h₁.others k' hk), l ++ m, ?_,
      fun e he => ?_⟩, h₂.trashTopic.trans h₁.trashTopic, h₂.session.trans h₁.session⟩
    · rw [hm, hl, List.append_assoc]
    · exact (List.mem_append.1 he).elim (hle e) (hme e)

variable {cfg : Config} {w w' : World} {e : Event} {k : ChannelId} {l : List (World × Event)}

theorem refusing_close (w : World) (k : ChannelId) : (Refusing k).rel w (w.close k) :=
  ⟨⟨rfl, rfl, rfl, w.param_close k, fun _ hk => Function.update_of_ne hk _ _, [],
    (List.append_nil _).symm, fun _ he => absurd he List.not_mem_nil⟩, rfl, rfl⟩

theorem refusing_greet (w : World) (k : ChannelId) (packet : MqttConnect) :
    (Refusing k).rel w (w.greet cfg k packet) := by
  have hmake : ∀ v : World, (Refusing k).rel v { v with nextAddr := v.nextAddr + 1 } := fun v =>
    ⟨⟨rfl, rfl, rfl, rfl, fun _ _ => rfl, [], (List.append_nil _).symm,
      fun _ he => absurd he List.not_mem_nil⟩, rfl, rfl⟩
  rw [World.greet]
  split_ifs
  · exact Frame.trans _ (refusing_close w k) (Frame.trans _ (hmake _) (refusing_close _ k))
  · exact Frame.trans _ (hmake _) (refusing_close _ k)
  · exact Frame.trans _ (refusing_close w k) (hmake _)
  · exact hmake w

/-- A CONNACK with an error is written. -/
theorem refusing_write (w : World) {returnCode : Nat} (h : returnCode ≠ 0) :
    (Refusing k).rel w (w.write k (.connack (mqttConnack false returnCode))) := by
  refine ⟨⟨rfl, rfl, rfl, rfl, fun _ _ => rfl, [_], rfl, fun e he => ?_⟩, rfl, rfl⟩
  obtain rfl := List.mem_singleton.1 he
  exact h

/-! ## Steps -/

theorem joiningOf_eq_none {draws : List (Nat × Nat)} {packet : MqttConnect} :
    w.joiningOf cfg draws k packet = none ↔ ¬w.Passes cfg draws packet := by
  rw [World.joiningOf, World.Passes]
  cases w.checkIntegrity draws packet with
  | none => simp
  | some r =>
    obtain ⟨returnCode, packet'⟩ := r
    simp only
    split_ifs with hcode hadmin hauth <;> simp_all

theorem joining_eq_none_iff : w.joining cfg e = none ↔
    ∀ packet ∈ e.connect, ¬w.Passes cfg e.draws packet := by
  rw [World.joining, Option.bind_eq_none_iff]
  exact forall₂_congr fun _ _ => joiningOf_eq_none

/-- A CONNECT that is not accepted leaves everything but its channel alone. -/
theorem untouched_of_not_joining (hst : (broker cfg).step w e = some w') {packet : MqttConnect}
    (hp : e.connect = some packet) (hj : w.joining cfg e = none) :
    w.Untouched w' e.action.channelId := by
  obtain ⟨p, hpacket, hconnect⟩ := Option.bind_eq_some_iff.1 hp
  obtain rfl : p = .connect packet := by
    cases p <;> cases hconnect
    rfl
  obtain ⟨-, t, hrun, rfl⟩ := (step_eq_some cfg).1 hst
  obtain ⟨sb, rest, hact, -⟩ := packet_eq_some hpacket
  rw [program_of_packet hpacket] at hrun
  rw [World.joining, hp] at hj
  have hrel : (Refusing e.action.channelId).rel w t :=
    Frame.trans _ (refusing_greet w _ packet)
      (Frame.trans _ (rel_handleConnect_of_not_joining (fun _ _ => refusing_write _) hj)
        (rel_guarded (fun w => refusing_close w _) hrun))
  rw [hact] at hrel ⊢
  exact hrel

/-- The history goes on. -/
def Recording : Frame World where
  rel w w' := w.log <+: w'.log
  refl _ := List.prefix_refl _
  trans := List.IsPrefix.trans

theorem recording_publishFrame : PublishFrame Recording where
  counter _ _ _ := List.prefix_refl _
  publish client maxQos retained packet := within_publish (fun _ _ => List.prefix_refl _)
    (fun _ _ => List.prefix_append _ _) (fun _ _ _ => List.prefix_append _ _) maxQos retained
  store p packet w := by
    refine ⟨[], ?_⟩
    rw [World.storeRetained_eq, List.append_nil]
  noteWill _ _ := List.prefix_append _ _
  note retain _ _ _ := rel_noteRetain (fun _ => List.prefix_append _ _) retain

/-- An accepted CONNECT is answered with the return code 0. -/
theorem not_unaffected_of_joining (hst : (broker cfg).step w e = some w') {j : Joining}
    (hj : w.joining cfg e = some j) : ¬w.Unaffected w' k := by
  intro h
  obtain ⟨hk, ⟨rest, hrest⟩⟩ := rel_step_joining (F := Recording) (fun _ => List.prefix_refl _)
    (fun it => recording_publishFrame.publishRetainedMessage it _) hst hj
  obtain ⟨c, sessionPresent, again, hjoined, -⟩ := log_joined cfg w j hk
  obtain ⟨rest', hrest', hnone⟩ := h.answers
  rw [hjoined, List.append_assoc, hrest'] at hrest
  refine hnone _ ?_ (show Effect.Accepts (.write j.channelId (some c)
    (.connack (mqttConnack sessionPresent 0x00))) from rfl)
  rw [← List.append_cancel_left hrest]
  exact List.mem_append_left _ (List.mem_cons_of_mem _ List.mem_cons_self)

/-- A CONNECT that is to be refused leaves everything but its channel alone
    exactly when it would be refused on any channel: `check_integrity` returns an
    error, or who sends it is not authenticated. -/
theorem refused_unaffected_iff (_ : (broker cfg).Run l w)
    (hst : (broker cfg).step w e = some w') {packet : MqttConnect}
    (hp : e.connect = some packet) (_ : Refuses cfg l e) :
    w.Unaffected w' e.action.channelId ↔ ¬w.Passes cfg e.draws packet := by
  have hjoining : w.joining cfg e = none ↔ ¬w.Passes cfg e.draws packet := by
    rw [joining_eq_none_iff, hp]
    simp
  rw [← hjoining]
  constructor
  · intro h
    cases hj : w.joining cfg e with
    | none => rfl
    | some j => exact absurd h (not_unaffected_of_joining hst hj)
  · exact fun hj => (untouched_of_not_joining hst hp hj).toUnaffected

/-- A CONNECT for another protocol, with an id that no client may have, is
    answered with an error. -/
theorem refused_unaffected_id : ∃ l w e w', (broker mqttdCfg).Run l w ∧
    (broker mqttdCfg).step w e = some w' ∧ Refuses mqttdCfg l e ∧
      w.Unaffected w' e.action.channelId := by
  have hruns : runs (fun _ _ => true) [.accept 1] (fun w => ((broker mqttdCfg).step w
      (Action.read 1 (packetBytes 0x10 (lengthPrefixed [0x4d] ++ [0x04, 0x02, 0x00, 0x3c] ++
        lengthPrefixed [0x2f]))).event).any fun _ => true) = true := by
    decide +kernel
  obtain ⟨l, w, w', hl, -, hst, -⟩ := exists_run_step hruns
  have hrefuses : Refuses mqttdCfg l (Action.read 1 (packetBytes 0x10 (lengthPrefixed [0x4d] ++
      [0x04, 0x02, 0x00, 0x3c] ++ lengthPrefixed [0x2f]))).event :=
    ⟨_, rfl, .inl (by decide)⟩
  refine ⟨l, w, _, w', hl, hst, hrefuses, (refused_unaffected_iff hl hst rfl hrefuses).2 ?_⟩
  -- `check_integrity` looks at the id first.
  rintro ⟨r, hcheck, hcode, -⟩
  cases hcheck
  cases hcode

/-- A second CONNECT on a channel is accepted, and the client there is another
    one. -/
theorem second_connect_accepted : ¬∀ l w e w', (broker mqttdCfg).Run l w →
    (broker mqttdCfg).step w e = some w' → Refuses mqttdCfg l e →
      w.Unaffected w' e.action.channelId := by
  intro h
  have hruns : runs (fun _ _ => true) [.accept 1]
      (fun w => ((broker mqttdCfg).step w (Action.read 1 (connectBytes 0x02 [0x61] [])).event).any
        fun v => (w.joining mqttdCfg (Action.read 1 (connectBytes 0x02 [0x61] [])).event).isSome &&
          ((broker mqttdCfg).step v (Action.read 1 (connectBytes 0x02 [0x62] [])).event).any
            fun w' => decide (w'.param 1 ≠ v.param 1)) = true := by
    decide +kernel
  obtain ⟨l, w, v, hl, -, hst, hp⟩ := exists_run_step hruns
  obtain ⟨hj, hp⟩ := Bool.and_eq_true_iff.1 hp
  obtain ⟨j, hj⟩ := Option.isSome_iff_exists.1 hj
  obtain ⟨w', hst', hp⟩ := (Option.any_eq_true _ _).1 hp
  have hrefuses : Refuses mqttdCfg (l ++ [(w, (Action.read 1 (connectBytes 0x02 [0x61] [])).event)])
      (Action.read 1 (connectBytes 0x02 [0x62] [])).event := by
    refine ⟨_, rfl, .inr ⟨l, _, [], rfl, ⟨j, hj, (joining_eq_some hj).2.1.symm⟩, ?_⟩⟩
    exact fun y hy => absurd hy List.not_mem_nil
  exact of_decide_eq_true hp (congrFun (h _ v _ w' (hl.step hst) hst' hrefuses).param 1)

end MqttBroker
