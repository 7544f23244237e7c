import MqttBroker.Access.Refusals

/-!
# Strangers

With authentication, a channel on which no CONNECT passes `check_integrity` and
comes from an admin or an authenticated user (`Strange`) does nothing to the
broker and learns nothing from it (`stranger_untouched`). The reason is an
invariant that what is done on other channels keeps, too: nobody is at the
channel, and no client anywhere has it for its own (`World.Shuns`).
-/

namespace MqttBroker

open Prog

/-- A CONNECT passes `check_integrity`, and comes from an admin or an
    authenticated user. -/
def World.Authenticates (cfg : Config) (w : World) (draws : List (Nat × Nat))
    (packet : MqttConnect) : Prop :=
  ∃ r ∈ w.checkIntegrity draws packet, r.1 = 0x00 ∧
    (cfg.isAdmin r.2.username r.2.password ∨ cfg.authenticate r.2.username r.2.password)

/-- No CONNECT of the event authenticates on the channel. -/
def World.Strange (cfg : Config) (k : ChannelId) (w : World) (e : Event) : Prop :=
  e.action.channelId = k → ∀ packet ∈ e.connect, ¬w.Authenticates cfg e.draws packet

instance (cfg : Config) (k : ChannelId) (w : World) (e : Event) :
    Decidable (w.Strange cfg k e) :=
  inferInstanceAs (Decidable (_ → ∀ packet ∈ e.connect, ¬∃ r ∈ w.checkIntegrity e.draws packet, _))

/-- A packet that is written to a channel is a CONNACK with an error. -/
def Effect.RefusesOn (k : ChannelId) : Effect → Prop
  | .write k' _ p => k' = k → ∃ returnCode ≠ 0, p = .connack (mqttConnack false returnCode)
  | _ => True

/-- No client is at the channel, none that is at another channel or subscribes
    has it for its own, and only CONNACKs with an error were written to it. -/
structure World.Shuns (w : World) (k : ChannelId) : Prop where
  param : w.param k = none
  holder {k' c} : w.param k' = some c → c.channelId ≠ k
  subscriber {p s} : s ∈ w.subscribersAt p → s.client.channelId ≠ k
  refused : ∀ e ∈ w.log, e.RefusesOn k

variable {cfg : Config} {w v w' : World} {e : Event} {k : ChannelId} {c : MqttClient}
  {l : List (World × Event)}

namespace World.Shuns

/-- A channel with a client is another one. -/
theorem ne_of_param (h : w.Shuns k) {k' : ChannelId} (hc : w.param k' = some c) : k' ≠ k := by
  rintro rfl
  exact Option.some_ne_none c (hc.symm.trans h.param)

/-- The channels, the subscribers and the history are all that matters. -/
theorem of_same (h : w.Shuns k) (hparam : w'.param = w.param)
    (hsubscribers : ∀ p, ∀ s ∈ w'.subscribersAt p, s ∈ w.subscribersAt p) (hlog : w'.log = w.log) :
    w'.Shuns k where
  param := by rw [hparam, h.param]
  holder hc := h.holder (by rwa [hparam] at hc)
  subscriber hs := h.subscriber (hsubscribers _ _ hs)
  refused := by
    rw [hlog]
    exact h.refused

theorem record (h : w.Shuns k) {a : Effect} (ha : a.RefusesOn k) : (w.record a).Shuns k where
  param := h.param
  holder := h.holder
  subscriber {p s} hs := h.subscriber (p := p) (by cases p <;> exact hs)
  refused a' ha' := by
    rcases List.mem_append.1 ha' with ha' | ha'
    · exact h.refused a' ha'
    · obtain rfl := List.mem_singleton.1 ha'
      exact ha

theorem write (h : w.Shuns k) {k' : ChannelId} (hk : k' ≠ k) (p : Packet) :
    (w.write k' p).Shuns k := h.record fun he => absurd he hk

theorem modifySession (h : w.Shuns k) (s : SessionRef) (f : Session → Session) :
    (w.modifySession s f).Shuns k :=
  h.of_same rfl (fun p s hs => by cases p <;> exact hs) rfl

theorem subscribe (h : w.Shuns k) (hc : c.channelId ≠ k) (f : Bytes) (q : Nat) (b : Bool) :
    (w.subscribe c f q b).Shuns k := by
  have heq := w.subscribe_eq c f q b
  refine ⟨?_, fun hc' => ?_, fun hs => ?_, ?_⟩
  · rw [heq]
    exact h.param
  · rw [heq] at hc'
    exact h.holder hc'
  · rcases w.mem_subscribersAt_subscribe c hs with rfl | hs
    · exact hc
    · exact h.subscriber hs
  · rw [heq]
    exact h.refused

theorem unsubscribe (h : w.Shuns k) (c : MqttClient) (f : Bytes) (b : Bool) :
    (w.unsubscribe c f b).Shuns k := by
  have heq := w.unsubscribe_eq c f b
  refine h.of_same ?_ (fun p s hs => ((w.mem_subscribersAt_unsubscribe c).1 hs).1) ?_
  · rw [heq]
    rfl
  · rw [heq]

/-- A client that leaves is nowhere afterwards where it was not before. -/
theorem remove (h : w.Shuns k) (c : MqttClient) : (w.remove c).Shuns k := by
  have hall := rel_unsubscribeAll (F := Frame.keeping fun w => w.Shuns k) (c := c)
    (fun w f b (h : w.Shuns k) => h.unsubscribe c f b) w h
  rw [World.remove]
  split_ifs <;> exact hall.of_same rfl (fun p s hs => by cases p <;> exact hs) rfl

theorem setParam_none (h : w.Shuns k) (k' : ChannelId) : (w.setParam k' none).Shuns k where
  param := by
    rw [World.param_setParam_none, Function.update_apply, h.param, ite_self]
  holder hc := by
    rw [World.param_setParam_none, Function.update_apply] at hc
    split_ifs at hc
    exact h.holder hc
  subscriber {p s} hs := h.subscriber (p := p) (by cases p <;> exact hs)
  refused := h.refused

end World.Shuns

/-! ## Steps -/

/-- The invariant is kept. -/
def Shunning (k : ChannelId) : Frame World := Frame.keeping fun w => w.Shuns k

/-- Publishing goes to clients with other channels. -/
theorem shunning_recipientFrame : RecipientFrame (Shunning k) fun c => c.channelId ≠ k where
  counter s w next h := h.modifySession s _
  publish {client} maxQos retained packet hc := within_publish
    (fun _ _ h => h.modifySession _ _)
    (fun w publish h => (h.record (a := .addressed client publish) trivial).modifySession _ _)
    (fun _ _ _ h => h.write hc _) maxQos retained
  store p packet w h := by
    refine h.of_same ?_ (fun p' s hs => ?_) ?_
    · rw [World.storeRetained_eq]
      rfl
    · rwa [World.subscribersAt_storeRetained] at hs
    · rw [World.storeRetained_eq]
  note retain _ _ _ := rel_noteRetain (fun _ h => h.record trivial) retain
  -- Where the invariant does not hold before, it need not hold after.
  subscriber {w p s} hs := by
    by_cases h : w.Shuns k
    · exact .inl (h.subscriber hs)
    · exact .inr fun _ hw => absurd hw h
  holder {w k' c} hc := by
    by_cases h : w.Shuns k
    · exact .inl (h.holder hc)
    · exact .inr fun _ hw => absurd hw h

theorem shunning_stepFrame (w : World) (e : Event) : StepFrame (Shunning k) w e where
  channels {v v'} hv hparam _ h := by
    refine h.of_same hparam (fun p s hs => ?_) (by rw [hv])
    rw [hv] at hs
    cases p <;> exact hs
  answer hc hk _ h := by
    -- The broker answers a client at its channel, which is not `k`.
    rcases hk with rfl | rfl
    · exact h.write (h.ne_of_param hc) _
    · exact h.write (h.holder hc) _
  refuse _ _ hcode h := h.record fun _ => ⟨_, hcode, rfl⟩
  retained it fs gs := shunning_recipientFrame.publishRetainedMessage it _ fs gs
  forward _ _ _ := shunning_recipientFrame.forwardPublish _ _
  will {w' c} _ _ hrun := by
    have hrel := shunning_recipientFrame (k := k).publishWillMessage c w
    rw [hrun] at hrel
    exact fun h => hrel (h.record trivial)
  subscribe hc _ _ _ h := (h.subscribe (h.holder hc) _ _ _).modifySession _ _
  subscribeTrash {v c} hc _ h := by
    refine ⟨h.param, h.holder, fun {p s} hs => ?_, h.refused⟩
    cases p with
    | trash =>
      rcases Keyed.mem_put.1 hs with rfl | ⟨hs, -⟩
      · exact h.holder hc
      · exact h.subscriber (p := .trash) hs
    | entry b f => exact h.subscriber (p := .entry b f) hs
  unsubscribe {v c entry} _ _ h := by
    rw [World.unsubscribeEntry]
    split
    · exact h
    · exact (h.unsubscribe c _ _).modifySession _ _
  leave _ h := (h.setParam_none _).remove _

/-- A client at another channel is served. -/
theorem World.Shuns.served (h : w.Shuns k) {k' : ChannelId} (hc : w.param k' = some c)
    (p : Packet) : (w.served k' c p).Shuns k := by
  have hk := h.ne_of_param hc
  have hv : (w.record (.handled c p)).Shuns k := h.record trivial
  cases p with
  | publish m =>
    show (World.receivePublish _ _ _ _).Shuns k
    rw [World.receivePublish]
    split_ifs
    · exact hv.write hk _
    · exact (hv.modifySession _ _).write hk _
    · exact hv
  | puback | pubrec | pubrel | pubcomp =>
    rw [World.served]
    exact hv.modifySession _ _
  | subscribe | unsubscribe | pingreq | disconnect => exact hv
  | connect | connack | suback | unsuback | pingresp => exact h

theorem World.Shuns.greet (h : w.Shuns k) (k' : ChannelId) (packet : MqttConnect) :
    (w.greet cfg k' packet).Shuns k := by
  obtain ⟨htopics, htrash⟩ := w.topics_greet k' cfg packet
  refine h.of_same (w.param_greet k' cfg packet) (fun p s hs => ?_) (w.log_greet k' cfg packet)
  rwa [w.subscribersAt_of_topics htopics htrash] at hs

/-- A client connects at another channel. -/
theorem World.Shuns.joined (h : w.Shuns k) (j : Joining) (hk : (w.contexts j.channelId).isSome)
    (hne : j.channelId ≠ k) : (w.joined cfg j).Shuns k := by
  obtain ⟨s, sessionPresent, v, -, hothers, hlog, ⟨htopics, htrash⟩, hcases⟩ :=
    joined_cases cfg w j hk
  have hv : v.Shuns k := by
    refine ⟨?_, fun {k' c} hc => ?_, fun {p s} hs => ?_, fun a ha => ?_⟩
    · cases hc : v.param k with
      | none => rfl
      | some c =>
        rcases hothers k c hc with ⟨heq, -⟩ | hc
        · exact absurd heq.symm hne
        · exact hc.symm.trans h.param
    · rcases hothers k' c hc with ⟨-, rfl⟩ | hc
      · exact hne
      · exact h.holder hc
    · rw [w.subscribersAt_of_topics htopics htrash] at hs
      exact h.subscriber hs
    · rw [hlog] at ha
      rcases List.mem_append.1 ha with ha | ha
      · exact h.refused a ha
      · rcases List.mem_pair.1 ha with rfl | rfl
        · trivial
        · exact fun heq => absurd heq hne
  rcases hcases with ⟨-, -, -, hw⟩ | ⟨-, -, -, hw⟩
  · -- What the session is sent again goes to the channel of the newcomer.
    rw [hw]
    refine rel_redeliver (F := Shunning k) (fun w h => h.modifySession _ _)
      (fun w h => h.modifySession _ _) (fun w p h => h.write hne p) _ ?_
    exact rel_resubscribe (F := Shunning k) (fun sub _ v h => h.subscribe hne _ _ _) hv
  · rw [hw]
    exact hv

theorem shuns_start (k : ChannelId) : World.start.Shuns k where
  param := rfl
  holder hc := by cases hc
  subscriber {p s} hs := by cases p <;> exact absurd hs List.not_mem_nil
  refused _ ha := absurd ha List.not_mem_nil

/-- With authentication, a stranger's CONNECT is not accepted. -/
theorem joining_eq_none_of_strange (hauth : cfg.authentication = true)
    (hk : e.action.channelId = k) (h : w.Strange cfg k e) : w.joining cfg e = none := by
  refine joining_eq_none_iff.2 fun packet hp => ?_
  rintro ⟨r, hr, hcode, hadmin | hoff | huser⟩
  · exact h hk packet hp ⟨r, hr, hcode, .inl hadmin⟩
  · exact Bool.noConfusion (hauth.symm.trans hoff)
  · exact h hk packet hp ⟨r, hr, hcode, .inr huser⟩

theorem shuns_step (hauth : cfg.authentication = true) (hst : (broker cfg).step w e = some w')
    (h : w.Shuns k) (hstrange : w.Strange cfg k e) : w'.Shuns k := by
  refine (shunning_stepFrame w e).step hst ?_
  rcases received_cases cfg w e with ⟨j, hj, hw⟩ | ⟨-, ⟨packet, -, hw⟩ | ⟨c, p, -, hc, -, hw⟩ | hw⟩ <;>
    rw [hw]
  · refine h.joined j (isSome_contexts_of_joining hst hj) fun heq => ?_
    have hnone := joining_eq_none_of_strange hauth ((joining_eq_some hj).2.1.trans heq) hstrange
    exact Option.some_ne_none j (hj.symm.trans hnone)
  · exact h.greet _ _
  · exact h.served hc p
  · exact h

/-! ## The channel of a stranger -/

/-- As long as nobody is at the channel, everything but the channel is left
    alone. -/
def Alone (k : ChannelId) : Frame World where
  rel w w' := w.param k = none → w.Untouched w' k
  refl w _ := (Refusing k).refl w
  trans h₁ h₂ h := (Refusing k).trans (h₁ h) (h₂ ((congrFun (h₁ h).param k).trans h))

theorem alone_stepFrame (hw : w.param e.action.channelId = none) :
    StepFrame (Alone e.action.channelId) w e where
  channels {v v'} hv hparam hothers _ := by
    refine ⟨⟨?_, ?_, ?_, hparam, hothers, [], ?_, fun _ ha => absurd ha List.not_mem_nil⟩, ?_, ?_⟩
    · rw [hv]
    · rw [hv]
    · rw [hv]
    · rw [hv, List.append_nil]
    · rw [hv]
    · rw [hv]
  answer hc _ _ h := absurd (hc.symm.trans h) (Option.some_ne_none _)
  refuse v _ hcode _ := refusing_write v hcode
  retained it fs gs := within_publishRetainedMessage_of it _ fs gs fun _ _ _ m _ _ =>
    .inl fun p v h => rel_publishRetained (F := Alone e.action.channelId)
      (fun _ _ hc => absurd (hc.symm.trans h) (Option.some_ne_none _)) h
  forward hc _ _ := absurd (hc.symm.trans hw) (Option.some_ne_none _)
  will _ hc _ := absurd (hc.symm.trans hw) (Option.some_ne_none _)
  subscribe hc _ _ _ h := absurd (hc.symm.trans h) (Option.some_ne_none _)
  subscribeTrash hc _ h := absurd (hc.symm.trans h) (Option.some_ne_none _)
  unsubscribe hc _ h := absurd (hc.symm.trans h) (Option.some_ne_none _)
  leave hc h := absurd (hc.symm.trans h) (Option.some_ne_none _)

/-- Without a client, and without an accepted CONNECT, a step leaves everything
    but its channel alone. -/
theorem untouched_step (hst : (broker cfg).step w e = some w')
    (hw : w.param e.action.channelId = none) (hj : w.joining cfg e = none) :
    w.Untouched w' e.action.channelId := by
  have hrest := (alone_stepFrame hw).step hst
  rcases received_cases cfg w e with ⟨j, hj', -⟩ | ⟨-, ⟨packet, -, h⟩ | ⟨c, p, -, hc, -⟩ | h⟩
  · exact absurd (hj'.symm.trans hj) (Option.some_ne_none j)
  · rw [h] at hrest
    exact (Refusing _).trans (refusing_greet w _ packet)
      (hrest ((congrFun (w.param_greet _ cfg packet) _).trans hw))
  · exact absurd (hc.symm.trans hw) (Option.some_ne_none c)
  · rw [h] at hrest
    exact hrest hw

/-- With authentication, a channel on which no CONNECT authenticates is only
    written CONNACKs with an error, and leaves everything but itself alone. -/
theorem stranger_untouched (hauth : cfg.authentication = true) (h : (broker cfg).Run l w)
    (hstrange : ∀ x ∈ l, x.1.Strange cfg k x.2) :
    (∀ a ∈ w.log, a.RefusesOn k) ∧
      ∀ e w', (broker cfg).step w e = some w' → e.action.channelId = k → w.Strange cfg k e →
        w.Untouched w' k ∧ ∀ p, e.packet = some p → (∀ packet, p ≠ .connect packet) →
          ∃ what, packetHandler cfg e.iteration e.draws k p w = (.thrown what, w) := by
  have hshuns : w.Shuns k := h.invariant (I := fun w => w.Shuns k)
    (P := fun w e => w.Strange cfg k e) (shuns_start k)
    (fun _ _ _ h hs hst => shuns_step hauth hst h hs) hstrange
  refine ⟨hshuns.refused, fun e w' hst hk hs => ⟨?_, fun p _ hp => ?_⟩⟩
  · have hj := joining_eq_none_of_strange hauth hk hs
    rw [← hk] at hshuns ⊢
    exact untouched_step hst hshuns.param hj
  · exact packetHandler_of_none hshuns.param hp

/-- The values in `mqttd.cfg`, but with authentication. -/
def askingCfg : Config := { mqttdCfg with authentication := true }

/-- A user is connected, and a stranger with a wrong password publishes. -/
theorem stranger_untouched_publish : ∃ l w e w', (broker askingCfg).Run l w ∧
    (w.param 1).isSome = true ∧ e.packet.isSome = true ∧ (broker askingCfg).step w e = some w' ∧
      w.Untouched w' 2 := by
  have hruns : ((broker askingCfg).exec (fun w e => decide (w.Strange askingCfg 2 e))
      ([.accept 1, .accept 2,
        .read 1 (connectBytes 0xc2 [0x61] (lengthPrefixed mqttdCfg.username ++
          lengthPrefixed mqttdCfg.password)),
        .read 2 (connectBytes 0xc2 [0x61] (lengthPrefixed mqttdCfg.username ++
          lengthPrefixed [0x70]))].map Action.event)).any (fun w => (w.param 1).isSome &&
        ((broker askingCfg).step w
          (Action.read 2 (publishBytes 0x00 [0x74] [] [0x01])).event).isSome) = true := by
    decide +kernel
  obtain ⟨w, hw, hp⟩ := (Option.any_eq_true _ _).1 hruns
  obtain ⟨l, hl, hok⟩ := Machine.exec_run hw
  obtain ⟨hc, hp⟩ := Bool.and_eq_true_iff.1 hp
  obtain ⟨w', hst⟩ := Option.isSome_iff_exists.1 hp
  refine ⟨l, w, _, w', hl, hc, rfl, hst, ?_⟩
  exact ((stranger_untouched rfl hl fun x hx => of_decide_eq_true (hok x hx)).2 _ w' hst rfl
    fun _ _ h => nomatch h).1

end MqttBroker
