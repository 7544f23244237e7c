import MqttBroker.Delivery.Outcomes

/-!
# Closed channels

Which channels a call closes is known before it begins (`World.closes`): its own,
when a timer ran out, when nobody is there after a write, when what was read is
refused, and on a second CONNECT and on another protocol; and that of the client an
accepted CONNECT displaces. Between two states this is the relation `World.Shuts`,
and what closes no channel is a frame (`Latched`).

So a channel is closed exactly if a call closed it and it is not gone since
(`closed_run_iff`).
-/

namespace MqttBroker

open Prog

variable {cfg : Config} {w v w' : World} {e : Event} {k : ChannelId} {p : Packet}
  {l : List (World × Event)} {ks ls : List ChannelId}

/-- The channel is there, and was closed. -/
def World.closed (w : World) (k : ChannelId) : Bool := (w.contexts k).any Context.closed

/-- The channels that a CONNECT closes. -/
def World.connectCloses (cfg : Config) (w : World) (e : Event) (packet : MqttConnect) :
    List ChannelId :=
  (if (w.param e.action.channelId).isSome ∨ packet.protocolName ≠ cfg.protocolName then
      [e.action.channelId] else []) ++
    ((w.joining cfg e).bind fun j => w.getClientPtr j.clientId).elim [] fun old => [old.channelId]

/-- The channels that a call closes, if they are there. -/
def World.closes (cfg : Config) (w : World) (e : Event) : List ChannelId :=
  match e.action with
  | .userEvent k => [k]
  | .written k => if (w.param k).isNone then [k] else []
  | .read k sb =>
    if (w.refusal k sb).isSome then [k] else e.connect.elim [] (w.connectCloses cfg e)
  | .accept _ | .disconnected _ => []

/-- From `w` to `w'` the channels `ks` are closed, if they are there, and no channel
    comes or goes. -/
def World.Shuts (w : World) (ks : List ChannelId) (w' : World) : Prop :=
  ∀ k, (w'.contexts k).map Context.closed =
    (w.contexts k).map fun ctx => ctx.closed || decide (k ∈ ks)

namespace World.Shuts

theorem closed (h : w.Shuts ks w') (k : ChannelId) :
    w'.closed k = true ↔ w.closed k = true ∨ (w.contexts k).isSome ∧ k ∈ ks := by
  have hk := h k
  rw [World.closed, World.closed]
  cases hw : w.contexts k <;> cases hw' : w'.contexts k <;> rw [hw, hw'] at hk
  · simp
  · cases hk
  · cases hk
  · have hclosed := Option.some.inj hk
    simp [hclosed]

theorem of_contexts (h : w'.contexts = w.contexts) : w.Shuts [] w' := by
  intro k
  rw [h]
  cases w.contexts k <;> simp

theorem trans (h : w.Shuts ks v) (h' : v.Shuts ls w') : w.Shuts (ks ++ ls) w' := by
  intro k
  have hmap : ∀ v : World, (v.contexts k).map (fun ctx => ctx.closed || decide (k ∈ ls)) =
      ((v.contexts k).map Context.closed).map (· || decide (k ∈ ls)) :=
    fun v => (Option.map_map (· || decide (k ∈ ls)) Context.closed _).symm
  rw [h' k, hmap, h k, Option.map_map]
  refine congrArg (fun f => (w.contexts k).map f) (funext fun ctx => ?_)
  simp [Bool.or_assoc]

theorem append_nil (h : w.Shuts ks v) (h' : v.Shuts [] w') : w.Shuts ks w' :=
  ks.append_nil ▸ h.trans h'

end World.Shuts

/-- No channel is closed, and none comes or goes. -/
def Latched : Frame World where
  rel w w' := w.Shuts [] w'
  refl _ := .of_contexts rfl
  trans h₁ h₂ := h₁.append_nil h₂

/-! ## What the handlers close -/

theorem shuts_close (w : World) (k : ChannelId) : w.Shuts [k] (w.close k) := by
  intro k'
  simp only [World.close, World.modifyContext, Function.update_apply, List.mem_singleton]
  split_ifs with hk
  · subst hk
    cases w.contexts k' <;> simp
  · cases w.contexts k' <;> simp [hk]

/-- Attaching and detaching a client closes nothing. -/
theorem latched_setParam (w : World) (k : ChannelId) (c : Option MqttClient) :
    Latched.rel w (w.setParam k c) := by
  intro k'
  simp only [World.setParam, World.modifyContext, Function.update_apply]
  split_ifs with hk
  · subst hk
    cases w.contexts k' <;> simp
  · cases w.contexts k' <;> simp

theorem within_latched_of_still {α : Type} {m : Server α} (h : Within Still m) :
    Within Latched m := fun w => .of_contexts (h w)

theorem latched_remove (w : World) (c : MqttClient) : Latched.rel w (w.remove c) := by
  refine .of_contexts ?_
  rw [World.remove_eq]

/-- A channel is closed as far as the condition says. -/
theorem shuts_ite (w : World) (k : ChannelId) (b : Prop) [Decidable b] :
    w.Shuts (if b then [k] else []) (if b then w.close k else w) := by
  split_ifs
  · exact shuts_close w k
  · exact Latched.refl w

/-- The beginning of `handle_connect`. -/
theorem shuts_greet (cfg : Config) (w : World) (k : ChannelId) (packet : MqttConnect) :
    w.Shuts (if (w.param k).isSome ∨ packet.protocolName ≠ cfg.protocolName then [k] else [])
      (w.greet cfg k packet) := by
  -- A new client is made in between.
  have hagain : w.Shuts (if (w.param k).isSome then [k] else [])
      { (if (w.param k).isSome then w.close k else w) with
        nextAddr := (if (w.param k).isSome then w.close k else w).nextAddr + 1 } :=
    (shuts_ite w k (w.param k).isSome).append_nil (.of_contexts rfl)
  have hall := hagain.trans (shuts_ite _ k (packet.protocolName ≠ cfg.protocolName))
  intro k'
  refine (hall k').trans (congrArg (fun f => (w.contexts k').map f) (funext fun ctx => ?_))
  congr 1
  by_cases hagain : (w.param k).isSome <;>
    by_cases hprotocol : packet.protocolName = cfg.protocolName <;> simp [hagain, hprotocol]

/-- The channel of the client that is displaced. -/
theorem shuts_takeOver (w : World) (x : Bytes) :
    w.Shuts ((w.getClientPtr x).elim [] fun old => [old.channelId]) (w.takeOver x) := by
  rw [World.takeOver]
  cases w.getClientPtr x with
  | none => exact Latched.refl w
  | some old =>
    have hdeleted : Latched.rel w (w.deleteClientPtr x) := .of_contexts rfl
    exact (Latched.trans hdeleted (latched_setParam _ _ none)).trans (shuts_close _ _)

/-- What follows the displacement in an accepted CONNECT. -/
theorem latched_establish (w : World) (k : ChannelId) (c : MqttClient) (x : Bytes) :
    Latched.rel (w.takeOver x) (w.establish k c x).2.2 := by
  have hregistered : ∀ (v : World) r p, v.contexts = (w.takeOver x).contexts →
      Latched.rel (w.takeOver x) (((v.regClientPtr r).setParam k (some r)).write k p) := by
    intro v r p hv
    have hreg : (v.regClientPtr r).contexts = v.contexts := by rw [World.regClientPtr_eq]
    have hset := Latched.trans (.of_contexts (hreg.trans hv)) (latched_setParam _ k (some r))
    exact hset
  exact hregistered _ _ _ ((w.takeOver x).attachSession_frame c).1

/-- An accepted CONNECT, up to the retained messages. -/
theorem shuts_joined (cfg : Config) (w : World) (j : Joining) : w.Shuts
    ((if (w.param j.channelId).isSome ∨ j.packet.protocolName ≠ cfg.protocolName then
        [j.channelId] else []) ++
      (w.getClientPtr j.clientId).elim [] fun old => [old.channelId]) (w.joined cfg j) := by
  have hgreet := shuts_greet cfg w j.channelId j.packet
  revert hgreet
  generalize (if (w.param j.channelId).isSome ∨ j.packet.protocolName ≠ cfg.protocolName then
    [j.channelId] else []) = ks
  intro hgreet
  have htakeOver := shuts_takeOver (w.greet cfg j.channelId j.packet) j.clientId
  have hclient : (w.greet cfg j.channelId j.packet).getClientPtr j.clientId =
      w.getClientPtr j.clientId := by
    rw [World.greet]
    split_ifs <;> rfl
  rw [hclient] at htakeOver
  have hestablish := (hgreet.trans htakeOver).append_nil
    (latched_establish _ j.channelId (j.client w) j.clientId)
  rw [World.joined]
  split_ifs
  · refine hestablish.append_nil (.of_contexts ?_)
    rw [World.redeliver_eq, World.resubscribe_eq]
  · exact hestablish

theorem within_agent (k : ChannelId) (p : Packet) : Within Latched (agent k p) := by
  refine within_get_bind fun w => ?_
  cases w.param k with
  | none => exact Latched.refl w
  | some c => exact .of_contexts rfl

/-- The loop body of `handle_subscribe`. -/
theorem latched_subscribeEntry (c : MqttClient) (g : Granting) (entry : SubscribeEntry) :
    Within Latched (subscribeEntry c g entry) := by
  have hcode : ∀ (g : Granting) returnCode, Within Latched (g.code returnCode) :=
    fun _ _ => within_bind (within_ofExcept _) fun _ => within_pure _
  have hsubscribe : ∀ w : World, Latched.rel w (w.subscribeEntry c entry) := by
    refine fun w => .of_contexts ?_
    show (w.subscribe c _ _ _).contexts = w.contexts
    rw [World.subscribe_eq]
  rw [subscribeEntry]
  split_ifs
  · exact within_bind (within_modify fun _ => .of_contexts rfl) fun _ => hcode _ _
  · exact hcode _ _
  · exact hcode _ _
  · exact within_bind (within_modify hsubscribe) fun _ => hcode _ _
  · exact within_bind (within_modify hsubscribe) fun _ => hcode _ _
  · exact hcode _ _

/-- The loop of `handle_unsubscribe`. -/
theorem latched_unsubscribeEntries (c : MqttClient) (entries : List UnsubscribeEntry) (w : World) :
    Latched.rel w (entries.foldl (fun w entry => w.unsubscribeEntry c entry) w) := by
  induction entries generalizing w with
  | nil => exact Latched.refl w
  | cons entry entries ih =>
    refine Latched.trans (.of_contexts ?_) (ih (w.unsubscribeEntry c entry))
    rw [World.unsubscribeEntry]
    split
    · rfl
    · show (w.unsubscribe c _ _).contexts = w.contexts
      rw [World.unsubscribe_eq]

/-- The handlers of all packets but CONNECT close no channel. -/
theorem within_packetHandler (cfg : Config) (it : Iteration) (draws : List (Nat × Nat))
    (k : ChannelId) (hconnect : ∀ packet, p ≠ .connect packet) :
    Within Latched (packetHandler cfg it draws k p) := by
  have hmodify : ∀ f : World → World, (∀ w, (f w).contexts = w.contexts) →
      Within Latched (modify f : Server Unit) := fun f hf => within_modify fun w => .of_contexts (hf w)
  have hwrite : ∀ k q, Within Latched (write k q) := fun k q => hmodify _ fun _ => rfl
  have hretained := fun fs gs => within_latched_of_still
    (still_publishFrame.publishRetainedMessage it k fs gs)
  cases p with
  | connect packet => exact absurd rfl (hconnect packet)
  | connack | suback | unsuback | pingresp => exact within_throw _
  | publish m =>
    refine within_bind (within_agent _ _) fun c => within_bind (hmodify _ fun w => ?_) fun _ =>
      within_latched_of_still (still_publishFrame.forwardPublish it m)
    show (w.receivePublish k c m).contexts = w.contexts
    rw [World.receivePublish]
    split_ifs <;> rfl
  | puback a | pubcomp a =>
    exact within_bind (within_agent _ _) fun c => hmodify _ fun _ => rfl
  | pubrec a | pubrel a =>
    exact within_bind (within_agent _ _) fun c => within_bind (hmodify _ fun _ => rfl) fun _ =>
      hwrite _ _
  | subscribe packet =>
    exact within_bind (within_agent _ _) fun c => within_bind
      (within_foldEach fun g entry _ => latched_subscribeEntry c g entry) fun g =>
        within_bind (hwrite _ _) fun _ => hretained _ _
  | unsubscribe packet =>
    exact within_bind (within_agent _ _) fun c => within_bind
      (within_modify (latched_unsubscribeEntries c packet.topicFilters)) fun _ => hwrite _ _
  | pingreq packet => exact within_bind (within_agent _ _) fun _ => hwrite _ _
  | disconnect packet =>
    exact within_bind (within_agent _ _) fun c => within_modify fun w =>
      Latched.trans (latched_setParam w k none) (latched_remove _ c)

/-- When a channel is lost, no other one is closed. -/
theorem within_handleChannelDisconnected (k : ChannelId) :
    Within Latched (handleChannelDisconnected k) := by
  refine within_get_bind fun w => ?_
  cases w.param k with
  | none => exact Latched.refl w
  | some c =>
    exact within_bind (within_latched_of_still (still_publishFrame.publishWillMessage c))
      (fun _ => within_modify fun v => latched_remove v c) w

/-! ## Steps and runs -/

/-- A CONNECT that is handled. -/
theorem shuts_handleConnect {packet : MqttConnect} (hp : e.packet = some (.connect packet))
    (hrun : handleConnect cfg e.iteration e.draws e.action.channelId packet w = (.value (), w')) :
    w.Shuts (w.connectCloses cfg e packet) w' := by
  rw [World.connectCloses]
  cases hj : w.joining cfg e with
  | some j =>
    obtain ⟨hp', hk, hjoining⟩ := joining_eq_some hj
    obtain rfl := Packet.connect.inj (Option.some.inj (hp'.symm.trans hp))
    rw [hk] at hrun ⊢
    rw [handleConnect_of_joining hjoining] at hrun
    obtain ⟨m, hm, heq⟩ := acceptConnect_apply cfg e.iteration w j
    have hlatched : Within Latched m := by
      rcases hm with rfl | ⟨fs, gs, rfl⟩
      · exact within_pure ()
      · exact within_latched_of_still (still_publishFrame.publishRetainedMessage _ _ fs gs)
    have hrest := hlatched (w.joined cfg j)
    rw [← heq, hrun] at hrest
    exact (shuts_joined cfg w j).append_nil hrest
  | none =>
    have hnot : w.joiningOf cfg e.draws e.action.channelId packet = none := by
      rw [World.joining, Event.connect, hp] at hj
      exact hj
    show w.Shuts (_ ++ []) w'
    rw [List.append_nil]
    cases hcheck : w.checkIntegrity e.draws packet with
    | none =>
      rw [handleConnect_of_undecided hcheck] at hrun
      cases hrun
    | some r =>
      rw [handleConnect_of_not_joining hnot (by rw [hcheck]; rfl)] at hrun
      cases hrun
      exact (shuts_greet cfg w _ packet).append_nil (.of_contexts rfl)

/-- What was read is refused, or handled. -/
theorem shuts_read (h : (broker cfg).Reachable w) (ha : w.Admits e.action) {sb : Bytes}
    (hact : e.action = .read k sb) (hrun : e.program cfg w = (.value (), w')) :
    w.Shuts (if (w.refusal k sb).isSome then [k] else e.connect.elim [] (w.connectCloses cfg e))
      w' := by
  rw [hact] at ha
  have hguarded := hrun
  rw [Event.program, hact] at hguarded
  rcases guarded_eq_value.1 hguarded with hv | ⟨what, t, ht, rfl⟩
  · -- The buffer was not refused.
    have hnone : ¬(w.refusal k sb).isSome := by
      intro hsome
      obtain ⟨what, hwhat⟩ := Option.isSome_iff_exists.1 hsome
      cases hv.symm.trans (channelReadPipeline_of_refusal hwhat _ _)
    rw [if_neg hnone, Event.connect]
    cases hp : e.packet with
    | none =>
      have hno : ∀ p rest, channelRead sb ≠ .packet p rest := by
        intro p rest hread
        simp [Event.packet, hact, hread] at hp
      have heq : (channelReadPipeline cfg e.iteration e.draws k sb w).2 = w :=
        channelReadPipeline_of_no_packet hno _ _
      rw [hv] at heq
      exact .of_contexts (congrArg World.contexts heq)
    | some p =>
      obtain ⟨sb', rest, hact', hread⟩ := packet_eq_some hp
      obtain ⟨hk, rfl⟩ := Action.read.inj (hact.symm.trans hact')
      rw [channelReadPipeline, hread] at hv
      by_cases hconnect : ∃ packet, p = .connect packet
      · obtain ⟨packet, rfl⟩ := hconnect
        rw [hk] at hv
        exact shuts_handleConnect hp hv
      · have hne : ∀ packet, p ≠ .connect packet := fun packet h => hconnect ⟨packet, h⟩
        have hlatched := within_packetHandler cfg e.iteration e.draws k hne w
        have hnil : p.toConnect.elim [] (w.connectCloses cfg e) = [] := by
          cases p with
          | connect packet => exact absurd rfl (hne packet)
          | _ => rfl
        show w.Shuts (p.toConnect.elim [] (w.connectCloses cfg e)) w'
        dsimp only at hv
        rw [hv] at hlatched
        rw [hnil]
        exact hlatched
  · obtain ⟨hwhat, rfl⟩ := refusal_of_thrown h ha ht
    rw [hwhat]
    exact shuts_close t k

/-- A call closes the channels it is said to close. -/
theorem shuts_program (h : (broker cfg).Reachable w) (ha : w.Admits e.action)
    (hrun : e.program cfg w = (.value (), w')) : w.Shuts (w.closes cfg e) w' := by
  rw [World.closes]
  cases hact : e.action with
  | read k sb => exact shuts_read h ha hact hrun
  | accept k =>
    rw [Event.program, hact] at hrun
    cases hrun
    exact Latched.refl w
  | userEvent k =>
    rw [Event.program, hact] at hrun
    cases hrun
    exact shuts_close w k
  | written k =>
    rw [Event.program, hact] at hrun
    have hwritten : channelWritten k w =
        (.value (), if (w.param k).isNone then w.close k else w) := by
      rw [channelWritten, get_bind_apply]
      split_ifs <;> rfl
    rcases guarded_eq_value.1 hrun with hv | ⟨what, t, ht, -⟩
    · cases hwritten.symm.trans hv
      exact shuts_ite w k _
    · cases hwritten.symm.trans ht
  | disconnected k =>
    rw [Event.program, hact] at hrun
    rcases guarded_eq_value.1 hrun with hv | ⟨what, t, ht, -⟩
    · have hlatched := within_handleChannelDisconnected k w
      rw [hv] at hlatched
      exact hlatched
    · exact absurd ht (handleChannelDisconnected_ne_thrown k w t what)

/-- After a step a channel is closed if it was, or the call closed it, and if it is not
    gone. -/
theorem closed_of_step (h : (broker cfg).Reachable w) (hst : (broker cfg).step w e = some w')
    (k : ChannelId) : w'.closed k = true ↔ e.action ≠ .disconnected k ∧
      (w.closed k = true ∨ (w.contexts k).isSome ∧ k ∈ w.closes cfg e) := by
  obtain ⟨ha, t, hrun, rfl⟩ := (step_eq_some cfg).1 hst
  have hclosed := (shuts_program h ha hrun).closed k
  cases hact : e.action with
  | read | written | userEvent => exact hclosed.trans (by simp)
  | accept k' =>
    rw [hact] at ha
    by_cases hk : k = k'
    · subst hk
      have hnone : w.contexts k = none := ha
      simp [World.closed, World.conclude, hnone]
    · have hsame : (t.conclude (.accept k')).closed k = t.closed k := by
        simp [World.closed, World.conclude, hk]
      rw [hsame, hclosed]
      simp
  | disconnected k' =>
    by_cases hk : k = k'
    · subst hk
      simp [World.closed, World.conclude]
    · have hsame : (t.conclude (.disconnected k')).closed k = t.closed k := by
        simp [World.closed, World.conclude, hk]
      rw [hsame, hclosed]
      simp [Ne.symm hk]

/-- A channel is closed exactly if a call closed it, and it is not gone since. -/
theorem closed_run_iff (h : (broker cfg).Run l w) (k : ChannelId) : w.closed k = true ↔
    ∃ l₁ x l₂, l = l₁ ++ x :: l₂ ∧ ((x.1.contexts k).isSome ∧ k ∈ x.1.closes cfg x.2) ∧
      ∀ y ∈ x :: l₂, y.2.action ≠ .disconnected k := by
  have hstep : ∀ v e v', (broker cfg).Reachable v → (broker cfg).step v e = some v' →
      (v'.closed k = true ↔ ¬e.action = .disconnected k ∧
        (v.closed k = true ∨ (v.contexts k).isSome ∧ k ∈ v.closes cfg e)) :=
    fun v e v' hv hst => closed_of_step hv hst k
  exact h.latched_iff (fun x => (x.1.contexts k).isSome ∧ k ∈ x.1.closes cfg x.2)
    (fun x => x.2.action = .disconnected k) Bool.false_ne_true hstep

/-- A client that connects again on another channel loses the first one. -/
theorem closed_run_displaced : ∃ l w, (broker mqttdCfg).Run l w ∧
    ∃ l₁ x l₂, l = l₁ ++ x :: l₂ ∧ ((x.1.contexts 1).isSome ∧ 1 ∈ x.1.closes mqttdCfg x.2) ∧
      ∀ y ∈ x :: l₂, y.2.action ≠ .disconnected 1 := by
  have hruns : runs (fun _ _ => true) [.accept 1, .read 1 (connectBytes 0x02 [0x61] []),
      .accept 2, .read 2 (connectBytes 0x02 [0x61] [])] (fun w => w.closed 1) = true := by
    decide +kernel
  obtain ⟨l, w, hl, -, hclosed⟩ := exists_run hruns
  exact ⟨l, w, hl, (closed_run_iff hl 1).1 hclosed⟩

end MqttBroker
