import MqttBroker.Codec.Decoded
import MqttBroker.Server.Broker
import MqttBroker.Server.Frames

/-!
# Accepted CONNECTs

`handle_connect` accepts a CONNECT, or answers it with an error, on what it
finds before it does anything (`World.joiningOf`). An accepted one goes on with
`acceptConnect` (`handleConnect_of_joining`), and leaves the state
`World.joined`, up to the retained messages that are sent in the end
(`acceptConnect_apply`).
-/

namespace MqttBroker

open Prog

/-- A CONNECT that `handle_connect` accepts, the rights it gives, and the client
    id the packet has in the end. -/
structure Joining where
  channelId : ChannelId
  packet : MqttConnect
  admin : Bool
  clientId : Bytes

/-- The client object that `handle_connect` makes. -/
def Joining.client (j : Joining) (w : World) : MqttClient :=
  (mqttClient w.nextAddr j.packet j.channelId).setAdmin j.admin

/-- Whether `handle_connect` accepts a CONNECT. -/
def World.joiningOf (cfg : Config) (draws : List (Nat × Nat)) (w : World) (k : ChannelId)
    (packet : MqttConnect) : Option Joining :=
  match w.checkIntegrity draws packet with
  | none => none
  | some (returnCode, packet') =>
    if returnCode ≠ 0 then none
    else if cfg.isAdmin packet'.username packet'.password then
      some ⟨k, packet, true, packet'.clientId⟩
    else if cfg.authentication && !cfg.authenticate packet'.username packet'.password then none
    else some ⟨k, packet, false, packet'.clientId⟩

/-- The packet an event brings. -/
def Event.packet (e : Event) : Option Packet :=
  match e.action with
  | .read _ sb =>
    match channelRead sb with
    | .packet p _ => some p
    | _ => none
  | _ => none

/-- A CONNECT. -/
def Packet.toConnect : Packet → Option MqttConnect
  | .connect packet => some packet
  | _ => none

/-- A PUBLISH. -/
def Packet.toPublish : Packet → Option MqttPublish
  | .publish packet => some packet
  | _ => none

/-- The CONNECT an event brings. -/
def Event.connect (e : Event) : Option MqttConnect := e.packet.bind Packet.toConnect

/-- The CONNECT an event brings, if `handle_connect` accepts it. -/
def World.joining (cfg : Config) (w : World) (e : Event) : Option Joining :=
  e.connect.bind fun packet => w.joiningOf cfg e.draws e.action.channelId packet

/-- The state after an accepted CONNECT, but for the retained messages: a client
    with a stored session is subscribed again, and what it did not answer is
    sent again. -/
def World.joined (cfg : Config) (w : World) (j : Joining) : World :=
  let r := (w.greet cfg j.channelId j.packet).establish j.channelId (j.client w) j.clientId
  if r.2.1 then (r.2.2.resubscribe r.1).redeliver r.1 else r.2.2

namespace Joining

variable (j : Joining) (w : World)

@[simp] theorem client_clientId : (j.client w).clientId = j.packet.clientId := rfl
@[simp] theorem client_channelId : (j.client w).channelId = j.channelId := rfl
end Joining

variable {cfg : Config} {draws : List (Nat × Nat)} {w : World} {k : ChannelId}
  {packet : MqttConnect}

/-- An empty client id is replaced by one that is not registered, which needs a
    clean session; any other id stays. -/
theorem checkIntegrity_clientId {packet' : MqttConnect}
    (h : w.checkIntegrity draws packet = some (0, packet')) :
    packet.clientId ≠ [] ∧ packet'.clientId = packet.clientId ∨
      packet.clientId = [] ∧ w.getClientPtr packet'.clientId = none ∧
        packet.cleanSession = true := by
  rw [World.checkIntegrity] at h
  split_ifs at h with h1 h2 h3 h4 <;> try cases h
  obtain ⟨p, hp, he⟩ := Option.map_eq_some_iff.1 h
  obtain rfl : p = packet' := congrArg Prod.snd he
  rw [World.assignClientId] at hp
  split_ifs at hp with h0
  · obtain ⟨x, hx, rfl⟩ := Option.map_eq_some_iff.1 hp
    refine .inr ⟨List.length_eq_zero_iff.1 h0, ?_, ?_⟩
    · exact Option.isNone_iff_eq_none.1
        (List.find?_some (p := fun y => (w.getClientPtr y).isNone) hx)
    · exact Bool.eq_true_of_not_eq_false fun hc => h4 ⟨h0, hc⟩
  · cases hp
    exact .inl ⟨fun he => h0 (List.length_eq_zero_iff.2 he), rfl⟩

theorem joiningOf_clientId {j : Joining} (h : w.joiningOf cfg draws k packet = some j) :
    j.channelId = k ∧ j.packet = packet ∧
      (packet.clientId ≠ [] ∧ j.clientId = packet.clientId ∨
        packet.clientId = [] ∧ w.getClientPtr j.clientId = none ∧ packet.cleanSession = true) := by
  rw [World.joiningOf] at h
  cases hcheck : w.checkIntegrity draws packet with
  | none =>
    rw [hcheck] at h
    cases h
  | some r =>
    obtain ⟨code, packet'⟩ := r
    rw [hcheck] at h
    have hj : code = 0 ∧ j.channelId = k ∧ j.packet = packet ∧ j.clientId = packet'.clientId := by
      simp only at h
      split_ifs at h with hcode <;> cases h <;> exact ⟨not_not.1 hcode, rfl, rfl, rfl⟩
    obtain ⟨rfl, hk, hp, hid⟩ := hj
    rw [hid]
    exact ⟨hk, hp, checkIntegrity_clientId hcheck⟩

variable {it : Iteration}

/-- An accepted CONNECT goes on after the beginning of `handle_connect`. -/
theorem handleConnect_of_joining {j : Joining} (h : w.joiningOf cfg draws k packet = some j) :
    handleConnect cfg it draws k packet w =
      acceptConnect it k (j.client w) j.clientId (w.greet cfg k packet) := by
  rw [World.joiningOf] at h
  rw [handleConnect, get_bind_apply, modify_bind_apply]
  cases hcheck : w.checkIntegrity draws packet with
  | none =>
    rw [hcheck] at h
    cases h
  | some r =>
    rw [hcheck] at h
    simp only at h ⊢
    split_ifs at h with hcode hadmin hauth <;> cases h
    · rw [if_neg hcode, if_pos hadmin]
      rfl
    · rw [if_neg hcode, if_neg hadmin, if_neg hauth]
      rfl

/-- An accepted CONNECT resumes the session `s`. -/
def World.Resumes (w : World) (j : Joining) (s : SessionRef) : Prop :=
  j.packet.cleanSession = false ∧ w.sessions j.packet.clientId = some s

/-- The session is the stored one, if it is resumed, or a new one. -/
theorem attachSession_of_joining (cfg : Config) {w u : World} {j : Joining}
    (hu : (w.greet cfg j.channelId j.packet).takeOver j.clientId = u) :
    (∃ s, w.Resumes j s ∧ u.attachSession (j.client w) = ((j.client w).setSessionPtr s, true, u)) ∨
    (∀ s, ¬w.Resumes j s) ∧ u.attachSession (j.client w) =
      ((j.client w).setSessionPtr u.nextSession, false, u.storeSession (j.client w).clientId) := by
  have hsessions : u.sessions = w.sessions := by
    rw [← hu, World.sessions_takeOver, World.sessions_greet]
  rcases u.attachSession_cases (j.client w) with ⟨s, hclean, hs, h⟩ | ⟨hnew, h⟩
  · exact .inl ⟨s, ⟨hclean, hsessions ▸ hs⟩, h⟩
  · refine .inr ⟨fun s hr => ?_, h⟩
    rcases hnew with hclean | hnone
    · cases hclean.symm.trans hr.1
    · cases (hsessions ▸ hnone).symm.trans hr.2

/-- An accepted CONNECT gives the client the stored session, whose messages are
    sent again, or a new one. -/
theorem joined_cases (cfg : Config) (w : World) (j : Joining)
    (hk : (w.contexts j.channelId).isSome) : ∃ (s : SessionRef) (sessionPresent : Bool) (v : World),
      let c := (j.client w).setSessionPtr s
      v.param j.channelId = some c ∧
      (∀ k c', v.param k = some c' → k = j.channelId ∧ c' = c ∨ w.param k = some c') ∧
      v.log = w.log ++ [.attached c sessionPresent,
        .write j.channelId (some c) (.connack (mqttConnack sessionPresent 0x00))] ∧
      (v.topics = w.topics ∧ v.trashTopic = w.trashTopic) ∧
      (w.Resumes j s ∧ sessionPresent = true ∧ v.session = w.session ∧
          w.joined cfg j = (v.resubscribe c).redeliver c ∨
        (∀ s, ¬w.Resumes j s) ∧ sessionPresent = false ∧
          v.session = Function.update w.session s Session.new ∧ w.joined cfg j = v) := by
  have hk := (w.isSome_contexts_greet j.channelId cfg j.packet j.channelId).trans hk
  have hsession := w.session_greet j.channelId cfg j.packet
  have hattach := attachSession_of_joining cfg (w := w) (j := j) rfl
  have hlog' := w.log_greet j.channelId cfg j.packet
  have htopics := w.topics_greet j.channelId cfg j.packet
  have hparam' := w.param_greet j.channelId cfg j.packet
  rw [World.joined]
  generalize w.greet cfg j.channelId j.packet = u at hk hsession hattach hlog' htopics hparam'
  have hlog := u.log_establish j.channelId (j.client w) hk j.clientId
  have hparams := u.param_establish j.channelId (j.client w) hk j.clientId
  have hparam := congrFun hparams j.channelId
  obtain ⟨hutopics, hutrash, hframe⟩ := u.establish_frame j.channelId (j.client w) j.clientId
  have hclient : (u.establish j.channelId (j.client w) j.clientId).1 =
      ((u.takeOver j.clientId).attachSession (j.client w)).1 := rfl
  have hpresent : (u.establish j.channelId (j.client w) j.clientId).2.1 =
      ((u.takeOver j.clientId).attachSession (j.client w)).2.1 := rfl
  rw [hlog'] at hlog
  rw [Function.update_self] at hparam
  rw [htopics.1] at hutopics
  rw [htopics.2] at hutrash
  have hothers : ∀ k c, (u.establish j.channelId (j.client w) j.clientId).2.2.param k = some c →
      k = j.channelId ∧ c = (u.establish j.channelId (j.client w) j.clientId).1 ∨
        w.param k = some c := by
    intro k c hc
    rw [hparams, Function.update_apply] at hc
    split_ifs at hc with hk
    · exact .inl ⟨hk, (Option.some.inj hc).symm⟩
    · rw [← hparam']
      exact .inr (u.param_takeOver k j.clientId hc)
  rcases hattach with ⟨s, hr, h⟩ | ⟨hnot, h⟩ <;> rw [h] at hclient hpresent hframe <;>
      rw [hclient, hpresent] at hlog <;> rw [hclient] at hparam hothers <;> rw [hclient, hpresent]
  · refine ⟨s, true, _, hparam, hothers, hlog, ⟨hutopics, hutrash⟩, .inl ⟨hr, rfl, ?_, rfl⟩⟩
    rw [hframe, World.session_takeOver, hsession]
  · refine ⟨_, false, _, hparam, hothers, hlog, ⟨hutopics, hutrash⟩, .inr ⟨hnot, rfl, ?_, rfl⟩⟩
    rw [hframe, ← hsession, ← u.session_takeOver j.clientId]
    rfl

/-- An accepted CONNECT goes into the history with its CONNACK, and then with what is sent
    again to the client. -/
theorem log_joined (cfg : Config) (w : World) (j : Joining) (hk : (w.contexts j.channelId).isSome) :
    ∃ (c : MqttClient) (sessionPresent : Bool) (again : List Effect),
      (w.joined cfg j).log = w.log ++ (.attached c sessionPresent ::
        .write j.channelId (some c) (.connack (mqttConnack sessionPresent 0x00)) :: again) ∧
      ∀ e ∈ again, ∃ k h p, e = .write k h p ∧
        ((∃ m : MqttPublish, p = .publish m.setDup) ∨ ∃ id, p = .pubrel (mqttPubrel id)) := by
  obtain ⟨s, sessionPresent, v, -, -, hlog, -, hcases⟩ := joined_cases cfg w j hk
  refine ⟨(j.client w).setSessionPtr s, sessionPresent, ?_⟩
  rcases hcases with ⟨-, -, -, hw⟩ | ⟨-, -, -, hw⟩
  · refine ⟨_, by rw [hw, World.log_redeliver, World.log_resubscribe, hlog, List.append_assoc]; rfl,
      fun e he => ?_⟩
    obtain ⟨p, hp, rfl⟩ := List.mem_map.1 he
    refine ⟨_, _, p, rfl, ?_⟩
    simp only [List.mem_append, List.mem_map] at hp
    rcases hp with (⟨m, -, rfl⟩ | ⟨m, -, rfl⟩) | ⟨id, -, rfl⟩
    · exact .inl ⟨m, rfl⟩
    · exact .inl ⟨m, rfl⟩
    · exact .inr ⟨id, rfl⟩
  · exact ⟨[], by rw [hw, hlog], fun _ he => absurd he List.not_mem_nil⟩

/-- Where a session is resumed, the retained messages for its subscriptions are
    published from the joined state on. -/
theorem acceptConnect_of_resumes (cfg : Config) (it : Iteration) {w : World} {j : Joining}
    {s : SessionRef} (h : w.Resumes j s) :
    acceptConnect it j.channelId (j.client w) j.clientId (w.greet cfg j.channelId j.packet) =
      publishRetainedMessage it j.channelId
        (((w.session s).subscriptions.elems.filter fun sub => !sub.isWild).map
          Subscription.topicFilter)
        (((w.session s).subscriptions.elems.filter fun sub => sub.isWild).map
          Subscription.topicFilter) (w.joined cfg j) := by
  have hsession := w.session_greet j.channelId cfg j.packet
  have hattach := attachSession_of_joining cfg (w := w) (j := j) rfl
  rw [acceptConnect, get_bind_apply, modify_bind_apply, World.joined]
  generalize w.greet cfg j.channelId j.packet = u at hsession hattach
  rcases hattach with ⟨s', hr, hattach⟩ | ⟨hnot, -⟩
  · obtain rfl := Option.some.inj (h.2.symm.trans hr.2)
    obtain ⟨-, -, hframe⟩ := u.establish_frame j.channelId (j.client w) j.clientId
    have hclient : (u.establish j.channelId (j.client w) j.clientId).1 =
        (j.client w).setSessionPtr s := congrArg Prod.fst hattach
    have hpresent : (u.establish j.channelId (j.client w) j.clientId).2.1 = true :=
      congrArg (fun r => r.2.1) hattach
    rw [hattach, u.session_takeOver, hsession] at hframe
    rw [if_pos hpresent, if_pos hpresent, hclient, ← hframe]
    rfl
  · exact absurd h (hnot s)

/-- With a new session, `handle_connect` is done. -/
theorem acceptConnect_of_new (cfg : Config) (it : Iteration) {w : World} {j : Joining}
    (h : ∀ s, ¬w.Resumes j s) :
    acceptConnect it j.channelId (j.client w) j.clientId (w.greet cfg j.channelId j.packet) =
      (.value (), w.joined cfg j) := by
  have hattach := attachSession_of_joining cfg (w := w) (j := j) rfl
  rw [acceptConnect, get_bind_apply, modify_bind_apply, World.joined]
  generalize w.greet cfg j.channelId j.packet = u at hattach
  rcases hattach with ⟨s, hr, -⟩ | ⟨-, hattach⟩
  · exact absurd hr (h s)
  · have hpresent : ¬(u.establish j.channelId (j.client w) j.clientId).2.1 = true := by
      rw [show (u.establish j.channelId (j.client w) j.clientId).2.1 = false from
        congrArg (fun r => r.2.1) hattach]
      exact Bool.false_ne_true
    rw [if_neg hpresent, if_neg hpresent]
    rfl

/-- An accepted CONNECT leads to the joined state, from where retained messages
    may be published. -/
theorem acceptConnect_apply (cfg : Config) (it : Iteration) (w : World) (j : Joining) :
    ∃ m : Server Unit,
      (m = pure () ∨ ∃ fs gs, m = publishRetainedMessage it j.channelId fs gs) ∧
        acceptConnect it j.channelId (j.client w) j.clientId (w.greet cfg j.channelId j.packet) =
          m (w.joined cfg j) := by
  by_cases h : ∃ s, w.Resumes j s
  · obtain ⟨s, hs⟩ := h
    exact ⟨_, .inr ⟨_, _, rfl⟩, acceptConnect_of_resumes cfg it hs⟩
  · exact ⟨_, .inl rfl, acceptConnect_of_new cfg it fun s hs => h ⟨s, hs⟩⟩

/-- The packet an event brings was decoded, from the buffer of its channel. -/
theorem packet_eq_some {e : Event} {p : Packet} (h : e.packet = some p) :
    ∃ sb rest, e.action = .read e.action.channelId sb ∧ channelRead sb = .packet p rest := by
  rw [Event.packet] at h
  cases ha : e.action with
  | read k sb =>
    rw [ha] at h
    dsimp only at h
    cases hread : channelRead sb with
    | packet q rest =>
      rw [hread] at h
      cases h
      exact ⟨sb, rest, rfl, hread⟩
    | done | handOn | threw =>
      rw [hread] at h
      cases h
  | accept | written | userEvent | disconnected =>
    rw [ha] at h
    cases h

/-- An accepted CONNECT comes off the receive buffer of its channel. -/
theorem joining_eq_some {e : Event} {j : Joining} (h : w.joining cfg e = some j) :
    e.packet = some (.connect j.packet) ∧ e.action.channelId = j.channelId ∧
      w.joiningOf cfg e.draws j.channelId j.packet = some j := by
  obtain ⟨packet, hp, hj⟩ := Option.bind_eq_some_iff.1 h
  obtain ⟨p, hp, hpc⟩ := Option.bind_eq_some_iff.1 hp
  obtain ⟨hk, rfl, -⟩ := joiningOf_clientId hj
  refine ⟨?_, hk.symm, by rwa [hk]⟩
  cases p with
  | connect q =>
    cases hpc
    exact hp
  | _ => cases hpc

/-- The id a CONNECT is accepted with is its own, or one nobody is registered
    under. -/
theorem joining_clientId {e : Event} {j : Joining} (h : w.joining cfg e = some j) :
    j.packet.clientId ≠ [] ∧ j.clientId = j.packet.clientId ∨
      j.packet.clientId = [] ∧ w.getClientPtr j.clientId = none ∧ j.packet.cleanSession = true :=
  (joiningOf_clientId (joining_eq_some h).2.2).2.2

end MqttBroker
