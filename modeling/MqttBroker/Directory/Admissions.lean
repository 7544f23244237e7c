import MqttBroker.Directory.Runs

/-!
# Admission

Every client object the broker has, at a channel, registered or in a topic
(`World.Holds`), was made for a CONNECT that passed the checks of
`handle_connect`, and has what that packet says: its id, its will and the rights
its credentials give (`admitted_of_holds`).

The ids of clients have letters and digits only, and those that
`generate_unique_id` makes begin with another sign. So its first candidate is
always free (`generateUniqueId_of_reachable`), every CONNECT is decided
(`checkIntegrity_isSome`), and one without an id of its own displaces nobody: all
that goes is the session that was stored under the empty id (`unnamed_keeps_others`).
-/

namespace MqttBroker

open Prog Relation

/-- The broker has the client: at a channel, registered, or in a topic. -/
def World.Holds (w : World) (c : MqttClient) : Prop :=
  (∃ k, w.param k = some c) ∨ c ∈ w.clients ∨ ∃ p, ∃ s ∈ w.subscribersAt p, s.client = c

/-- The client is the one `handle_connect` makes for a CONNECT on the channel `k`
    that passes its checks. -/
structure MqttClient.AdmittedBy (c : MqttClient) (cfg : Config) (packet : MqttConnect)
    (k : ChannelId) : Prop where
  channelId : c.channelId = k
  clientId : c.clientId = packet.clientId
  length : c.clientId.length ≤ 23
  isalnum : c.clientId.all isalnum = true
  unnamed : c.clientId = [] → c.cleanSession = true
  protocolLevel : packet.protocolLevel = 4
  password : packet.passwordFlag = true → packet.usernameFlag = true
  admin : c.admin = cfg.isAdmin packet.username packet.password
  authenticated : cfg.authentication = true → c.admin = true ∨
    cfg.authenticate packet.username packet.password = true
  cleanSession : c.cleanSession = packet.cleanSession
  will : c.willFlag = packet.willFlag ∧ c.willQos = packet.willQos ∧
    c.willRetain = packet.willRetain ∧ c.willTopic = packet.willTopic ∧
    c.willMessage = packet.willMessage

variable {cfg : Config} {w w' : World} {e : Event} {l : List (World × Event)} {c : MqttClient}
  {j : Joining}

/-! ## The checks -/

/-- What `check_integrity` lets pass, and the packet it leaves, which has another
    client id at most. -/
theorem checkIntegrity_zero {draws : List (Nat × Nat)} {packet packet' : MqttConnect}
    (h : w.checkIntegrity draws packet = some (0x00, packet')) :
    packet.protocolLevel = 4 ∧ packet.clientId.length ≤ 23 ∧ packet.clientId.all isalnum = true ∧
      (packet.clientId = [] → packet.cleanSession = true) ∧
      (packet.passwordFlag = true → packet.usernameFlag = true) ∧
      packet'.username = packet.username ∧ packet'.password = packet.password := by
  rw [World.checkIntegrity] at h
  split_ifs at h with hlevel hlength halnum hempty <;> try cases h
  obtain ⟨p, hp, heq⟩ := Option.map_eq_some_iff.1 h
  obtain ⟨hcode, rfl⟩ := Prod.mk.inj heq
  -- The flags and the credentials are those of the packet.
  have hsame : p.usernameFlag = packet.usernameFlag ∧ p.passwordFlag = packet.passwordFlag ∧
      p.username = packet.username ∧ p.password = packet.password := by
    rw [World.assignClientId] at hp
    split_ifs at hp
    · obtain ⟨x, -, rfl⟩ := Option.map_eq_some_iff.1 hp
      exact ⟨rfl, rfl, rfl, rfl⟩
    · cases hp
      exact ⟨rfl, rfl, rfl, rfl⟩
  obtain ⟨husername, hpassword, hsame⟩ := hsame
  rw [husername, hpassword] at hcode
  refine ⟨not_not.1 hlevel, not_lt.1 hlength, by simpa using halnum, fun hid => ?_, fun hpw => ?_,
    hsame⟩
  · exact Bool.eq_true_of_not_eq_false fun hclean => hempty ⟨by rw [hid]; rfl, hclean⟩
  · exact Bool.eq_true_of_not_eq_false fun hun => by simp [hun, hpw] at hcode

/-- An accepted CONNECT gives the rights its credentials give. -/
theorem admittedBy_of_joining (hj : w.joining cfg e = some j) (s : SessionRef) :
    e.packet = some (.connect j.packet) ∧
      ((j.client w).setSessionPtr s).AdmittedBy cfg j.packet e.action.channelId := by
  obtain ⟨hp, hk, hj⟩ := joining_eq_some hj
  refine ⟨hp, ?_⟩
  rw [World.joiningOf] at hj
  cases hcheck : w.checkIntegrity e.draws j.packet with
  | none =>
    rw [hcheck] at hj
    cases hj
  | some r =>
    obtain ⟨returnCode, packet'⟩ := r
    rw [hcheck] at hj
    have hcode : returnCode = 0 ∧ j.admin = cfg.isAdmin packet'.username packet'.password ∧
        (cfg.authentication = true → j.admin = true ∨
          cfg.authenticate packet'.username packet'.password = true) := by
      simp only at hj
      split_ifs at hj with hne hadmin hauth
      · rw [← Option.some.inj hj]
        exact ⟨not_not.1 hne, hadmin.symm, fun _ => .inl rfl⟩
      · rw [← Option.some.inj hj]
        refine ⟨not_not.1 hne, (Bool.eq_false_iff.2 hadmin).symm, fun hon => .inr ?_⟩
        simpa [hon] using hauth
    obtain ⟨rfl, hadmin, hauth⟩ := hcode
    obtain ⟨hlevel, hlength, halnum, hunnamed, hpw, hname, hpass⟩ := checkIntegrity_zero hcheck
    rw [hname, hpass] at hadmin hauth
    exact ⟨hk.symm, rfl, hlength, halnum, hunnamed, hlevel, hpw, hadmin, hauth, rfl,
      rfl, rfl, rfl, rfl, rfl⟩

/-! ## The clients the broker has -/

/-- The broker has no other clients than before, but those satisfying `P`. -/
def Admitting (P : MqttClient → Prop) : Frame World where
  rel w w' := ∀ c, w'.Holds c → P c ∨ w.Holds c
  refl _ _ h := .inr h
  trans h₁ h₂ c h := (h₂ c h).elim .inl (h₁ c)

variable {P : MqttClient → Prop}

theorem admitting_of_tables (hparam : ∀ k c, w'.param k = some c → w.param k = some c)
    (hclients : ∀ c, c ∈ w'.clients → c ∈ w.clients)
    (hsubscribers : ∀ p s, s ∈ w'.subscribersAt p → P s.client ∨ s ∈ w.subscribersAt p) :
    (Admitting P).rel w w' := by
  rintro c (⟨k, hk⟩ | hc | ⟨p, s, hs, rfl⟩)
  · exact .inr (.inl ⟨k, hparam k c hk⟩)
  · exact .inr (.inr (.inl (hclients c hc)))
  · exact (hsubscribers p s hs).imp_right fun hs => .inr (.inr ⟨p, s, hs, rfl⟩)

theorem admitting_of_same (hparam : w'.param = w.param) (hclients : w'.clients = w.clients)
    (hsubscribers : w'.subscribersAt = w.subscribersAt) : (Admitting P).rel w w' :=
  admitting_of_tables (fun _ _ h => hparam ▸ h) (fun _ h => hclients ▸ h)
    fun _ _ h => .inr (hsubscribers ▸ h)

theorem admitting_publishFrame : PublishFrame (Admitting P) where
  counter _ _ _ := admitting_of_same rfl rfl rfl
  publish _ maxQos retained _ := within_publish (fun _ _ => admitting_of_same rfl rfl rfl)
    (fun _ _ => admitting_of_same rfl rfl rfl) (fun _ _ _ => admitting_of_same rfl rfl rfl)
    maxQos retained
  store p m w := by
    refine admitting_of_same ?_ ?_ (funext fun p' => w.subscribersAt_storeRetained p m p') <;>
      rw [World.storeRetained_eq]
    rfl
  noteWill _ _ := admitting_of_same rfl rfl rfl
  note retain _ _ w := rel_noteRetain (fun _ => admitting_of_same rfl rfl rfl) retain

theorem admitting_subscribe (hc : P c) (w : World) (f : Bytes) (q : Nat) (b : Bool) :
    (Admitting P).rel w (w.subscribe c f q b) := by
  have heq := w.subscribe_eq c f q b
  refine admitting_of_tables (fun k c' h => ?_) (fun c' h => ?_) fun p s hs => ?_
  · rwa [heq] at h
  · rwa [heq] at h
  · exact (w.mem_subscribersAt_subscribe c hs).imp_left fun h => by rwa [h]

theorem admitting_unsubscribe (c : MqttClient) (w : World) (f : Bytes) (b : Bool) :
    (Admitting P).rel w (w.unsubscribe c f b) := by
  have heq := w.unsubscribe_eq c f b
  refine admitting_of_tables (fun k c' h => ?_) (fun c' h => ?_) fun p s hs => ?_
  · rwa [heq] at h
  · rwa [heq] at h
  · exact .inr ((w.mem_subscribersAt_unsubscribe c).1 hs).1

/-- A client at a channel is one that the broker has. -/
theorem admitting_of_param {k : ChannelId} (hc : w.param k = some c)
    (h : (Admitting (· = c)).rel w w') : (Admitting P).rel w w' := by
  intro c' hc'
  rcases h c' hc' with rfl | hw
  · exact .inr (.inl ⟨k, hc⟩)
  · exact .inr hw

theorem admitting_handlerFrame : HandlerFrame (Admitting P) where
  channels h hparam := admitting_of_same hparam (by rw [h]) (by rw [h]; rfl)
  write _ _ _ _ := admitting_of_same rfl rfl rfl
  retained it k fs gs := admitting_publishFrame.publishRetainedMessage it k fs gs
  will {w _ _ c} _ hrun := by
    have hrel := admitting_publishFrame.publishWillMessage (F := Admitting P) c w
    rwa [hrun] at hrel
  subscribe {w k c entry} hc _ _ _ := admitting_of_param hc (Frame.trans _
    (admitting_subscribe (P := (· = c)) rfl w entry.topicFilter entry.maxQos entry.isWild)
    (admitting_of_same rfl rfl rfl))
  subscribeTrash {w k c} hc _ := by
    refine admitting_of_param hc (admitting_of_tables (fun _ _ h => h) (fun _ h => h)
      fun p s hs => ?_)
    cases p with
    | trash => exact (Keyed.mem_put.1 hs).imp (fun h => by rw [h]) And.left
    | entry b f => exact .inr hs
  unsubscribe {w k c entry} _ _ := by
    rw [World.unsubscribeEntry]
    split
    · exact Frame.refl _ w
    · exact Frame.trans _ (admitting_unsubscribe c w _ _) (admitting_of_same rfl rfl rfl)
  leave {w k c} _ := by
    refine Frame.trans _ (admitting_of_tables (fun k' c' h => ?_) (fun _ h => h) fun _ _ h => .inr h :
      (Admitting P).rel w (w.setParam k none)) ?_
    · rw [World.param_setParam_none, Function.update_apply] at h
      split_ifs at h
      exact h
    · refine Frame.trans _ (rel_unsubscribeAll (fun w f b => admitting_unsubscribe c w f b) _) ?_
      rw [World.remove]
      split_ifs <;> exact admitting_of_tables (fun _ _ h => h) (fun _ h => (Keyed.mem_erase.1 h).1)
        fun _ _ h => .inr h

/-! ## Accepted CONNECTs -/

theorem mem_clients_establish {k : ChannelId} {x : Bytes} {c' : MqttClient}
    (h : c' ∈ (w.establish k c x).2.2.clients) :
    c' = (w.establish k c x).1 ∨ c' ∈ w.clients := by
  have hclients : ∀ {v : World}, (∀ c' ∈ v.clients, c' ∈ w.clients) → ∀ r,
      c' ∈ (v.regClientPtr r).clients → c' = r ∨ c' ∈ w.clients := by
    intro v hv r h
    rw [World.regClientPtr] at h
    split at h
    · exact .inr (hv c' h)
    · exact (Keyed.mem_put.1 h).imp_right fun h => hv c' h.1
  have htaken : ∀ c' ∈ (w.takeOver x).clients, c' ∈ w.clients := by
    intro c' h
    rw [World.takeOver] at h
    split at h
    · exact h
    · exact (Keyed.mem_erase.1 h).1
  refine hclients (v := ((w.takeOver x).attachSession c).2.2.record _) ?_ _ h
  rcases (w.takeOver x).attachSession_cases c with ⟨s, -, -, heq⟩ | ⟨-, heq⟩ <;> rw [heq] <;>
    exact htaken

/-- The client an accepted CONNECT makes. -/
def World.newcomer (w : World) (j : Joining) : MqttClient :=
  w.directory.allocate.newcomer (j.client w) j.clientId

theorem newcomer_eq_setSessionPtr (w : World) (j : Joining) :
    ∃ s, w.newcomer j = (j.client w).setSessionPtr s := by
  rcases w.directory.allocate.connect_cases j.channelId (j.client w) j.clientId with
    ⟨s, -, -, hn, -⟩ | ⟨-, hn, -⟩ <;> exact ⟨_, hn⟩

/-- A session that is not resumed is a new one. -/
theorem session_newcomer (h : ∀ s, ¬w.Resumes j s) : (w.newcomer j).session = w.nextSession := by
  have hsession := w.directory.allocate.newcomer_session (j.client w) j.clientId
  split_ifs at hsession
  · exact absurd hsession (h _)
  · exact hsession

/-- An accepted CONNECT puts its client at the channel. -/
theorem param_joined (cfg : Config) (w : World) (j : Joining) (hk : (w.contexts j.channelId).isSome) :
    (w.joined cfg j).param j.channelId = some (w.newcomer j) := by
  show (w.joined cfg j).directory.holder j.channelId = _
  rw [(joined_spec cfg w j hk).1, Directory.connect_holder, Function.update_self]
  rfl

/-- An accepted CONNECT brings its client. -/
theorem holds_joined (cfg : Config) (w : World) (j : Joining) (hk : (w.contexts j.channelId).isSome) :
    (Admitting (· = w.newcomer j)).rel w (w.joined cfg j) := by
  have hk := (w.isSome_contexts_greet j.channelId cfg j.packet j.channelId).trans hk
  have hparam := w.param_greet j.channelId cfg j.packet
  obtain ⟨htopics, htrash⟩ := w.topics_greet j.channelId cfg j.packet
  have hclients : (w.greet cfg j.channelId j.packet).clients = w.clients := by
    rw [World.greet]
    split_ifs <;> rfl
  have hclient := (establish_spec (w.greet cfg j.channelId j.packet) hk (j.client w) j.clientId).1
  rw [World.directory_greet] at hclient
  change _ = w.newcomer j at hclient
  rw [World.joined]
  generalize w.greet cfg j.channelId j.packet = u at hk hparam htopics htrash hclients hclient
  obtain ⟨hutopics, hutrash, -⟩ := u.establish_frame j.channelId (j.client w) j.clientId
  have huparam := u.param_establish j.channelId (j.client w) hk j.clientId
  have huclients := fun c =>
    @mem_clients_establish u (j.client w) j.channelId j.clientId c
  generalize u.establish j.channelId (j.client w) j.clientId = r at *
  have hestablished : (Admitting (· = w.newcomer j)).rel w r.2.2 := by
    rintro c (⟨k, hc⟩ | hc | ⟨p, s, hs, rfl⟩)
    · rw [huparam, Function.update_apply] at hc
      split_ifs at hc
      · rw [← Option.some.inj hc]
        exact .inl hclient
      · exact .inr (.inl ⟨k, hparam ▸ u.param_takeOver k j.clientId hc⟩)
    · rcases huclients c hc with rfl | hc
      · exact .inl hclient
      · exact .inr (.inr (.inl (hclients ▸ hc)))
    · rw [World.subscribersAt_of_topics (w := w) (hutopics.trans htopics)
        (hutrash.trans htrash)] at hs
      exact .inr (.inr (.inr ⟨p, s, hs, rfl⟩))
  split_ifs
  · refine Frame.trans _ hestablished (Frame.trans _ (rel_resubscribe fun _ _ v =>
      admitting_subscribe (P := (· = w.newcomer j)) hclient v _ _ _) (admitting_of_same ?_ ?_ ?_)) <;>
        rw [World.redeliver_eq] <;> rfl
  · exact hestablished

/-! ## New sessions -/

/-- No other operation than a connection makes a session. -/
theorem nextSession_steps {d d' : Directory}
    (h : ReflTransGen (Directory.Step isWildFilter) d d') : d'.nextSession = d.nextSession := by
  induction h with
  | refl => rfl
  | tail _ hst ih =>
    rw [← ih]
    cases hst <;> rfl

theorem nextSession_le_of_step (hst : (broker cfg).step w e = some w') :
    w.nextSession ≤ w'.nextSession := by
  show w.directory.nextSession ≤ w'.directory.nextSession
  cases hj : w.joining cfg e with
  | some j =>
    rw [(step_joining hst hj).1, Directory.connect_nextSession]
    split_ifs
    · exact Nat.le_refl _
    · exact Nat.le_succ _
  | none => exact Nat.le_of_eq (nextSession_steps (step_local hst hj).1).symm

/-- The client that an accepted CONNECT brings stays at its channel. -/
theorem param_of_joining (hst : (broker cfg).step w e = some w') (hj : w.joining cfg e = some j) :
    w'.param j.channelId = some (w.newcomer j) := by
  show w'.directory.holder j.channelId = _
  rw [(step_joining hst hj).1, Directory.connect_holder, Function.update_self]
  rfl

/-! ## Runs -/

theorem admitting_step (hst : (broker cfg).step w e = some w') :
    (Admitting fun c => ∃ j, w.joining cfg e = some j ∧ c = w.newcomer j).rel w w' := by
  refine Frame.trans _ ?_ (admitting_handlerFrame.step hst fun _ m _ _ _ =>
    admitting_publishFrame.forwardPublish _ m)
  rcases received_cases cfg w e with ⟨j, hj, hw⟩ | ⟨-, ⟨packet, -, hw⟩ | ⟨c, p, -, -, -, hw⟩ | hw⟩ <;>
    rw [hw]
  · intro c hc
    exact (holds_joined cfg w j (isSome_contexts_of_joining hst hj) c hc).imp_left
      fun hc => ⟨j, hj, hc⟩
  · refine admitting_of_same (w.param_greet _ cfg packet) ?_ (World.subscribersAt_of_topics _
      (w.topics_greet _ cfg packet).1 (w.topics_greet _ cfg packet).2)
    rw [World.greet]
    split_ifs <;> rfl
  · refine admitting_of_same ?_ ?_ ?_ <;> rw [served_eq] <;> rfl
  · exact Frame.refl _ w

theorem exists_joining_of_holds (h : (broker cfg).Run l w) (hc : w.Holds c) :
    ∃ x ∈ l, ∃ j, x.1.joining cfg x.2 = some j ∧ c = x.1.newcomer j := by
  induction h with
  | init =>
    rcases hc with ⟨k, hk⟩ | hc | ⟨p, s, hs, rfl⟩
    · cases hk
    · exact absurd hc (Keyed.not_mem_empty c)
    · cases p with
      | trash => exact absurd hs (Keyed.not_mem_empty s)
      | entry b f => exact absurd hs List.not_mem_nil
  | @step l w w' e _ hst ih =>
    rcases admitting_step hst c hc with hj | hc
    · exact ⟨(w, e), List.mem_append_right _ (List.mem_singleton_self _), hj⟩
    · obtain ⟨x, hx, hj⟩ := ih hc
      exact ⟨x, List.mem_append_left _ hx, hj⟩

/-- Every client the broker has was made for a CONNECT of the run that
    `handle_connect` let pass, and has the rights its credentials gave it then. -/
theorem admitted_of_holds (h : (broker cfg).Run l w) (hc : w.Holds c) : ∃ x ∈ l, ∃ packet,
    x.2.packet = some (.connect packet) ∧ c.AdmittedBy cfg packet x.2.action.channelId := by
  obtain ⟨x, hx, j, hj, rfl⟩ := exists_joining_of_holds h hc
  obtain ⟨s, hs⟩ := newcomer_eq_setSessionPtr x.1 j
  exact ⟨x, hx, j.packet, hs ▸ admittedBy_of_joining hj s⟩

/-- An admin connects, and a client that is none takes over its id. -/
theorem admitted_admin_displaced : ∃ l w c c' packet packet', (broker mqttdCfg).Run l w ∧
    w.param 1 = none ∧ w.param 2 = some c ∧ c.admin = false ∧ c.AdmittedBy mqttdCfg packet 2 ∧
    c' ∈ w.trashTopic.clients.elems.map Subscriber.client ∧ c'.admin = true ∧
    c'.AdmittedBy mqttdCfg packet' 1 := by
  have hruns : runs (fun _ _ => true)
      [.accept 1, .accept 2, .read 1 (adminConnectBytes 0x02 [0x61]),
        .read 1 (subscribeBytes sysTrash 0x01), .read 2 (connectBytes 0x02 [0x61] [])]
      (fun w => (w.param 1).isNone && (w.param 2).any fun c => !c.admin &&
        (w.subscribersAt .trash).any fun s => s.client.admin && s.client.channelId = 1 &&
          c.channelId = 2) = true := by
    decide +kernel
  obtain ⟨l, w, hl, -, hrun⟩ := exists_run hruns
  obtain ⟨hnone, hrun⟩ := Bool.and_eq_true_iff.1 hrun
  obtain ⟨c, hc, hrun⟩ := Option.any_eq_true _ _ |>.1 hrun
  obtain ⟨hadmin, hrun⟩ := Bool.and_eq_true_iff.1 hrun
  obtain ⟨s, hs, hrun⟩ := List.any_eq_true.1 hrun
  obtain ⟨hrun, hk⟩ := Bool.and_eq_true_iff.1 hrun
  obtain ⟨hadmin', hk'⟩ := Bool.and_eq_true_iff.1 hrun
  obtain ⟨_, -, packet, -, hby⟩ := admitted_of_holds hl (.inl ⟨2, hc⟩)
  obtain ⟨_, -, packet', -, hby'⟩ := admitted_of_holds hl (.inr (.inr ⟨.trash, s, hs, rfl⟩))
  rw [← hby.channelId, of_decide_eq_true hk] at hby
  rw [← hby'.channelId, of_decide_eq_true hk'] at hby'
  exact ⟨l, w, c, s.client, packet, packet', hl, Option.isNone_iff_eq_none.1 hnone, hc,
    by simpa using hadmin, hby, List.mem_map_of_mem hs, hadmin', hby'⟩

/-! ## Generated ids -/

/-- A registered client has letters and digits in its id only. -/
theorem isalnum_of_registered (h : (broker cfg).Reachable w) {clientId : Bytes}
    (hc : (w.getClientPtr clientId).isSome) : clientId.all isalnum = true := by
  obtain ⟨l, hl⟩ := h
  obtain ⟨c, hc⟩ := Option.isSome_iff_exists.1 hc
  obtain ⟨hmem, rfl⟩ := Keyed.mem_of_find hc
  obtain ⟨x, -, j, hj, rfl⟩ := exists_joining_of_holds hl (.inr (.inl hmem))
  obtain ⟨s, hs⟩ := newcomer_eq_setSessionPtr x.1 j
  rw [hs]
  exact (admittedBy_of_joining hj s).2.isalnum

/-- A candidate of `generate_unique_id`. -/
def candidate (a b : Nat) : Bytes := ascii (['@'] ++ Nat.toDigits 10 a ++ Nat.toDigits 10 b)

/-- In every reachable state, the first candidate of `generate_unique_id` is free. -/
theorem generateUniqueId_of_reachable (h : (broker cfg).Reachable w) (a b : Nat)
    (draws : List (Nat × Nat)) : w.generateUniqueId ((a, b) :: draws) = some (candidate a b) := by
  rw [World.generateUniqueId, List.map_cons, List.find?_cons_of_pos]
  · rfl
  rw [Option.isNone_iff_eq_none, ← Option.not_isSome_iff_eq_none]
  intro hsome
  have halnum := isalnum_of_registered h hsome
  simp [ascii, isalnum] at halnum

/-- `check_integrity` returns, if `rand` does once. -/
theorem checkIntegrity_isSome (h : (broker cfg).Reachable w) {draws : List (Nat × Nat)}
    (hdraws : draws ≠ []) (packet : MqttConnect) : (w.checkIntegrity draws packet).isSome := by
  obtain ⟨⟨a, b⟩, draws, rfl⟩ := List.exists_cons_of_ne_nil hdraws
  rw [World.checkIntegrity]
  split_ifs <;> try rfl
  rw [Option.isSome_map, World.assignClientId]
  split_ifs
  · rw [Option.isSome_map, generateUniqueId_of_reachable h]
    rfl
  · rfl

/-- The id that a CONNECT without one is accepted with is generated. -/
theorem generateUniqueId_of_joining (hj : w.joining cfg e = some j) (hid : j.packet.clientId = []) :
    w.generateUniqueId e.draws = some j.clientId := by
  obtain ⟨-, -, hj⟩ := joining_eq_some hj
  rw [World.joiningOf, World.checkIntegrity] at hj
  split_ifs at hj <;> try cases hj
  simp only [World.assignClientId, hid, List.length_nil, if_true, Option.map_map] at hj
  cases hdraw : w.generateUniqueId e.draws with
  | none =>
    rw [hdraw] at hj
    cases hj
  | some clientId =>
    rw [hdraw, Option.map_some] at hj
    simp only [Function.comp_apply] at hj
    split_ifs at hj <;> rw [← Option.some.inj hj]

/-- A new session brings no subscriptions, and no other subscriber goes. -/
theorem subscribersAt_of_fresh (hst : (broker cfg).step w e = some w')
    (hj : w.joining cfg e = some j) (hclean : j.packet.cleanSession = true) :
    w'.subscribersAt = w.subscribersAt := by
  obtain ⟨hk, hkept⟩ := rel_step_joining (F := SubscribersKept)
    (fun _ => funext fun p => by cases p <;> rfl)
    (fun it => subscribersKept_publishFrame.publishRetainedMessage it _) hst hj
  refine hkept.trans ?_
  obtain ⟨s, sessionPresent, v, -, -, -, htopics, hcases⟩ := joined_cases cfg w j hk
  rcases hcases with ⟨⟨hstored, -⟩, -⟩ | ⟨-, -, -, hw⟩
  · cases hstored.symm.trans hclean
  · rw [hw]
    exact w.subscribersAt_of_topics htopics.1 htopics.2

/-- An accepted CONNECT without a client id gets the first id that is generated, and
    what the broker has of others stays: the clients at the other channels, the
    registered ones, the sessions stored under an id, and the subscribers. Only the
    session stored under the empty id is replaced, by that of the newcomer. -/
theorem unnamed_keeps_others (h : (broker cfg).Reachable w)
    (hst : (broker cfg).step w e = some w') (hj : w.joining cfg e = some j)
    (hid : j.packet.clientId = []) :
    (∃ a b, e.draws.head? = some (a, b) ∧ j.clientId = candidate a b) ∧
    (∀ k ≠ j.channelId, w'.param k = w.param k) ∧
    (∀ x c, w.getClientPtr x = some c → w'.getClientPtr x = some c) ∧
    (∀ p, w'.subscribersAt p = w.subscribersAt p) ∧
    (∀ x ≠ [], w'.sessions x = w.sessions x) ∧
    ∃ c, w'.param j.channelId = some c ∧ c.clientId = [] ∧ c.session = w.nextSession ∧
      w'.sessions [] = some c.session := by
  have hgenerated := generateUniqueId_of_joining hj hid
  obtain ⟨⟨a, b⟩, draws, hdraws⟩ : ∃ x l, e.draws = x :: l := by
    refine List.exists_cons_of_ne_nil fun hnil => ?_
    rw [hnil] at hgenerated
    cases hgenerated
  rw [hdraws, generateUniqueId_of_reachable h] at hgenerated
  refine ⟨⟨a, b, by rw [hdraws]; rfl, (Option.some.inj hgenerated).symm⟩, ?_⟩
  -- Nobody is registered under the generated id, and the session is a new one.
  obtain ⟨hne, -⟩ | ⟨-, hfree, hclean⟩ := joining_clientId hj
  · exact absurd hid hne
  have hfree : w.directory.allocate.client j.clientId = none := hfree
  have hclean : (j.client w).cleanSession = true := hclean
  have hid : (j.client w).clientId = [] := hid
  have hnew : ∀ s, ¬w.Resumes j s := fun s hs => by cases hs.1.symm.trans hclean
  have hnewcomer : (w.newcomer j).clientId = [] := by
    rw [World.newcomer, Directory.newcomer_clientId, hid]
  have hsessions : ∀ x, w'.sessions x =
      if x = (j.client w).clientId then some (w.newcomer j).session else w.sessions x := by
    intro x
    show w'.directory.session x = _
    rw [(step_joining hst hj).1, Directory.connect_session]
    rfl
  rw [hid] at hsessions
  refine ⟨fun k hk => ?_, fun x c hc => ?_, congrFun (subscribersAt_of_fresh hst hj hclean),
    fun x hx => ?_, w.newcomer j, param_of_joining hst hj, hnewcomer, session_newcomer hnew, ?_⟩
  · show w'.directory.holder k = w.directory.holder k
    rw [(step_joining hst hj).1, Directory.connect_holder, Function.update_of_ne hk,
      Directory.takeOver, hfree]
    rfl
  · show w'.directory.client x = some c
    rw [(step_joining hst hj).1, Directory.connect_client, Directory.takeOver, hfree]
    refine (if_neg fun hnone => ?_).trans hc
    cases hnone.2.symm.trans hc
  · rw [hsessions, if_neg hx]
  · rw [hsessions, if_pos rfl]

/-- The second client without an id does not displace the first one, which stays
    registered under the empty id, and in whose place its session is stored. -/
theorem unnamed_beside_unnamed : ∃ w w' c c', (broker mqttdCfg).Reachable w ∧
    (broker mqttdCfg).step w (Action.read 2 (connectBytes 0x02 [] [])).event = some w' ∧
    w.getClientPtr [] = some c ∧ c.channelId = 1 ∧ w'.getClientPtr [] = some c ∧
    w'.param 1 = some c ∧ w'.param 2 = some c' ∧ w'.sessions [] = some c'.session := by
  have hruns : runs (fun _ _ => true) [.accept 1, .accept 2, .read 1 (connectBytes 0x02 [] [])]
      (fun w => ((broker mqttdCfg).step w (Action.read 2 (connectBytes 0x02 [] [])).event).any fun w' =>
        (w.getClientPtr []).any fun c => (w'.param 2).any fun _ =>
          c.channelId = 1 && w.param 1 = some c &&
          (w.joining mqttdCfg (Action.read 2 (connectBytes 0x02 [] [])).event).any fun j =>
            j.packet.clientId = [] && j.channelId = 2) = true := by
    decide +kernel
  obtain ⟨l, w, w', hl, -, hst, hrun⟩ := exists_run_step hruns
  obtain ⟨c, hc, hrun⟩ := Option.any_eq_true _ _ |>.1 hrun
  obtain ⟨c', hc', hrun⟩ := Option.any_eq_true _ _ |>.1 hrun
  obtain ⟨hrun, hj⟩ := Bool.and_eq_true_iff.1 hrun
  obtain ⟨hk, hc1⟩ := Bool.and_eq_true_iff.1 hrun
  obtain ⟨j, hj, hrun⟩ := Option.any_eq_true _ _ |>.1 hj
  obtain ⟨hid, hk2⟩ := Bool.and_eq_true_iff.1 hrun
  have hk2 : j.channelId = 2 := of_decide_eq_true hk2
  obtain ⟨-, hparam, hclients, -, -, c₂, hc₂, -, -, hsession⟩ :=
    unnamed_keeps_others hl.reachable hst hj (of_decide_eq_true hid)
  have hsame : c₂ = c' := Option.some.inj ((hk2 ▸ hc₂).symm.trans hc')
  exact ⟨w, w', c, c', hl.reachable, hst, hc, of_decide_eq_true hk, hclients _ _ hc,
    (hparam 1 (by rw [hk2]; decide)).trans (of_decide_eq_true hc1), hc', hsame ▸ hsession⟩

end MqttBroker
