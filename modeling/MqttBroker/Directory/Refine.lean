import MqttBroker.Directory.Connect
import MqttBroker.Directory.View
import MqttBroker.Server.Steps

/-!
# The broker refines the directory

Every step of the broker is, in the directory, an accepted CONNECT
(`step_joining`) or a sequence of the other operations (`step_local`), which
give no client a session. All publishing is invisible there (`Quiet`).
-/

namespace MqttBroker

open Prog Relation

/-- The clients given a session so far, each with `session_present`. -/
def World.attachments (w : World) : List (MqttClient × Bool) :=
  w.log.filterMap fun e => match e with
    | .attached client sessionPresent => some (client, sessionPresent)
    | _ => none

/-! ## Frames -/

/-- Nothing happens in the directory. -/
def Quiet : Frame World where
  rel w w' := w'.directory = w.directory ∧ w'.attachments = w.attachments
  refl _ := ⟨rfl, rfl⟩
  trans h₁ h₂ := ⟨h₂.1.trans h₁.1, h₂.2.trans h₁.2⟩

/-- The operations of the directory but for connections. -/
def Local : Frame World where
  rel w w' := ReflTransGen (Directory.Step isWildFilter) w.directory w'.directory ∧
    w'.attachments = w.attachments
  refl _ := ⟨.refl, rfl⟩
  trans h₁ h₂ := ⟨h₁.1.trans h₂.1, h₂.2.trans h₁.2⟩

theorem local_of_quiet {w w' : World} (h : Quiet.rel w w') : Local.rel w w' :=
  ⟨h.1 ▸ .refl, h.2⟩

theorem attachments_of_log {w w' : World} (h : w'.log = w.log) : w'.attachments = w.attachments := by
  rw [World.attachments, h, World.attachments]

theorem attachments_record (w : World) {e : Effect} (h : ∀ c b, e ≠ .attached c b) :
    (w.record e).attachments = w.attachments := by
  simp only [World.attachments, World.record, List.filterMap_append]
  cases e with
  | attached c b => exact absurd rfl (h c b)
  | _ => simp

theorem quiet_write (w : World) (k : ChannelId) (p : Packet) : Quiet.rel w (w.write k p) :=
  ⟨rfl, attachments_record w fun _ _ => Effect.noConfusion⟩

theorem quiet_close (w : World) (k : ChannelId) : Quiet.rel w (w.close k) :=
  ⟨w.directory_close k, rfl⟩

theorem quiet_noteRetain (w : World) (r : Bool) (t p : Bytes) : Quiet.rel w (w.noteRetain r t p) :=
  rel_noteRetain (F := Quiet)
    (fun _ => ⟨rfl, attachments_record w fun _ _ => Effect.noConfusion⟩) r

theorem quiet_modifySession (w : World) {s : SessionRef} {f : Session → Session}
    (h : (f (w.session s)).subscriptions = (w.session s).subscriptions) :
    Quiet.rel w (w.modifySession s f) :=
  ⟨w.directory_modifySession h, rfl⟩

theorem quiet_publishFrame : PublishFrame Quiet where
  counter s w _ := quiet_modifySession w rfl
  note _ _ _ w := quiet_noteRetain w _ _ _
  noteWill _ w := ⟨rfl, attachments_record w fun _ _ => Effect.noConfusion⟩
  publish client maxQos retained packet := within_publish (fun w _ => quiet_modifySession w rfl)
    (fun w m => ⟨w.directory_address client m,
      attachments_record w (e := .addressed client m) fun _ _ => Effect.noConfusion⟩)
    (fun w _ _ => quiet_write w _ _) maxQos retained
  store p m w := by
    refine ⟨w.directory_storeRetained p m, attachments_of_log ?_⟩
    rw [World.storeRetained_eq]

/-! ## Steps -/

theorem quiet_contexts {w w' : World} (h : w' = { w with contexts := w'.contexts })
    (hparam : w'.param = w.param) : Quiet.rel w w' := by
  have hrest : w'.log = w.log := by rw [h]
  refine ⟨?_, attachments_of_log hrest⟩
  have hdir : w'.directory = { w.directory with holder := w'.param } := by
    rw [h]
    rfl
  rw [hdir, hparam]
  rfl

/-- Subscribing, unsubscribing and leaving are operations of the directory, and
    nothing else happens there. -/
theorem local_handlerFrame : HandlerFrame Local where
  channels h hparam := local_of_quiet (quiet_contexts h hparam)
  write w k _ _ := local_of_quiet (quiet_write w k _)
  retained it k fs gs := (quiet_publishFrame.publishRetainedMessage it k fs gs).mono fun _ _ =>
    local_of_quiet
  will {w w' _ c} _ hrun := by
    have hquiet := quiet_publishFrame.publishWillMessage c w
    rw [hrun] at hquiet
    exact local_of_quiet hquiet
  subscribe {w k c entry} hc hd hq _ := by
    refine ⟨?_, attachments_of_log ?_⟩
    · rw [World.subscribeEntry, w.directory_subscribe, (hd.2 hq).2]
      exact .single (.subscribe (k := k) hc)
    · show (w.subscribe c _ _ _).log = w.log
      rw [World.subscribe_eq]
  subscribeTrash _ _ := local_of_quiet ⟨rfl, rfl⟩
  unsubscribe {w k c entry} hc hwild := by
    refine ⟨?_, attachments_of_log (w.unsubscribeEntry_log c entry)⟩
    rcases w.directory_unsubscribeEntry c entry with hdir | hdir
    · rw [hdir]
    · rw [hdir, hwild]
      exact .single (.unsubscribe (k := k) hc)
  leave {w k c} hc := by
    have hdir : ((w.setParam k none).remove c).directory = w.directory.leave k c := by
      rw [World.directory_remove _ k, World.directory_setParam_none]
      rfl
    refine ⟨by rw [hdir]; exact .single (.leave hc), attachments_of_log ?_⟩
    rw [World.remove_eq]
    rfl

variable {cfg : Config} {w w' : World} {e : Event} {j : Joining} {k : ChannelId}

/-- Answering a packet is no business of the directory. -/
theorem quiet_served (w : World) (k : ChannelId) (c : MqttClient) (p : Packet) :
    Quiet.rel w (w.served k c p) := by
  have hrec : ∀ (v : World) (e : Effect), (∀ c b, e ≠ .attached c b) → Quiet.rel v (v.record e) :=
    fun v e he => ⟨rfl, attachments_record v he⟩
  have hv : Quiet.rel w (w.record (.handled c p)) := hrec w _ fun _ _ => Effect.noConfusion
  have hsession : ∀ f : Session → Session, (∀ s, (f s).subscriptions = s.subscriptions) →
      Quiet.rel w ((w.record (.handled c p)).modifySession c.session f) := fun f hf =>
    Quiet.trans hv (quiet_modifySession _ (hf _))
  cases p with
  | publish packet =>
    refine Quiet.trans hv ⟨World.directory_receivePublish _ k c packet, ?_⟩
    show (World.receivePublish _ _ _ _).attachments = _
    rw [World.receivePublish]
    split_ifs
    · exact (quiet_write _ _ _).2
    · exact (quiet_write _ _ _).2
    · rfl
  | puback | pubrec | pubrel | pubcomp => exact hsession _ fun _ => rfl
  | subscribe | unsubscribe | pingreq | disconnect => exact hv
  | connect | connack | suback | unsuback | pingresp => exact Quiet.refl w

/-- A CONNECT makes an object. -/
theorem local_greet (w : World) (packet : MqttConnect) : Local.rel w (w.greet cfg k packet) := by
  refine ⟨?_, attachments_of_log (World.log_greet w k cfg packet)⟩
  rw [World.directory_greet]
  exact .single .allocate

/-- A step that brings no accepted CONNECT is a sequence of operations of the
    directory. -/
theorem step_local (h : (broker cfg).step w e = some w') (hj : w.joining cfg e = none) :
    Local.rel w w' := by
  refine Local.trans ?_ (local_handlerFrame.step h fun _ packet _ _ _ =>
    (quiet_publishFrame.forwardPublish _ packet).mono fun _ _ => local_of_quiet)
  rcases received_cases cfg w e with ⟨j, hj', -⟩ | ⟨-, ⟨packet, -, h⟩ | ⟨c, p, -, -, -, h⟩ | h⟩
  · cases hj.symm.trans hj'
  · rw [h]
    exact local_greet w packet
  · rw [h]
    exact local_of_quiet (quiet_served w _ c p)
  · rw [h]
    exact Local.refl w

/-! ## Accepted CONNECTs -/

/-- What `establish` leaves: the client in the directory's terms, registered and
    not yet entered under its subscriptions. -/
theorem establish_spec (w : World) (hk : (w.contexts k).isSome) (c : MqttClient) (x : Bytes) :
    (w.establish k c x).1 = w.directory.newcomer c x ∧
    (w.establish k c x).2.1 = w.directory.sessionPresent c x ∧
    (w.establish k c x).2.2.directory =
      ((w.directory.takeOver x).attach c).2.2.register k (w.directory.newcomer c x) ∧
    (w.establish k c x).2.2.attachments =
      w.attachments ++ [(w.directory.newcomer c x, w.directory.sessionPresent c x)] := by
  obtain ⟨hclient, hpresent, hdir⟩ := (w.takeOver x).attachSession_eq c
  rw [World.directory_takeOver] at hclient hpresent hdir
  obtain ⟨hcontexts, -, -, hlog⟩ := (w.takeOver x).attachSession_frame c
  have hsome : ∀ e : Effect, ((((w.takeOver x).attachSession c).2.2.record e).contexts k).isSome := by
    intro e
    show (((w.takeOver x).attachSession c).2.2.contexts k).isSome
    rwa [hcontexts, World.isSome_contexts_takeOver]
  refine ⟨hclient, hpresent, ?_, ?_⟩
  · rw [World.establish, World.directory_write, World.directory_register _ _ _ (hsome _),
      World.directory_record, hclient, hdir]
    rfl
  · rw [World.attachments, World.log_establish _ _ _ hk, List.filterMap_append]
    exact congrArg (w.attachments ++ [·]) (Prod.ext hclient hpresent)

/-- The directory after an accepted CONNECT. -/
theorem joined_spec (cfg : Config) (w : World) (j : Joining) (hk : (w.contexts j.channelId).isSome) :
    (w.joined cfg j).directory =
      w.directory.allocate.connect j.channelId (j.client w) j.clientId ∧
    (w.joined cfg j).attachments = w.attachments ++
      [(w.directory.allocate.newcomer (j.client w) j.clientId,
        w.directory.allocate.sessionPresent (j.client w) j.clientId)] := by
  have hk' : ((w.greet cfg j.channelId j.packet).contexts j.channelId).isSome := by
    rwa [World.isSome_contexts_greet]
  obtain ⟨hclient, hpresent, hdir, hatt⟩ :=
    establish_spec (w.greet cfg j.channelId j.packet) hk' (j.client w) j.clientId
  rw [World.directory_greet] at hclient hpresent hdir hatt
  rw [attachments_of_log (World.log_greet w j.channelId cfg j.packet)] at hatt
  rw [World.joined, hpresent, hclient]
  cases hp : w.directory.allocate.sessionPresent (j.client w) j.clientId with
  | true =>
    rw [if_pos rfl]
    obtain ⟨hdir', hatt'⟩ := rel_redeliver (F := Quiet) (fun w => quiet_modifySession w rfl)
      (fun w => quiet_modifySession w rfl) (fun w p => quiet_write w _ p) (World.resubscribe _ _)
    refine ⟨hdir'.trans ?_, hatt'.trans ?_⟩
    · rw [World.directory_resubscribe, hdir]
      rfl
    · rw [attachments_of_log (World.log_resubscribe _ _), hatt, hp]
  | false =>
    rw [if_neg Bool.false_ne_true]
    refine ⟨hdir.trans (Directory.register_eq_connect _ hp), by rw [hatt, hp]⟩

/-- A step that brings an accepted CONNECT. -/
theorem step_joining (h : (broker cfg).step w e = some w') (hj : w.joining cfg e = some j) :
    w'.directory = w.directory.allocate.connect j.channelId (j.client w) j.clientId ∧
    w'.attachments = w.attachments ++
      [(w.directory.allocate.newcomer (j.client w) j.clientId,
        w.directory.allocate.sessionPresent (j.client w) j.clientId)] := by
  obtain ⟨hk, hquiet⟩ := rel_step_joining (F := Quiet) (fun w => quiet_close w _)
    (fun it => quiet_publishFrame.publishRetainedMessage it _) h hj
  obtain ⟨hdir, hatt⟩ := joined_spec cfg w j hk
  exact ⟨hquiet.1.trans hdir, hquiet.2.trans hatt⟩

end MqttBroker
