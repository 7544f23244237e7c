import MqttBroker.Delivery.Resuming
import MqttBroker.Delivery.WillFanOut
import MqttBroker.Directory.Admissions

/-!
# The outcome of a call

A call ends in one of three ways, and which one is known before it begins. It
ends by an exception where the bytes, or the packet they make, are refused
(`World.refusal`), and nothing was done then (`read_throws_iff`). Otherwise it
returns, if there are packet ids for what it has to deliver (`World.Affords`),
and never returns if there are not (`step_isSome_iff`).

What it writes is known as well: its answers (`World.answers`), and a PUBLISH for
each delivery that is due (`World.due`). So what the broker writes in a run is,
call by call, what it replies (`written_run`).
-/

namespace MqttBroker

open Prog

variable {cfg : Config} {w w' : World} {e : Event} {l : List (World × Event)} {j : Joining}
  {s : SessionRef} {k : ChannelId} {c : MqttClient} {p : Packet}

/-! ## Exceptions -/

/-- The text of the exception that the handler of a packet ends by, with the client
    at the channel. -/
def Packet.refusal (holder : Option MqttClient) : Packet → Option String
  | .connect _ => none
  | .connack _ => some "CONNACK packet was received."
  | .suback _ => some "SUBACK packet was received."
  | .unsuback _ => some "UNSUBACK packet was received."
  | .pingresp _ => some "PINGRESP packet was received."
  | _ => if holder.isSome then none else some "First packet is not a CONNECT packet."

/-- The text of the exception that reading the buffer of a channel ends by. -/
def World.refusal (w : World) (k : ChannelId) (sb : Bytes) : Option String :=
  match channelRead sb with
  | .done _ => none
  | .handOn _ => some "the parameter of channel_read() is not a mqtt packet object."
  | .threw what => some what
  | .packet p _ => p.refusal (w.param k)

/-- A refused packet is not handled. -/
theorem packetHandler_of_refusal {what : String} (h : p.refusal (w.param k) = some what)
    (it : Iteration) (draws : List (Nat × Nat)) :
    packetHandler cfg it draws k p w = (.thrown what, w) := by
  cases p with
  | connect packet => cases h
  | connack | suback | unsuback | pingresp =>
    cases h
    rfl
  | publish | puback | pubrec | pubrel | pubcomp | subscribe | unsubscribe | pingreq | disconnect =>
    have h : (if (w.param k).isSome then none else some "First packet is not a CONNECT packet.") =
        some what := h
    split_ifs at h with hc
    cases h
    exact agent_bind_apply_none (Option.not_isSome_iff_eq_none.1 hc) _ _

/-! ## Replies -/

/-- The stored session that an accepted CONNECT resumes. -/
def World.storedSession (w : World) (j : Joining) : Option SessionRef :=
  if j.packet.cleanSession then none else w.sessions j.packet.clientId

theorem storedSession_eq_some : w.storedSession j = some s ↔ w.Resumes j s := by
  rw [World.storedSession, World.Resumes]
  cases j.packet.cleanSession <;> simp

/-- The CONNACK for an accepted CONNECT, and what is sent again after it. -/
def World.welcome (w : World) (j : Joining) : List Packet :=
  match w.storedSession j with
  | none => [.connack (mqttConnack false 0x00)]
  | some s => .connack (mqttConnack true 0x00) ::
      ((w.session s).publishForAck.map (fun p => .publish p.setDup) ++
        (w.session s).publishForRec.map (fun p => .publish p.setDup) ++
        (w.session s).packetIdForPubcomp.map fun id => .pubrel (mqttPubrel id))

/-- The return code for a CONNECT that is not accepted. -/
def World.refusalCode (w : World) (draws : List (Nat × Nat)) (packet : MqttConnect) : Nat :=
  (w.checkIntegrity draws packet).elim 0x00 fun r => if r.1 = 0x00 then 0x05 else r.1

/-- What the client `c` at the channel `k` is answered, before what it causes is
    delivered. -/
def Packet.answers (k : ChannelId) (c : MqttClient) : Packet → List (ChannelId × Packet)
  | .publish m => m.answer k
  | .pubrec a => [(c.channelId, .pubrel (mqttPubrel a.packetId))]
  | .pubrel a => [(c.channelId, .pubcomp (mqttPubcomp a.packetId))]
  | .subscribe p => [(k, .suback (p.suback c))]
  | .unsubscribe p => [(k, .unsuback (mqttUnsuback p.packetId))]
  | .pingreq _ => [(k, .pingresp mqttPingresp)]
  | _ => []

/-- What is written in a call before its deliveries. -/
def World.answers (cfg : Config) (w : World) (e : Event) : List (ChannelId × Packet) :=
  match w.joining cfg e with
  | some j => (w.welcome j).map fun p => (j.channelId, p)
  | none =>
    match e.packet with
    | none => []
    | some (.connect packet) => [(e.action.channelId,
        .connack (mqttConnack false (w.refusalCode e.draws packet)))]
    | some p => (w.param e.action.channelId).elim [] (p.answers e.action.channelId)

/-- What a call on the channel of the client `c` has to deliver. -/
def World.dueFor (w : World) (e : Event) (c : MqttClient) : List Delivery :=
  match e.packet with
  | some (.publish m) => w.deliveries e.iteration m
  | some (.subscribe p) => w.subscribeDeliveries e.iteration e.action.channelId c p
  | some _ => []
  | none =>
    if e.action = .disconnected e.action.channelId ∧ c.willFlag = true then w.willDeliveries c
    else []

/-- What a call has to deliver. -/
def World.due (cfg : Config) (w : World) (e : Event) : List Delivery :=
  match w.joining cfg e with
  | some j => (w.storedSession j).elim [] (w.resumeDeliveries cfg e.iteration j)
  | none => (w.param e.action.channelId).elim [] (w.dueFor e)

/-- The packets `out` are what a call writes: the answers, and a PUBLISH for each
    delivery that is due. -/
def World.Replies (cfg : Config) (w : World) (e : Event) (out : List (ChannelId × Packet)) : Prop :=
  ∃ xs : List Delivered, xs.map Delivered.toDelivery = w.due cfg e ∧
    out = w.answers cfg e ++ xs.map Delivered.written

/-- From `w` to `w'` the packets are written that reply to a call. The PUBLISHes that keep
    their packet ids have ids that were free, each its own, and are filed in the sessions. -/
def World.Replied (cfg : Config) (w : World) (e : Event) (w' : World) : Prop :=
  ∃ xs : List Delivered, xs.map Delivered.toDelivery = w.due cfg e ∧
    w'.written = w.written ++ (w.answers cfg e ++ xs.map Delivered.written) ∧
    (∀ s, (idsIn s xs).Nodup) ∧
    ∀ x ∈ xs, (w.session x.client.session).inUse x.id = false ∧
      (x.qos = 1 → x.publish ∈ (w'.session x.client.session).publishForAck) ∧
      (x.qos = 2 → x.publish ∈ (w'.session x.client.session).publishForRec)

/-- Each delivery that is due finds a packet id in its turn, and so does a will that is
    published. -/
def World.Affords (cfg : Config) (w : World) (e : Event) : Prop :=
  w.HasIdsFor (w.due cfg e) ∧ ∀ c, e.action = .disconnected e.action.channelId →
    w.param e.action.channelId = some c → c.willFlag = true →
      (w.topicAt (.entry false c.willTopic)).isSome → (w.session c.session).HasFreeId

/-- After the answers, which take no packet ids, the deliveries are made. -/
theorem replied_of_makes {v : World} (hv : v.written = w.written ++ w.answers cfg e)
    (hids : ∀ s, (v.session s).inUse = (w.session s).inUse) (h : v.Makes (w.due cfg e) w') :
    w.Replied cfg e w' := by
  obtain ⟨xs, hxs, hdelivers⟩ := h
  refine ⟨xs, hxs, by rw [hdelivers.written, hv, List.append_assoc], hdelivers.distinct,
    fun x hx => ⟨?_, hdelivers.filed hx⟩⟩
  rw [← hids]
  exact (hdelivers.fresh x hx).2

/-- Where nothing is due, the answers are all. -/
theorem replied_of_written (hdue : w.due cfg e = [])
    (h : w'.written = w.written ++ w.answers cfg e) : w.Replied cfg e w' :=
  ⟨[], hdue.symm, h.trans (congrArg _ (List.append_nil _).symm), fun _ => List.nodup_nil,
    fun _ hx => absurd hx List.not_mem_nil⟩

/-! ## CONNECT -/

theorem session_redeliver (w : World) (c : MqttClient) : (w.redeliver c).session =
    Function.update w.session c.session { w.session c.session with
      publishForAck := (w.session c.session).publishForAck.map MqttPublish.setDup
      publishForRec := (w.session c.session).publishForRec.map MqttPublish.setDup } := by
  simp only [World.redeliver, World.writeAll_eq, World.modifySession, Function.update_self,
    Function.update_idem]

/-- Marking the messages leaves their packet ids in use. -/
theorem inUse_redeliver (w : World) (c : MqttClient) (s : SessionRef) :
    ((w.redeliver c).session s).inUse = (w.session s).inUse := by
  funext id
  rw [session_redeliver, Function.update_apply]
  split_ifs with hs
  · subst hs
    simp only [Session.inUse, List.any_map]
    rfl
  · rfl

/-- When a session is resumed, the packet ids are in use that were. -/
theorem inUse_joined (cfg : Config) (hs : w.Resumes j s) (hk : (w.contexts j.channelId).isSome)
    (r : SessionRef) : ((w.joined cfg j).session r).inUse = (w.session r).inUse := by
  obtain ⟨_, -, v, -, -, -, -, ⟨-, -, hsession, hw⟩ | ⟨hnot, -⟩⟩ := joined_cases cfg w j hk
  · rw [hw, inUse_redeliver, World.session_resubscribe, hsession]
  · exact absurd hs (hnot s)

/-- An accepted CONNECT is answered with its CONNACK, and what is sent again. -/
theorem written_joined (cfg : Config) (w : World) (j : Joining)
    (hk : (w.contexts j.channelId).isSome) :
    (w.joined cfg j).written = w.written ++ (w.welcome j).map fun p => (j.channelId, p) := by
  have hwrites : ∀ (h : Option MqttClient) (ps : List Packet),
      (ps.map fun p => Effect.write j.channelId h p).filterMap Effect.written =
        ps.map fun p => (j.channelId, p) := by
    intro h ps
    rw [List.filterMap_map]
    exact congrFun (List.filterMap_eq_map (f := fun p => (j.channelId, p))) ps
  obtain ⟨r, sessionPresent, v, -, -, hlog, -, hcases⟩ := joined_cases cfg w j hk
  have hv : v.written = w.written ++ [(j.channelId, .connack (mqttConnack sessionPresent 0x00))] := by
    rw [World.written, hlog, List.filterMap_append]
    rfl
  rw [World.welcome]
  rcases hcases with ⟨hs, rfl, hsession, hw⟩ | ⟨hnot, rfl, -, hw⟩
  · rw [storedSession_eq_some.2 hs, hw, World.written, World.log_redeliver, List.filterMap_append,
      World.log_resubscribe, World.session_resubscribe, hsession]
    exact (congrArg₂ _ hv (hwrites _ _)).trans (List.append_assoc _ _ _)
  · have hnone : w.storedSession j = none :=
      Option.eq_none_iff_forall_ne_some.2 fun s hs => hnot s (storedSession_eq_some.1 hs)
    rw [hnone, hw, hv]
    rfl

/-- A CONNECT that is not accepted is answered with a return code. -/
theorem handleConnect_of_not_joining {draws : List (Nat × Nat)} {packet : MqttConnect}
    (h : w.joiningOf cfg draws k packet = none) (hsome : (w.checkIntegrity draws packet).isSome)
    (it : Iteration) : handleConnect cfg it draws k packet w = (.value (),
      (w.greet cfg k packet).write k
        (.connack (mqttConnack false (w.refusalCode draws packet)))) := by
  obtain ⟨⟨returnCode, packet'⟩, hcheck⟩ := Option.isSome_iff_exists.1 hsome
  rw [World.joiningOf, hcheck] at h
  rw [handleConnect, get_bind_apply, modify_bind_apply, World.refusalCode, hcheck]
  simp only [Option.elim_some] at h ⊢
  split_ifs at h with hcode hadmin hauth
  · rw [if_pos hcode, if_neg hcode]
    rfl
  · rw [if_neg hcode, if_neg hadmin, if_pos hauth, if_pos (not_not.1 hcode)]
    rfl

/-- An accepted CONNECT is answered, and then makes the deliveries of the retained
    messages. -/
theorem settles_joining (h : (broker cfg).Reachable w) (ha : w.Admits e.action)
    (hj : w.joining cfg e = some j) :
    Settles (packetHandler cfg e.iteration e.draws e.action.channelId (.connect j.packet))
      (w.HasIdsFor (w.due cfg e)) (fun _ t => w.Replied cfg e t) w := by
  obtain ⟨hp, hk, hjoining⟩ := joining_eq_some hj
  obtain ⟨hcontexts, hd⟩ := decoded_of_admits hp ha
  rw [hk] at hcontexts ⊢
  have hwritten : (w.joined cfg j).written = w.written ++ w.answers cfg e := by
    rw [World.answers, hj]
    exact written_joined cfg w j hcontexts
  have hdue : w.due cfg e = (w.storedSession j).elim [] (w.resumeDeliveries cfg e.iteration j) := by
    rw [World.due, hj]
  show Settles (handleConnect cfg e.iteration e.draws j.channelId j.packet) _ _ w
  rw [Settles, handleConnect_of_joining hjoining]
  cases hs : w.storedSession j with
  | none =>
    rw [hs] at hdue
    have hnew : ∀ s, ¬w.Resumes j s := by
      intro s hr
      rw [← storedSession_eq_some, hs] at hr
      cases hr
    rw [acceptConnect_of_new cfg e.iteration hnew]
    exact ⟨hdue ▸ hasIdsFor_nil w, replied_of_written hdue hwritten⟩
  | some s =>
    rw [hs] at hdue
    have hs := storedSession_eq_some.1 hs
    have hresumed := delivering_resumed cfg (retainedInv_of_reachable h) hcontexts hd hs e.iteration
    have hids := inUse_joined cfg hs hcontexts
    rw [acceptConnect_of_resumes cfg e.iteration hs]
    refine hresumed.mono ?_ fun _ t _ ht => replied_of_makes hwritten hids (hdue ▸ ht.2)
    rw [hdue]
    exact hasIdsFor_congr hids

/-! ## The other packets -/

/-- What a call brings the client at its channel, if no CONNECT. -/
theorem due_of_client (cfg : Config) (hp : e.packet = some p)
    (hconnect : ∀ packet, p ≠ .connect packet) (hc : w.param e.action.channelId = some c) :
    w.due cfg e = w.dueFor e c := by
  rw [World.due, joining_eq_none cfg w hp hconnect, hc]
  rfl

/-- A packet but a CONNECT is answered if it comes from a client. -/
theorem answers_of_packet (cfg : Config) (hp : e.packet = some p)
    (hconnect : ∀ packet, p ≠ .connect packet) : w.answers cfg e =
      (w.param e.action.channelId).elim [] (p.answers e.action.channelId) := by
  rw [World.answers, joining_eq_none cfg w hp hconnect, hp]
  cases p with
  | connect packet => exact absurd rfl (hconnect packet)
  | _ => rfl

theorem answers_of_client (cfg : Config) (hp : e.packet = some p)
    (hconnect : ∀ packet, p ≠ .connect packet) (hc : w.param e.action.channelId = some c) :
    w.answers cfg e = p.answers e.action.channelId c := by
  rw [answers_of_packet cfg hp hconnect, hc]
  rfl

/-- A handler that only answers. -/
theorem settles_of_answers (cfg : Config) (hp : e.packet = some p)
    (hconnect : ∀ packet, p ≠ .connect packet) (hc : w.param e.action.channelId = some c)
    (hpublish : ∀ m, p ≠ .publish m) (hsubscribe : ∀ packet, p ≠ .subscribe packet)
    {m : Server Unit} {t : World} (hrun : m w = (.value (), t))
    (hwritten : t.written = w.written ++ p.answers e.action.channelId c) :
    Settles m (w.HasIdsFor (w.due cfg e)) (fun _ t => w.Replied cfg e t) w := by
  have hdue : w.due cfg e = [] := by
    rw [due_of_client cfg hp hconnect hc, World.dueFor, hp]
    cases p with
    | publish m => exact absurd rfl (hpublish m)
    | subscribe packet => exact absurd rfl (hsubscribe packet)
    | _ => rfl
  rw [← answers_of_client cfg hp hconnect hc] at hwritten
  rw [Settles, hrun]
  exact ⟨hdue ▸ hasIdsFor_nil w, replied_of_written hdue hwritten⟩

theorem written_remove (w : World) (c : MqttClient) : (w.remove c).written = w.written := by
  rw [World.written, World.remove_eq]
  rfl

/-- A packet that is not refused is a CONNECT, or comes from a client. -/
theorem exists_client_of_refusal {holder : Option MqttClient} (h : p.refusal holder = none)
    (hconnect : ∀ packet, p ≠ .connect packet) : ∃ c, holder = some c := by
  cases holder with
  | some c => exact ⟨c, rfl⟩
  | none =>
    cases p with
    | connect packet => exact absurd rfl (hconnect packet)
    | _ => cases h

/-- A packet that is not refused is answered, and what is due is delivered, if there are
    packet ids for it. -/
theorem settles_packetHandler (h : (broker cfg).Reachable w) (ha : w.Admits e.action)
    (hp : e.packet = some p) (hrefusal : p.refusal (w.param e.action.channelId) = none)
    (hcheck : ∀ packet, p = .connect packet → (w.checkIntegrity e.draws packet).isSome) :
    Settles (packetHandler cfg e.iteration e.draws e.action.channelId p)
      (w.HasIdsFor (w.due cfg e)) (fun _ t => w.Replied cfg e t) w := by
  by_cases hconnect : ∃ packet, p = .connect packet
  · obtain ⟨packet, rfl⟩ := hconnect
    cases hj : w.joining cfg e with
    | some j =>
      obtain rfl := Packet.connect.inj (Option.some.inj (hp.symm.trans (joining_eq_some hj).1))
      exact settles_joining h ha hj
    | none =>
      have hnot : w.joiningOf cfg e.draws e.action.channelId packet = none := by
        rw [World.joining, Event.connect, hp] at hj
        exact hj
      have hdue : w.due cfg e = [] := by
        rw [World.due, hj]
        cases hc : w.param e.action.channelId with
        | none => rfl
        | some c => simp [World.dueFor, hp]
      have hrun := handleConnect_of_not_joining hnot (hcheck packet rfl) e.iteration
      show Settles (handleConnect cfg e.iteration e.draws e.action.channelId packet) _ _ w
      rw [Settles, hrun]
      refine ⟨hdue ▸ hasIdsFor_nil w, replied_of_written hdue ?_⟩
      rw [World.write, written_record, World.written, w.log_greet, World.answers, hj, hp]
      rfl
  have hne : ∀ packet, p ≠ .connect packet := fun packet h => hconnect ⟨packet, h⟩
  obtain ⟨c, hc⟩ := exists_client_of_refusal hrefusal hne
  have hanswers := @settles_of_answers w e c p cfg hp hne hc
  have hdue := due_of_client cfg hp hne hc
  have hreplies := answers_of_client cfg hp hne hc
  have hlog : ∀ {f : World → World}, (∀ v, (f v).written = v.written) → ∀ q,
      (f (w.record (.handled c q))).written = w.written := fun hf q =>
    (hf _).trans ((written_record w _).trans (List.append_nil _))
  have hwrite : ∀ {f : World → World}, (∀ v, (f v).written = v.written) → ∀ q k q',
      ((f (w.record (.handled c q))).write k q').written = w.written ++ [(k, q')] := by
    intro f hf q k q'
    rw [World.write, written_record, hlog hf]
    rfl
  have hsession : ∀ f (v : World), (v.modifySession c.session f).written = v.written :=
    fun _ _ => rfl
  have hunsubscribe : ∀ (entries : List UnsubscribeEntry) (v : World),
      (entries.foldl (fun v entry => v.unsubscribeEntry c entry) v).written = v.written := by
    intro entries
    induction entries with
    | nil => exact fun v => rfl
    | cons entry entries ih =>
      intro v
      rw [List.foldl_cons, ih, World.written, World.unsubscribeEntry_log]
      rfl
  have hremove : ∀ v : World, ((v.setParam e.action.channelId none).remove c).written =
      v.written := fun v => written_remove _ c
  cases p with
  | connect packet => exact absurd rfl (hne packet)
  | connack | suback | unsuback | pingresp => cases hrefusal
  | publish m =>
    obtain ⟨hm, hsize⟩ := sendable_of_decoded h (decoded_of_admits hp ha).2
    have hdueFor : w.dueFor e c = w.deliveries e.iteration m := by rw [World.dueFor, hp]
    rw [hdue, hdueFor]
    refine (settles_handlePublish hm hsize hc e.iteration).mono Iff.rfl fun _ t _ ht => ?_
    rw [← hdueFor, ← hdue] at ht
    exact replied_of_makes ((written_accepted w _ c m).trans (by rw [hreplies]; rfl))
      (fun s => by rw [session_accepted]; rfl) ht
  | subscribe packet =>
    have hdueFor : w.dueFor e c =
        w.subscribeDeliveries e.iteration e.action.channelId c packet := by rw [World.dueFor, hp]
    rw [hdue, hdueFor]
    refine (settles_handleSubscribe (retainedInv_of_reachable h) hc e.iteration packet).mono Iff.rfl
      fun _ t _ ht => ?_
    rw [← hdueFor, ← hdue] at ht
    exact replied_of_makes ((written_granted w _ c packet).trans (by rw [hreplies]; rfl))
      (fun s => by rw [session_granted]; rfl) ht
  | puback a =>
    exact hanswers (fun _ => Packet.noConfusion) (fun _ => Packet.noConfusion)
      (agent_bind_apply hc _ _) ((hlog (hsession _) _).trans (List.append_nil _).symm)
  | pubcomp a =>
    exact hanswers (fun _ => Packet.noConfusion) (fun _ => Packet.noConfusion)
      (agent_bind_apply hc _ _) ((hlog (hsession _) _).trans (List.append_nil _).symm)
  | pubrec a =>
    exact hanswers (fun _ => Packet.noConfusion) (fun _ => Packet.noConfusion)
      (agent_bind_apply hc _ _) (hwrite (hsession _) _ _ _)
  | pubrel a =>
    exact hanswers (fun _ => Packet.noConfusion) (fun _ => Packet.noConfusion)
      (agent_bind_apply hc _ _) (hwrite (hsession _) _ _ _)
  | pingreq a =>
    exact hanswers (fun _ => Packet.noConfusion) (fun _ => Packet.noConfusion)
      (agent_bind_apply hc _ _) (hwrite (f := id) (fun _ => rfl) _ _ _)
  | unsubscribe packet =>
    exact hanswers (fun _ => Packet.noConfusion) (fun _ => Packet.noConfusion)
      (agent_bind_apply hc _ _) (hwrite (hunsubscribe _) _ _ _)
  | disconnect packet =>
    exact hanswers (fun _ => Packet.noConfusion) (fun _ => Packet.noConfusion)
      (agent_bind_apply hc _ _) ((hlog hremove _).trans (List.append_nil _).symm)

/-! ## Calls -/

/-- Without an id for the client, `handle_connect` does not return. -/
theorem handleConnect_of_undecided {draws : List (Nat × Nat)} {packet : MqttConnect}
    (h : w.checkIntegrity draws packet = none) (it : Iteration) :
    handleConnect cfg it draws k packet w = (.stuck, w.greet cfg k packet) := by
  rw [handleConnect, get_bind_apply, modify_bind_apply, h]
  rfl

/-- A refused buffer is not handled. -/
theorem channelReadPipeline_of_refusal {sb : Bytes} {what : String}
    (h : w.refusal k sb = some what) (it : Iteration) (draws : List (Nat × Nat)) :
    channelReadPipeline cfg it draws k sb w = (.thrown what, w) := by
  rw [World.refusal] at h
  rw [channelReadPipeline]
  cases hread : channelRead sb with
  | done rest => simp [hread] at h
  | handOn rest =>
    rw [hread] at h
    cases h
    rfl
  | threw what' =>
    rw [hread] at h
    cases h
    rfl
  | packet p rest =>
    rw [hread] at h
    exact packetHandler_of_refusal h it draws

/-- What is not refused is handled without an exception. -/
theorem refusal_of_thrown (h : (broker cfg).Reachable w) {sb : Bytes} (ha : w.Admits (.read k sb))
    {it : Iteration} {draws : List (Nat × Nat)} {what : String} {t : World}
    (hrun : channelReadPipeline cfg it draws k sb w = (.thrown what, t)) :
    w.refusal k sb = some what ∧ t = w := by
  cases hrefusal : w.refusal k sb with
  | some what' =>
    cases (channelReadPipeline_of_refusal hrefusal it draws).symm.trans hrun
    exact ⟨rfl, rfl⟩
  | none =>
    exfalso
    rw [channelReadPipeline] at hrun
    rw [World.refusal] at hrefusal
    cases hread : channelRead sb with
    | done rest =>
      rw [hread] at hrun
      cases hrun
    | handOn rest => simp [hread] at hrefusal
    | threw what' => simp [hread] at hrefusal
    | packet p rest =>
      rw [hread] at hrun hrefusal
      by_cases hcheck : ∃ packet, p = .connect packet ∧ w.checkIntegrity draws packet = none
      · obtain ⟨packet, rfl, hnone⟩ := hcheck
        cases (handleConnect_of_undecided hnone it).symm.trans hrun
      · have hp : (⟨.read k sb, it, draws⟩ : Event).packet = some p := by
          simp [Event.packet, hread]
        refine (settles_packetHandler h ha hp hrefusal fun packet heq => ?_).returns.ne_thrown
          what t hrun
        exact Option.isSome_iff_ne_none.2 fun hnone => hcheck ⟨packet, heq, hnone⟩

/-- Reading the buffer of a channel ends by an exception exactly if it, or the packet in
    it, is refused, and then nothing is done. -/
theorem read_throws_iff (h : (broker cfg).Reachable w) {sb : Bytes} (ha : w.Admits (.read k sb))
    (it : Iteration) (draws : List (Nat × Nat)) (what : String) (t : World) :
    channelReadPipeline cfg it draws k sb w = (.thrown what, t) ↔
      w.refusal k sb = some what ∧ t = w := by
  refine ⟨refusal_of_thrown h ha, ?_⟩
  rintro ⟨hwhat, rfl⟩
  exact channelReadPipeline_of_refusal hwhat it draws

/-- A PUBLISH on a channel without a client is refused. -/
theorem read_throws_before_connect : ∃ w, (broker mqttdCfg).Reachable w ∧
    channelReadPipeline mqttdCfg ⟨id, fun _ => .refl _⟩ [] 1 (publishBytes 0 [0x61] [] []) w =
      (.thrown "First packet is not a CONNECT packet.", w) := by
  have hruns : runs (fun _ _ => true) [.accept 1] (fun w => (w.contexts 1).isSome &&
      w.refusal 1 (publishBytes 0 [0x61] [] []) = some "First packet is not a CONNECT packet.") =
        true := by
    decide +kernel
  obtain ⟨l, w, hl, -, hrun⟩ := exists_run hruns
  obtain ⟨hk, hrefusal⟩ := Bool.and_eq_true_iff.1 hrun
  exact ⟨w, hl.reachable, (read_throws_iff hl.reachable ⟨hk, by decide⟩ _ _ _ _).2
    ⟨of_decide_eq_true hrefusal, rfl⟩⟩

theorem settles_guarded {m : Server Unit} {C : Prop} {Q : Unit → World → Prop}
    (h : Settles m C Q w) : Settles (guarded k m) C Q w := settles_tryCatch h

/-- A call that brings nothing to deliver, and nothing to answer. -/
theorem settles_of_idle {m : Server Unit} (hdue : w.due cfg e = []) (hanswers : w.answers cfg e = [])
    (hwill : ∀ c, e.action = .disconnected e.action.channelId →
      w.param e.action.channelId ≠ some c)
    (hrun : ∃ t, m w = (.value (), t) ∧ t.written = w.written) :
    Settles m (w.Affords cfg e) (fun _ t => w.Replied cfg e t) w := by
  obtain ⟨t, hrun, hwritten⟩ := hrun
  rw [Settles, hrun]
  refine ⟨⟨hdue ▸ hasIdsFor_nil w, fun c hlost hc => absurd hc (hwill c hlost)⟩, ?_⟩
  exact replied_of_written hdue (by rw [hanswers, hwritten, List.append_nil])

/-- Without a packet nobody is answered. -/
theorem answers_of_no_packet (cfg : Config) (w : World) (hp : e.packet = none) :
    w.joining cfg e = none ∧ w.answers cfg e = [] := by
  have hj : w.joining cfg e = none := by
    rw [World.joining, Event.connect, hp]
    rfl
  exact ⟨hj, by rw [World.answers, hj, hp]⟩

/-- A refused packet is not answered. -/
theorem idle_of_refusal (cfg : Config) {what : String} (hp : e.packet = some p)
    (h : p.refusal (w.param e.action.channelId) = some what) :
    w.due cfg e = [] ∧ w.answers cfg e = [] := by
  have hconnect : ∀ packet, p ≠ .connect packet := by
    rintro packet rfl
    cases h
  have hj := joining_eq_none cfg w hp hconnect
  rw [World.due, World.answers, hj, hp]
  cases hc : w.param e.action.channelId with
  | none =>
    cases p with
    | connect packet => exact absurd rfl (hconnect packet)
    | _ => exact ⟨rfl, rfl⟩
  | some c =>
    rw [hc] at h
    cases p with
    | connack | suback | unsuback | pingresp => exact ⟨by simp [World.dueFor, hp], rfl⟩
    | _ => cases h

/-- When the channel of a client is lost, its will is delivered, if there are packet ids. -/
theorem settles_lost (h : (broker cfg).Reachable w) (he : e.action = .disconnected k)
    (hc : w.param k = some c) : Settles (guarded k (handleChannelDisconnected k)) (w.Affords cfg e)
      (fun _ t => w.Replied cfg e t) w := by
  have hk : e.action.channelId = k := by
    rw [he]
    rfl
  have hp : e.packet = none := by rw [Event.packet, he]
  obtain ⟨hj, hanswers⟩ := answers_of_no_packet cfg w hp
  have hdue : w.due cfg e = if c.willFlag = true then w.willDeliveries c else [] := by
    rw [World.due, hj, hk, hc]
    show w.dueFor e c = _
    rw [World.dueFor, hp, hk]
    simp only [he, true_and]
  have hwritten : w.written = w.written ++ w.answers cfg e := by rw [hanswers, List.append_nil]
  refine settles_guarded ?_
  rw [Settles, handleChannelDisconnected, get_bind_apply, hc]
  show Settles (publishWillMessage c >>= fun _ => modify fun w => w.remove c) _ _ w
  by_cases hwill : c.willFlag = true
  · rw [if_pos hwill] at hdue
    obtain ⟨hqos, hsize⟩ := (retainedInv_of_reachable h).will hc
    have hafford : w.Affords cfg e ↔ w.topicAt (.entry false c.willTopic) = none ∨
        (w.session c.session).HasFreeId ∧ w.HasIdsFor (w.willDeliveries c) := by
      have hnone : w.topicAt (.entry false c.willTopic) = none → w.willDeliveries c = [] := by
        intro ht
        rw [World.willDeliveries, World.subscribersAt, ht]
        rfl
      rw [World.Affords, hdue, hk, hc]
      refine ⟨fun h => ?_, fun h => ⟨?_, fun c' _ hc' _ ht => ?_⟩⟩
      · obtain ⟨hids, hfree⟩ := h
        rcases ht : w.topicAt (.entry false c.willTopic) with _ | t
        · exact .inl rfl
        · exact .inr ⟨hfree c he rfl hwill (by rw [ht]; rfl), hids⟩
      · exact h.elim (fun ht => hnone ht ▸ hasIdsFor_nil w) And.right
      · obtain rfl := Option.some.inj hc'
        exact (h.resolve_left (Option.isSome_iff_ne_none.1 ht)).1
    refine settles_bind (settles_publishWillMessage hwill hqos hsize w) hafford.1 fun _ u hids hu => ?_
    obtain ⟨next, hmakes⟩ := hu
    have hreplied : w.Replied cfg e u := replied_of_makes
      ((written_willNoted w c next).trans hwritten) (inUse_willNoted w c next) (hdue ▸ hmakes)
    obtain ⟨xs, hxs, hu, hdistinct, hfiled⟩ := hreplied
    have hsession : (u.remove c).session = u.session := by rw [World.remove_eq]
    exact ⟨hafford.2 hids, xs, hxs, (written_remove u c).trans hu, hdistinct, hsession ▸ hfiled⟩
  · have hrun : (w.record (.will c)).written = w.written :=
      (written_record w _).trans (List.append_nil _)
    rw [if_neg hwill] at hdue
    rw [publishWillMessage, if_neg hwill]
    refine ⟨⟨hdue ▸ hasIdsFor_nil w, fun c' _ hc' hwill' => ?_⟩,
      replied_of_written hdue ((written_remove _ c).trans (hrun.trans hwritten))⟩
    rw [hk, hc] at hc'
    exact absurd ((Option.some.inj hc') ▸ hwill') hwill

/-- A call for nobody closes a channel at most. -/
theorem program_of_idle (hp : e.packet = none) (hlost : ∀ c,
      e.action = .disconnected e.action.channelId → w.param e.action.channelId ≠ some c) :
    ∃ t, e.program cfg w = (.value (), t) ∧ t.written = w.written := by
  rw [Event.program]
  rw [Event.packet] at hp
  generalize e.action = a at hp hlost
  cases a with
  | accept k => exact ⟨w, rfl, rfl⟩
  | userEvent k => exact ⟨w.close k, rfl, rfl⟩
  | read k sb =>
    have hthrown : ∀ what : String, ∃ t,
        guarded k (Prog.throw what) w = (.value (), t) ∧ t.written = w.written :=
      fun what => ⟨w.close k, guarded_eq_value.2 (.inr ⟨what, w, rfl, rfl⟩), rfl⟩
    dsimp only [channelReadPipeline] at hp ⊢
    cases hread : channelRead sb with
    | packet p rest => simp [hread] at hp
    | done rest => exact ⟨w, guarded_eq_value.2 (.inl rfl), rfl⟩
    | handOn rest => exact hthrown _
    | threw what => exact hthrown what
  | written k =>
    refine ⟨if (w.param k).isNone then w.close k else w, guarded_eq_value.2 (.inl ?_), ?_⟩
    · rw [channelWritten, get_bind_apply]
      split_ifs <;> rfl
    · split_ifs <;> rfl
  | disconnected k =>
    refine ⟨w, guarded_eq_value.2 (.inl ?_), rfl⟩
    rw [handleChannelDisconnected, get_bind_apply]
    have hnone : w.param k = none := Option.eq_none_iff_forall_ne_some.2 fun c => hlost c rfl
    rw [hnone]
    rfl

/-- What the broker does in a call. -/
theorem settles_program (h : (broker cfg).Reachable w) (ha : w.Admits e.action)
    (hcheck : ∀ packet, e.packet = some (.connect packet) →
      (w.checkIntegrity e.draws packet).isSome) :
    Settles (e.program cfg) (w.Affords cfg e) (fun _ t => w.Replied cfg e t) w := by
  cases hp : e.packet with
  | some p =>
    obtain ⟨sb, rest, hact, -⟩ := packet_eq_some hp
    have hlost : ∀ c, e.action = .disconnected e.action.channelId →
        w.param e.action.channelId ≠ some c := by
      intro c hlost
      cases hact.symm.trans hlost
    rw [program_of_packet hp]
    cases hrefusal : p.refusal (w.param e.action.channelId) with
    | some what =>
      obtain ⟨hdue, hanswers⟩ := idle_of_refusal cfg hp hrefusal
      refine settles_of_idle hdue hanswers hlost ⟨w.close e.action.channelId, ?_, rfl⟩
      exact guarded_eq_value.2 (.inr ⟨what, w, packetHandler_of_refusal hrefusal _ _, rfl⟩)
    | none =>
      refine (settles_guarded (settles_packetHandler h ha hp hrefusal fun packet heq => ?_)).mono
        ⟨fun hids => ⟨hids, fun c hdisconnected hc => absurd hc (hlost c hdisconnected)⟩, And.left⟩
        fun _ _ _ ht => ht
      exact hcheck packet (heq ▸ hp)
  | none =>
    obtain ⟨hj, hanswers⟩ := answers_of_no_packet cfg w hp
    by_cases hlost : ∃ c, e.action = .disconnected e.action.channelId ∧
        w.param e.action.channelId = some c
    · obtain ⟨c, he, hc⟩ := hlost
      have hsettles := settles_lost h he hc
      rw [Event.program, he]
      exact hsettles
    · -- Nobody is served, so nothing is due.
      have hdue : w.due cfg e = [] := by
        rw [World.due, hj]
        cases hc : w.param e.action.channelId with
        | none => rfl
        | some c =>
          show w.dueFor e c = []
          rw [World.dueFor, hp]
          exact if_neg fun h => hlost ⟨c, h.1, hc⟩
      exact settles_of_idle hdue hanswers (fun c he hc => hlost ⟨c, he, hc⟩)
        (program_of_idle hp fun c he hc => hlost ⟨c, he, hc⟩)

/-! ## Steps and runs -/

/-- From a reachable state, a call returns exactly if each of its deliveries, of whatever
    QoS, finds a packet id in its turn, and the will that it publishes, too. -/
theorem step_isSome_iff (h : (broker cfg).Reachable w) (ha : w.Admits e.action)
    (hdraws : e.draws ≠ []) : ((broker cfg).step w e).isSome ↔ w.Affords cfg e := by
  have hsettles := settles_program h ha fun packet _ => checkIntegrity_isSome h hdraws packet
  constructor
  · intro hst
    obtain ⟨w', hst⟩ := Option.isSome_iff_exists.1 hst
    obtain ⟨-, t, hrun, -⟩ := (step_eq_some cfg).1 hst
    exact (hsettles.returns.of_value hrun).1
  · intro hafford
    obtain ⟨⟨⟩, t, hrun, -⟩ := hsettles.exists_value hafford
    exact Option.isSome_iff_exists.2 ⟨_, (step_eq_some cfg).2 ⟨ha, t, hrun, rfl⟩⟩

/-- A message of QoS 1 goes to its subscriber, for whom there is a packet id. -/
theorem step_isSome_publish : ∃ w, (broker mqttdCfg).Reachable w ∧
    w.Affords mqttdCfg (Action.read 1 (publishBytes 2 [0x61] [0x00, 0x07] [])).event ∧
    w.due mqttdCfg (Action.read 1 (publishBytes 2 [0x61] [0x00, 0x07] [])).event ≠ [] := by
  have hruns : runs (fun _ _ => true) [.accept 1, .read 1 (connectBytes 0x02 [0x61] []),
      .read 1 (subscribeBytes [0x61] 1)] (fun w => ((broker mqttdCfg).step w
        (Action.read 1 (publishBytes 2 [0x61] [0x00, 0x07] [])).event).any fun _ =>
          !(w.due mqttdCfg (Action.read 1 (publishBytes 2 [0x61] [0x00, 0x07] [])).event).isEmpty) =
        true := by
    decide +kernel
  obtain ⟨l, w, w', hl, -, hst, hdue⟩ := exists_run_step hruns
  refine ⟨w, hl.reachable, (step_isSome_iff hl.reachable ((step_eq_some _).1 hst).1
    (List.cons_ne_nil _ _)).1 (by rw [hst]; rfl), fun hnil => ?_⟩
  rw [hnil] at hdue
  cases hdue

/-- In a step, an id is found for the client. -/
theorem checkIntegrity_isSome_of_step (hst : (broker cfg).step w e = some w')
    {packet : MqttConnect} (hp : e.packet = some (.connect packet)) :
    (w.checkIntegrity e.draws packet).isSome := by
  obtain ⟨-, t, hrun, -⟩ := (step_eq_some cfg).1 hst
  refine Option.isSome_iff_ne_none.2 fun hnone => ?_
  -- `generate_unique_id` would go on.
  rw [program_of_packet hp] at hrun
  have hstuck : packetHandler cfg e.iteration e.draws e.action.channelId (.connect packet) w =
      (.stuck, _) := handleConnect_of_undecided hnone e.iteration
  rw [guarded_eq_value, hstuck] at hrun
  obtain hv | ⟨_, _, hv, -⟩ := hrun <;> cases hv

/-- In a step, what replies to the call is written. -/
theorem replied_of_step (h : (broker cfg).Reachable w) (hst : (broker cfg).step w e = some w') :
    w.Replied cfg e w' := by
  have hcheck : ∀ packet, e.packet = some (.connect packet) →
      (w.checkIntegrity e.draws packet).isSome := fun _ => checkIntegrity_isSome_of_step hst
  obtain ⟨ha, t, hrun, rfl⟩ := (step_eq_some cfg).1 hst
  obtain ⟨xs, hxs, ht, hdistinct, hfiled⟩ := ((settles_program h ha hcheck).returns.of_value hrun).2
  refine ⟨xs, hxs, ?_, hdistinct, ?_⟩
  · rw [← ht]
    cases e.action <;> rfl
  · have hsession : (t.conclude e.action).session = t.session := by cases e.action <;> rfl
    rwa [hsession]

/-- What is written in a run is what its calls write, one after the other. -/
theorem written_eq_flatMap (h : (broker cfg).Run l w) :
    w.written = l.flatMap fun x => x.1.writes cfg x.2 := by
  induction h with
  | init => rfl
  | step h hst ih =>
    obtain ⟨xs, -, hwritten, -⟩ := replied_of_step h.reachable hst
    rw [List.flatMap_append, List.flatMap_singleton, ← ih, writes_of_written hst hwritten, hwritten]

/-- What is written in a run is what replies to its calls, call by call. -/
theorem written_run (h : (broker cfg).Run l w) : ∃ outs,
    List.Forall₂ (fun x out => x.1.Replies cfg x.2 out) l outs ∧ w.written = outs.flatten := by
  induction h with
  | init => exact ⟨[], .nil, rfl⟩
  | step h hst ih =>
    obtain ⟨outs, houts, hwritten⟩ := ih
    obtain ⟨xs, hxs, hw, -⟩ := replied_of_step h.reachable hst
    refine ⟨outs ++ [_], List.rel_append houts (.cons ⟨xs, hxs, rfl⟩ .nil), ?_⟩
    rw [hw, hwritten, List.flatten_append, List.flatten_singleton]

/-- Two clients connect, one subscribes, and the other sends it a message of QoS 1. -/
theorem written_run_publish : ∃ l w outs, (broker mqttdCfg).Run l w ∧
    List.Forall₂ (fun x out => x.1.Replies mqttdCfg x.2 out) l outs ∧ w.written = outs.flatten ∧
    w.written.length = 5 := by
  have hruns : runs (fun _ _ => true) [.accept 1, .accept 2, .read 1 (connectBytes 0x02 [0x61] []),
      .read 2 (connectBytes 0x02 [0x62] []), .read 1 (subscribeBytes [0x74] 1),
      .read 2 (publishBytes 2 [0x74] [0x00, 0x07] [])] (fun w => w.written.length = 5) = true := by
    decide +kernel
  obtain ⟨l, w, hl, -, hlength⟩ := exists_run hruns
  obtain ⟨outs, houts, hwritten⟩ := written_run hl
  exact ⟨l, w, outs, hl, houts, hwritten, of_decide_eq_true hlength⟩

end MqttBroker