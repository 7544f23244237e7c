import MqttBroker.Delivery.Outcomes
import MqttBroker.Interleaving.Publishing

/-!
# The broker as a serial execution

The broker of `Server.Broker` handles one call after the other. Its runs are
interleavings of the threads of the calls: those in which a thread takes all of its
steps before the next one takes any (`runs_serially`). So what holds of the threads in
every interleaving holds in the runs of the broker.

* `call_alone`: the thread of a call, alone, does to the tables what the broker does.
-/

namespace MqttBroker

open Prog

/-- The thread of a call that hands on a packet of the client `c`. -/
def World.packetCall (w : World) (it : Iteration) (k : ChannelId) (c : MqttClient) : Packet → Call
  | .publish m => .publishing (.topic m ((it.order (w.topics true).elems).map Topic.topicFilter))
  | .subscribe p => .handler (.subscribing c (.entry p.topicFilters []))
  | .unsubscribe p => .handler (.unsubscribing c (.entry p.topicFilters))
  | .disconnect _ => .handler (.leaving (.disconnect k))
  | _ => .returned

/-- The thread of a call; a will is published with the packet id `id`. -/
def World.call (cfg : Config) (w : World) (e : Event) (id : UInt16) : Call :=
  match w.joining cfg e with
  | some j => .handler (.connecting (j.newcomer w) .lookUp)
  | none =>
    match e.packet with
    | some p => (w.param e.action.channelId).elim .returned fun c =>
        w.packetCall e.iteration e.action.channelId c p
    | none =>
      if e.action = .disconnected e.action.channelId then
        .losing e.action.channelId (.channelDisconnected e.action.channelId id)
      else .returned

/-- The threads of the calls, before their first step. -/
def callPool (ts : List Call) : Pool ℕ Call Shared where
  shared := World.start.share
  thread i := ts.getD i .returned

variable {cfg : Config} {w w' : World} {e : Event} {l : List (World × Event)} {s : Shared}
  {c : MqttClient} {p : Packet}

theorem thread_callPool (ts : List Call) (i : ℕ) : (callPool ts).thread i = ts[i]?.getD .returned :=
  List.getD_eq_getElem?_getD

/-- From a shared state that shows the state before a call, the thread of the call comes
    alone to its end, and to a shared state that shows the state after. -/
def Call.Completes (t : Call) (s : Shared) (w' : World) : Prop :=
  ∃ t' s', calls.Alone t s t' s' ∧ calls.Finished t' ∧ s'.Shows w'

/-- A call that touches no table. -/
theorem completes_returned (hs : s.Shows w) (h : Showing.rel w w') :
    Call.returned.Completes s w' := ⟨_, s, .refl _ _, finished_returned, h s hs⟩

theorem completes_handler {h h' : Handler} {s' : Shared} (ha : handlers.Alone h s h' s')
    (hfin : ∀ s, handlers.next h' s = none) (hs : s'.Shows w') :
    (Call.handler h).Completes s w' :=
  ⟨_, s', alone_handler ha, fun s => by simp only [calls, hfin, Option.map_none], hs⟩

/-! ## Packets -/

/-- After the handler of a packet, the channel may be closed. -/
theorem showing_of_handled (hst : (broker cfg).step w e = some w') (hp : e.packet = some p) :
    Showing.rel (packetHandler cfg e.iteration e.draws e.action.channelId p w).2 w' := by
  obtain ⟨-, t, hrun, rfl⟩ := (step_eq_some cfg).1 hst
  obtain ⟨sb, rest, hact, -⟩ := packet_eq_some hp
  rw [program_of_packet hp] at hrun
  have hrel := rel_guarded (fun w => showing_close w e.action.channelId) hrun
  rw [hact] at hrel ⊢
  exact hrel

/-- The handler of a packet that is not refused returns. -/
theorem packetHandler_of_step (h : (broker cfg).Reachable w)
    (hst : (broker cfg).step w e = some w') (hp : e.packet = some p)
    (hconnect : ∀ packet, p ≠ .connect packet)
    (hrefusal : p.refusal (w.param e.action.channelId) = none) :
    packetHandler cfg e.iteration e.draws e.action.channelId p w = (.value (), w') := by
  obtain ⟨ha, t, hrun, rfl⟩ := (step_eq_some cfg).1 hst
  obtain ⟨sb, rest, hact, -⟩ := packet_eq_some hp
  rw [program_of_packet hp] at hrun
  rw [hact]
  have hreturns := (settles_packetHandler h ha hp hrefusal
    fun packet heq => absurd heq (hconnect packet)).returns
  rcases guarded_eq_value.1 hrun with hv | ⟨what, t', ht, -⟩
  · exact hv
  · exact absurd ht (hreturns.ne_thrown what t')

/-- What a client is served with is not shown. -/
theorem showing_served (w : World) (k : ChannelId) (c : MqttClient) (p : Packet) :
    Showing.rel w (w.served k c p) := by
  have hserved := served_eq w k c p
  refine fun s hs => hs.of_tables ?_ ?_ ?_ (w.subscriptions_served k c p) ?_ (fun b f => ?_) ?_ <;>
    rw [hserved] <;> rfl

/-- A packet of a client. -/
theorem packetCall_completes (h : (broker cfg).Reachable w)
    (hst : (broker cfg).step w e = some w') (hs : s.Shows w) (hp : e.packet = some p)
    (hc : w.param e.action.channelId = some c) (hconnect : ∀ packet, p ≠ .connect packet) :
    (w.packetCall e.iteration e.action.channelId c p).Completes s w' := by
  have hserved := showing_served w e.action.channelId c p
  have hreturned := packetHandler_of_step h hst hp hconnect
  rw [hc] at hreturned
  cases p with
  | connect packet => exact absurd rfl (hconnect packet)
  | connack | suback | unsuback | pingresp => exact completes_returned hs (showing_of_handled hst hp)
  | publish m =>
    have hrun : handlePublish e.iteration e.action.channelId m w = (.value (), w') := hreturned rfl
    rw [handlePublish, agent_bind_apply hc, modify_bind_apply] at hrun
    have hrun : forwardPublish e.iteration m (w.served e.action.channelId c (.publish m)) =
      (.value (), w') := hrun
    obtain ⟨s', ha, hs'⟩ := publishing_alone (hserved s hs) hrun
    rw [served_eq] at ha
    exact ⟨_, s', ha, fun _ => rfl, hs'⟩
  | subscribe packet =>
    obtain ⟨granted, s', ha, hs'⟩ := subscribing_alone hs hc (hreturned rfl)
    exact completes_handler ha (fun _ => rfl) hs'
  | unsubscribe packet =>
    obtain ⟨s', ha, hs'⟩ := unsubscribing_alone hs hc (hreturned rfl)
    exact completes_handler ha (fun _ => rfl) hs'
  | disconnect packet =>
    obtain ⟨s', ha, hs'⟩ := disconnect_alone hs (hreturned rfl)
    exact completes_handler ha (fun _ => rfl) hs'
  | puback a | pubcomp a =>
    obtain ⟨-, rfl⟩ := Prod.mk.inj ((agent_bind_apply hc _ _).symm.trans (hreturned rfl))
    exact completes_returned hs hserved
  | pubrec a | pubrel a | pingreq a =>
    obtain ⟨-, rfl⟩ := Prod.mk.inj ((agent_bind_apply hc _ _).symm.trans (hreturned rfl))
    exact completes_returned hs (Showing.trans hserved (showing_record _ _))

/-! ## Calls -/

/-- A CONNECT that is not accepted. -/
theorem showing_of_not_joining (hst : (broker cfg).step w e = some w') {packet : MqttConnect}
    (hp : e.packet = some (.connect packet)) (hj : w.joining cfg e = none) :
    Showing.rel w w' := by
  have hnot : w.joiningOf cfg e.draws e.action.channelId packet = none := by
    rw [World.joining, Event.connect, hp] at hj
    exact hj
  have hgreet := showing_greet w cfg e.action.channelId packet
  exact Showing.trans hgreet (Showing.trans (rel_handleConnect_of_not_joining
    (fun w _ _ => showing_record w _) hnot) (showing_of_handled hst hp))

/-- The contexts of the channels are not shown, but who is at the channels. -/
theorem showing_contexts (hw : w' = { w with contexts := w'.contexts })
    (hparam : w'.param = w.param) : Showing.rel w w' := by
  refine fun s hs => hs.of_tables hparam ?_ ?_ (fun r => ?_) ?_ (fun b f => ?_) ?_ <;>
    rw [hw] <;> rfl

/-- A call that brings no packet. -/
theorem completes_of_no_packet (hst : (broker cfg).step w e = some w') (hs : s.Shows w)
    (hp : e.packet = none) : ∃ id, (w.call cfg e id).Completes s w' := by
  obtain ⟨hadmits, t, hrun, rfl⟩ := (step_eq_some cfg).1 hst
  have hcall : ∀ id, w.call cfg e id = if e.action = .disconnected e.action.channelId then
      .losing e.action.channelId (.channelDisconnected e.action.channelId id) else .returned := by
    intro id
    rw [World.call, (answers_of_no_packet cfg w hp).1, hp]
  simp only [hcall]
  rw [Event.program] at hrun
  rw [Event.packet] at hp
  generalize e.action = a at hadmits hrun hp
  cases a with
  | accept k =>
    cases hrun
    exact ⟨0, completes_returned hs (showing_contexts rfl (param_accept hadmits))⟩
  | read k sb =>
    have hrel := rel_guarded (fun w => showing_close w k) hrun
    rw [channelReadPipeline_of_no_packet fun p rest hread => by simp [hread] at hp] at hrel
    exact ⟨0, completes_returned hs hrel⟩
  | written k =>
    have hwritten : Within Showing (channelWritten k) := within_bind within_get fun v =>
      within_ite (within_modify fun w => showing_close w k) (within_pure ())
    have hrel := rel_guarded (fun w => showing_close w k) hrun
    exact ⟨0, completes_returned hs (Showing.trans (hwritten w) hrel)⟩
  | userEvent k =>
    cases hrun
    exact ⟨0, completes_returned hs (showing_close w k)⟩
  | disconnected k =>
    rcases guarded_eq_value.1 hrun with hv | ⟨what, t', ht, -⟩
    · obtain ⟨id, s', ha, hs'⟩ := channelDisconnected_alone hs hv
      -- Shan.Net drops the context, with whoever still is at the channel.
      have hdropped : (s'.setParam k none).Shows (t.conclude (.disconnected k)) :=
        { hs' with param := by rw [param_conclude_disconnected, ← hs'.param]; rfl }
      have hlost : Action.disconnected k = .disconnected (Action.disconnected k).channelId := rfl
      refine ⟨id, ?_⟩
      rw [if_pos hlost]
      exact ⟨.returned, _, (alone_losing ha k).trans (.step rfl (.refl _ _)), finished_returned,
        hdropped⟩
    · exact absurd ht (handleChannelDisconnected_ne_thrown k w t' what)

/-- The thread of a call, with no other between its steps, does what the broker does. -/
theorem call_alone (h : (broker cfg).Reachable w) (hst : (broker cfg).step w e = some w')
    (hs : s.Shows w) : ∃ id, (w.call cfg e id).Completes s w' := by
  cases hp : e.packet with
  | none => exact completes_of_no_packet hst hs hp
  | some p =>
    refine ⟨0, ?_⟩
    rw [World.call]
    cases hj : w.joining cfg e with
    | some j =>
      obtain ⟨hk, hrel⟩ := rel_step_joining (F := Showing) (fun w => showing_close w _)
        (fun it fs gs => showing_publishRetainedMessage it _ fs gs) hst hj
      -- The retained messages that are sent in the end touch no table.
      obtain ⟨c, s', ha, hs'⟩ := connecting_alone hs hk
      exact completes_handler ha (fun _ => rfl) (hrel s' hs')
    | none =>
      simp only [hp]
      by_cases hconnect : ∃ packet, p = .connect packet
      · obtain ⟨packet, rfl⟩ := hconnect
        have hshow := completes_returned hs (showing_of_not_joining hst hp hj)
        cases w.param e.action.channelId <;> exact hshow
      · have hne : ∀ packet, p ≠ .connect packet := fun packet h => hconnect ⟨packet, h⟩
        cases hc : w.param e.action.channelId with
        | some c => exact packetCall_completes h hst hs hp hc hne
        | none =>
          -- The first packet is not a CONNECT: an exception closes the channel.
          obtain ⟨what, hthrown⟩ : ∃ what, packetHandler cfg e.iteration e.draws
              e.action.channelId p w = (.thrown what, w) := packetHandler_of_none hc hne
          have hrel := showing_of_handled hst hp
          rw [hthrown] at hrel
          exact completes_returned hs hrel

/-- Every run of the broker is an interleaving of the threads of its calls, in which they take
    their steps one thread after the other. -/
theorem runs_serially (h : (broker cfg).Run l w) : ∃ ts steps q,
    List.Forall₂ (fun x t => ∃ id, t = x.1.call cfg x.2 id) l ts ∧
    (calls.interleave (callPool ts)).Run steps q ∧
    (steps.map Prod.snd).Pairwise (· ≤ ·) ∧ (∀ i, calls.Finished (q.thread i)) ∧
    q.shared.Shows w := by
  -- By induction on the run: the thread of a call starts where those before it ended.
  have hserial : ∃ ts s, List.Forall₂ (fun x t => ∃ id, t = x.1.call cfg x.2 id) l ts ∧
      calls.Serial ts World.start.share s ∧ s.Shows w := by
    induction h with
    | init => exact ⟨[], _, .nil, .nil _, shows_share _⟩
    | @step l w w' e h hst ih =>
      obtain ⟨ts, s, hts, hserial, hs⟩ := ih
      obtain ⟨id, t', s', ha, hfin, hs'⟩ := call_alone h.reachable hst hs
      exact ⟨ts ++ [w.call cfg e id], s', List.rel_append hts (.cons ⟨id, rfl⟩ .nil),
        hserial.snoc ha hfin, hs'⟩
  obtain ⟨ts, s, hts, hserial, hs⟩ := hserial
  obtain ⟨steps, q, hrun, rfl, hsorted, hdone, hrest, -⟩ := hserial.exists_run
    (f := (callPool ts).thread) fun i t hi => by rw [thread_callPool, hi]; rfl
  refine ⟨ts, steps, q, hts, hrun, hsorted, fun i => ?_, hs⟩
  by_cases hi : i < ts.length
  · exact hdone i hi
  · rw [hrest i (Nat.le_of_not_lt hi), thread_callPool, List.getElem?_eq_none (Nat.le_of_not_lt hi)]
    exact finished_returned

/-- A client subscribes, and publishes a message that is retained, in threads. -/
theorem runs_serially_retained : ∃ l w ts steps q t, (broker mqttdCfg).Run l w ∧
    (calls.interleave (callPool ts)).Run steps q ∧
    (steps.map Prod.snd).Pairwise (· ≤ ·) ∧ (∀ i, calls.Finished (q.thread i)) ∧
    q.shared.topics false [0x74] = some t ∧ (q.shared.topic t).retainedMessage.isSome := by
  have hruns : runs (fun _ _ => true) [.accept 1, .read 1 (connectBytes 0x02 [0x61] []),
      .read 1 (subscribeBytes [0x74] 1), .read 1 (publishBytes 1 [0x74] [] [0x68])]
      (fun w => (w.retainedAt [0x74]).isSome) = true := by
    decide +kernel
  obtain ⟨l, w, hl, -, hretained⟩ := exists_run hruns
  obtain ⟨ts, steps, q, -, hrun, hsorted, hdone, hs⟩ := runs_serially hl
  have htopics := hs.topics false [0x74]
  cases ht : q.shared.topics false [0x74] with
  | none =>
    rw [ht, Option.map_none] at htopics
    rw [World.retainedAt, ← htopics] at hretained
    cases hretained
  | some t =>
    rw [ht, Option.map_some] at htopics
    rw [World.retainedAt, ← htopics] at hretained
    exact ⟨l, w, ts, steps, q, t, hl, hrun, hsorted, hdone, ht, hretained⟩

end MqttBroker
