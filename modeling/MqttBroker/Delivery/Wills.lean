import MqttBroker.Access.Strangers
import MqttBroker.Delivery.Retained
import MqttBroker.Delivery.WillFanOut
import MqttBroker.Directory.Leaving

/-!
# Wills

A connection ends by a DISCONNECT, and then `publish_will_message` is never run
for its client; or its channel is gone without one, and then it should be run
exactly once, and publish the will (`WillKept`). What decides is whether an accepted CONNECT took the
channel away from the client before (`willKept_iff`): `handle_connect` detaches
a client whose id connects again, and puts another client in its place where the
CONNECT is a second one, and `handle_channel_disconnected` only sees the client
that is at the channel in the end.

The place at its channel is got once, by the accepted CONNECT, and given up
once, in one of three ways: by the DISCONNECT, when the channel is lost, or to
an accepted CONNECT (`conserved_place`).
-/

namespace MqttBroker

open Prog

/-! ## What is claimed -/

/-- The CONNECT of the client was accepted. -/
def World.Accepted (w : World) (c : MqttClient) : Prop := c ∈ w.attachments.map Prod.fst

instance (w : World) (c : MqttClient) : Decidable (w.Accepted c) :=
  inferInstanceAs (Decidable (c ∈ _))

/-- The event brings a DISCONNECT of the client. -/
def World.Disconnects (w : World) (e : Event) (c : MqttClient) : Prop :=
  w.param e.action.channelId = some c ∧ ∃ p, e.packet = some (.disconnect p)

instance (w : World) (e : Event) (c : MqttClient) : Decidable (w.Disconnects e c) :=
  decidable_of_iff (w.param e.action.channelId = some c ∧
      (e.packet.any fun p => match p with | .disconnect _ => true | _ => false) = true) <| by
    refine and_congr_right fun _ => (Option.any_eq_true _ _).trans ⟨?_, ?_⟩
    · rintro ⟨p, hp, h⟩
      cases p with
      | disconnect p => exact ⟨p, hp⟩
      | _ => cases h
    · rintro ⟨p, hp⟩
      exact ⟨_, hp, rfl⟩

/-- The channel is lost that the client is at. -/
def World.Loses (w : World) (e : Event) (c : MqttClient) : Prop :=
  w.param e.action.channelId = some c ∧ e.action = .disconnected e.action.channelId

instance (w : World) (e : Event) (c : MqttClient) : Decidable (w.Loses e c) :=
  inferInstanceAs (Decidable (_ ∧ _))

/-- An accepted CONNECT takes the channel away from the client: it comes on the
    channel, or the client it displaces is registered with the channel. -/
def World.Ousts (cfg : Config) (w : World) (e : Event) (c : MqttClient) : Prop :=
  w.param c.channelId = some c ∧ ∃ j ∈ w.joining cfg e, j.channelId = c.channelId ∨
    ∃ old ∈ w.getClientPtr j.clientId, old.channelId = c.channelId

instance (cfg : Config) (w : World) (e : Event) (c : MqttClient) : Decidable (w.Ousts cfg e c) :=
  inferInstanceAs (Decidable (_ ∧ ∃ j ∈ w.joining cfg e, _ ∨ ∃ old ∈ w.getClientPtr _, _))

/-- What an effect does to the number of times that `publish_will_message` is run for
    the client. -/
def Effect.willRuns (c : MqttClient) (n : ℕ) : Effect → ℕ
  | .will c' => if c' = c then n + 1 else n
  | _ => n

/-- How many times `publish_will_message` was run for the client. -/
def World.willRuns (w : World) (c : MqttClient) : ℕ :=
  w.log.foldl (fun n a => a.willRuns c n) 0

/-- The call writes the will of the client to the subscribers of its topic, if the
    client has one, and nothing else. -/
def World.PublishesWill (cfg : Config) (w : World) (e : Event) (c : MqttClient) : Prop :=
  ∃ xs : List Delivered,
    xs.map Delivered.toDelivery = (if c.willFlag = true then w.willDeliveries c else []) ∧
      w.writes cfg e = xs.map Delivered.written

/-- The channel of the client, once it was accepted, is gone. -/
def ChannelGone (l : List (World × Event)) (c : MqttClient) : Prop :=
  ∃ l₁ x l₂, l = l₁ ++ x :: l₂ ∧ x.1.Accepted c ∧ x.2.action = .disconnected c.channelId

/-- `publish_will_message` is never run for the client if it sends a DISCONNECT, which
    is not answered, and exactly once if its channel is gone without one. The call that
    runs it publishes the will. -/
structure WillKept (cfg : Config) (l : List (World × Event)) (w : World) (c : MqttClient) :
    Prop where
  never : (∃ x ∈ l, x.1.Disconnects x.2 c) → w.willRuns c = 0
  silent : ∀ x ∈ l, x.1.Disconnects x.2 c → x.1.writes cfg x.2 = []
  once : ChannelGone l c → (¬∃ x ∈ l, x.1.Disconnects x.2 c) → w.willRuns c = 1
  publishes : ∀ x ∈ l, ∀ w', (broker cfg).step x.1 x.2 = some w' →
    w'.willRuns c ≠ x.1.willRuns c → x.1.PublishesWill cfg x.2 c

variable {cfg : Config} {w w' : World} {e : Event} {c : MqttClient} {k : ChannelId}
  {l : List (World × Event)}

/-! ## Who is at the channels -/

/-- The same clients are at the channels. -/
def Placed : Frame World where
  rel w w' := w'.param = w.param
  refl _ := rfl
  trans h₁ h₂ := h₂.trans h₁

/-- Without a packet, the clients stay at their channels, unless one is lost. -/
theorem param_of_no_packet (hst : (broker cfg).step w e = some w') (hp : e.packet = none)
    (hlost : e.action ≠ .disconnected e.action.channelId) : w'.param = w.param := by
  obtain ⟨hadmits, t, hrun, rfl⟩ := (step_eq_some cfg).1 hst
  have hclose : ∀ (k : ChannelId) (v : World), Placed.rel v (v.close k) := fun k v => v.param_close k
  rw [Event.program] at hrun
  rw [Event.packet] at hp
  generalize e.action = a at hadmits hrun hp hlost ⊢
  cases a with
  | accept k =>
    cases hrun
    exact param_accept hadmits
  | read k sb =>
    have hrel := rel_guarded (hclose k) hrun
    rwa [channelReadPipeline_of_no_packet fun p rest hread => by simp [hread] at hp] at hrel
  | written k =>
    have hwritten : Within Placed (channelWritten k) := within_bind within_get fun v =>
      within_ite (within_modify (hclose k)) (within_pure ())
    exact Placed.trans (hwritten w) (rel_guarded (hclose k) hrun)
  | userEvent k =>
    cases hrun
    exact w.param_close k
  | disconnected k => exact absurd rfl hlost

/-- A step that brings no accepted CONNECT, no DISCONNECT and no lost channel. -/
theorem param_of_stays (hst : (broker cfg).step w e = some w') (hj : w.joining cfg e = none)
    (hlost : e.action ≠ .disconnected e.action.channelId)
    (hdisconnect : ∀ p, e.packet ≠ some (.disconnect p)) : w'.param = w.param := by
  cases hp : e.packet with
  | none => exact param_of_no_packet hst hp hlost
  | some p =>
    cases hc : w.param e.action.channelId with
    | none => exact (untouched_step hst hc hj).param
    | some c =>
      by_cases hconnect : ∃ packet, p = .connect packet
      · -- A CONNECT that is not accepted touches nobody.
        obtain ⟨packet, rfl⟩ := hconnect
        have he : e.connect = some packet := by rw [Event.connect, hp]; rfl
        exact (untouched_of_not_joining hst he hj).param
      · -- The handler of any other packet keeps the channels, and an exception closes one.
        obtain ⟨hadmits, t, hrun, rfl⟩ := (step_eq_some cfg).1 hst
        obtain ⟨sb, rest, hact, -⟩ := packet_eq_some hp
        rw [program_of_packet hp] at hrun
        have hserving := ((local_handlerFrame.stepFrame (w := w) (e := e) fun _ packet _ _ _ =>
          (quiet_publishFrame.forwardPublish _ packet).mono fun _ _ => local_of_quiet)
            |>.eventFrame.serving_packetHandler cfg hc hp (decoded_of_admits hp hadmits).2
            (fun packet h => hconnect ⟨packet, h⟩) fun packet h => hdisconnect packet (h ▸ hp)).1
        have hclosed := rel_guarded (F := Placed) (fun v => v.param_close _) hrun
        rw [served_eq] at hserving
        rw [hact]
        exact hclosed.trans hserving

/-- Nobody is at a channel that is lost. -/
theorem param_of_lost (hst : (broker cfg).step w e = some w') (he : e.action = .disconnected k) :
    w'.param = Function.update w.param k none := by
  cases hc : w.param k with
  | none =>
    have hpacket : e.packet = none := by rw [Event.packet, he]
    have hj : w.joining cfg e = none := by rw [World.joining, Event.connect, hpacket]; rfl
    have hk : e.action.channelId = k := by rw [he]; rfl
    rw [(untouched_step hst (hk ▸ hc) hj).param]
    exact (Function.update_eq_self_iff.2 hc.symm).symm
  | some c =>
    obtain ⟨u, hwill, rfl⟩ := step_disconnected hst he hc
    have hu := still_param (still_publishFrame.publishWillMessage c w)
    rw [hwill] at hu
    rw [param_conclude_disconnected, World.param_remove, hu]

/-- Nobody is at a channel that brought a DISCONNECT. -/
theorem param_of_disconnect (hst : (broker cfg).step w e = some w') {p : MqttDisconnect}
    (hp : e.packet = some (.disconnect p)) :
    w'.param = Function.update w.param e.action.channelId none := by
  cases hc : w.param e.action.channelId with
  | none =>
    rw [(untouched_step hst hc (joining_eq_none cfg w hp fun _ => Packet.noConfusion)).param]
    exact (Function.update_eq_self_iff.2 hc.symm).symm
  | some c =>
    have heq : w' = ((w.record (.handled c (.disconnect p))).setParam e.action.channelId
        none).remove c := eq_of_packetHandler hst hp (agent_bind_apply hc _ _)
    rw [heq, World.param_remove, World.param_setParam_none]
    rfl

/-! ## The place of a client -/

/-- The event brings the accepted CONNECT that the client is made for. -/
def World.Connects (cfg : Config) (w : World) (e : Event) (c : MqttClient) : Prop :=
  ∃ j, w.joining cfg e = some j ∧ c = w.directory.allocate.newcomer (j.client w) j.clientId

/-- A client is accepted with its CONNECT, and stays accepted. -/
theorem accepted_step_iff (hst : (broker cfg).step w e = some w') :
    w'.Accepted c ↔ w.Accepted c ∨ w.Connects cfg e c := by
  rw [World.Accepted, World.Accepted, World.Connects]
  rcases step_cases hst with ⟨hj, -, hatt⟩ | ⟨j, hj, -, hatt⟩
  · simp [hatt, hj]
  · simp [hatt, hj]

/-- The clients accepted so far are older than the next object. -/
theorem addr_lt_of_accepted (h : (broker cfg).Reachable w) :
    ∀ c, w.Accepted c → c.addr < w.nextAddr := by
  refine h.invariant (I := fun w => ∀ c, w.Accepted c → c.addr < w.directory.nextAddr)
    (fun _ hc => absurd hc List.not_mem_nil) ?_
  intro w e w' hw hst c hc
  rcases step_cases hst with ⟨hj, hsteps, -⟩ | ⟨j, hj, hdir, -⟩
  · rcases (accepted_step_iff hst).1 hc with hc | ⟨j, hj', -⟩
    · have hle : w.directory.nextAddr ≤ w'.directory.nextAddr := by
        generalize w'.directory = d at hsteps
        induction hsteps with
        | refl => exact Nat.le_refl _
        | tail _ hs ih =>
          cases hs with
          | allocate => exact Nat.le_succ_of_le ih
          | subscribe | unsubscribe | leave => exact ih
      exact Nat.lt_of_lt_of_le (hw c hc) hle
    · exact absurd (hj.symm.trans hj') (Option.some_ne_none j).symm
  · rw [hdir, Directory.connect_nextAddr]
    rcases (accepted_step_iff hst).1 hc with hc | ⟨j', hj', rfl⟩
    · exact Nat.lt_succ_of_lt (hw c hc)
    · rw [Directory.newcomer_addr]
      exact Nat.lt_succ_self _

/-- A client is made for one CONNECT. -/
theorem World.Connects.addr (h : w.Connects cfg e c) : c.addr = w.nextAddr := by
  obtain ⟨j, -, rfl⟩ := h
  exact Directory.newcomer_addr _ _ _

/-- Without an accepted CONNECT, a client loses its place to its own DISCONNECT,
    or with its channel. -/
theorem param_step_iff_of_not_joining (h : (broker cfg).Reachable w)
    (hst : (broker cfg).step w e = some w') (hj : w.joining cfg e = none) :
    w'.param c.channelId = some c ↔
      w.param c.channelId = some c ∧ ¬w.Disconnects e c ∧ ¬w.Loses e c := by
  by_cases hleaves : (∃ p, e.packet = some (.disconnect p)) ∨
      e.action = .disconnected e.action.channelId
  · have hparam : w'.param = Function.update w.param e.action.channelId none := by
      rcases hleaves with ⟨p, hp⟩ | he
      · exact param_of_disconnect hst hp
      · exact param_of_lost hst he
    rw [hparam, Directory.update_none_eq_some, and_comm]
    refine and_congr_right fun hc => ?_
    -- A client is at its own channel only.
    rw [World.Disconnects, World.Loses, ← not_or, ← and_or_left, and_iff_left hleaves]
    refine not_congr ⟨fun hk => hk ▸ hc, fun hk => ?_⟩
    exact (valid_of_reachable h).holder_channel hk
  · obtain ⟨hdisconnect, hlost⟩ := not_or.1 hleaves
    rw [param_of_stays hst hj hlost fun p hp => hdisconnect ⟨p, hp⟩]
    exact (and_iff_left ⟨fun hd => hdisconnect hd.2, fun hr => hlost hr.2⟩).symm

/-- An accepted CONNECT puts its client at its channel, and ousts who was there
    and who is at the channel of the client that is displaced. -/
theorem param_step_iff_of_joining {j : Joining} (hst : (broker cfg).step w e = some w')
    (hj : w.joining cfg e = some j) : w'.param c.channelId = some c ↔
      w.Connects cfg e c ∨ w.param c.channelId = some c ∧ ¬w.Ousts cfg e c := by
  have hplace : w'.param c.channelId = some c ↔
      (w.directory.allocate.connect j.channelId (j.client w) j.clientId).holder c.channelId =
        some c := by
    rw [← (step_joining hst hj).1]
    exact Iff.rfl
  have hconnects : w.Connects cfg e c ↔
      c = w.directory.allocate.newcomer (j.client w) j.clientId := by
    rw [World.Connects, hj]
    simp
  have housts : w.Ousts cfg e c ↔ w.param c.channelId = some c ∧ (j.channelId = c.channelId ∨
      ∃ old, w.getClientPtr j.clientId = some old ∧ old.channelId = c.channelId) := by
    rw [World.Ousts, hj]
    simp
  rw [hplace, hconnects, housts, Directory.connect_holder, Function.update_apply]
  split_ifs with hk
  · rw [Option.some_inj, eq_comm, or_iff_left]
    exact fun hc => hc.2 ⟨hc.1, .inl hk.symm⟩
  · rw [or_iff_right fun hc => hk (by rw [hc, Directory.newcomer_channelId]; rfl),
      Directory.takeOver_holder]
    refine and_congr_right fun hc : w.param c.channelId = some c => ?_
    rw [and_iff_right hc, or_iff_right (Ne.symm hk), not_exists]
    exact forall_congr' fun _ => not_and.symm

/-- The client takes its place with its CONNECT, and loses it to a DISCONNECT, with
    its channel, or to another CONNECT. -/
theorem param_step_iff (h : (broker cfg).Reachable w) (hst : (broker cfg).step w e = some w') :
    w'.param c.channelId = some c ↔ w.Connects cfg e c ∨ w.param c.channelId = some c ∧
      ¬w.Disconnects e c ∧ ¬w.Loses e c ∧ ¬w.Ousts cfg e c := by
  cases hj : w.joining cfg e with
  | some j =>
    have hpacket := (joining_eq_some hj).1
    have hdisconnects : ¬w.Disconnects e c := fun ⟨_, p, hp⟩ =>
      Packet.noConfusion (Option.some.inj (hp.symm.trans hpacket))
    have hwill : ¬w.Loses e c := fun ⟨_, he⟩ => by
      rw [Event.packet, he] at hpacket
      exact Option.some_ne_none _ hpacket.symm
    rw [and_iff_right hdisconnects, and_iff_right hwill]
    exact param_step_iff_of_joining hst hj
  | none =>
    have hconnects : ¬w.Connects cfg e c := by
      rw [World.Connects, hj]
      simp
    have housts : ¬w.Ousts cfg e c := by
      rw [World.Ousts, hj]
      simp
    rw [or_iff_right hconnects, and_iff_left housts]
    exact param_step_iff_of_not_joining h hst hj

/-! ## Runs -/

/-- A client loses its place in one way. -/
theorem endings_exclusive : ¬(w.Disconnects e c ∧ w.Loses e c) ∧
    ¬(w.Disconnects e c ∧ w.Ousts cfg e c) ∧ ¬(w.Loses e c ∧ w.Ousts cfg e c) := by
  -- The packet that the event brings tells the three apart.
  have hwill : w.Loses e c → e.packet = none := by
    rintro ⟨-, he⟩
    rw [Event.packet, he]
  have housts : w.Ousts cfg e c → ∃ packet, e.packet = some (.connect packet) := by
    rintro ⟨-, j, hj, -⟩
    exact ⟨j.packet, (joining_eq_some hj).1⟩
  refine ⟨?_, ?_, ?_⟩
  · rintro ⟨⟨-, p, hp⟩, hr⟩
    exact Option.some_ne_none _ (hp.symm.trans (hwill hr))
  · rintro ⟨⟨-, p, hp⟩, ho⟩
    obtain ⟨packet, hc⟩ := housts ho
    exact Packet.noConfusion (Option.some.inj (hp.symm.trans hc))
  · rintro ⟨hr, ho⟩
    obtain ⟨packet, hc⟩ := housts ho
    exact Option.some_ne_none _ (hc.symm.trans (hwill hr))

/-- In a step a client is accepted and gets its place, or loses its place in one way,
    or keeps what it has. -/
theorem place_step (h : (broker cfg).Reachable w) (hst : (broker cfg).step w e = some w') :
    (if w'.param c.channelId = some c then 1 else 0) +
        ((if w.Disconnects e c then 1 else 0) + (if w.Ousts cfg e c then 1 else 0) +
          if w.Loses e c then 1 else 0) + (if w.Accepted c then 1 else 0) =
      (if w.param c.channelId = some c then 1 else 0) + if w'.Accepted c then 1 else 0 := by
  have hplace := param_step_iff (c := c) h hst
  have haccepted := accepted_step_iff (c := c) hst
  have hchannel : ∀ {k}, w.param k = some c → w.param c.channelId = some c := fun hc =>
    ((valid_of_reachable h).holder_channel hc).symm ▸ hc
  have hdisconnects : w.Disconnects e c → w.param c.channelId = some c := fun h => hchannel h.1
  have hwill : w.Loses e c → w.param c.channelId = some c := fun h => hchannel h.1
  have housts : w.Ousts cfg e c → w.param c.channelId = some c := fun h => h.1
  by_cases hconnects : w.Connects cfg e c
  · -- The client is a new object.
    have hold : ¬w.Accepted c := fun ha =>
      Nat.ne_of_lt (addr_lt_of_accepted h c ha) hconnects.addr
    have hfree : w.param c.channelId ≠ some c := fun hc =>
      Nat.ne_of_lt ((owned_of_reachable h).holder_older hc) hconnects.addr
    rw [if_pos (hplace.2 (.inl hconnects)), if_neg fun h => hfree (hdisconnects h),
      if_neg fun h => hfree (housts h), if_neg fun h => hfree (hwill h), if_neg hold, if_neg hfree,
      if_pos (haccepted.2 (.inr hconnects))]
  · rw [or_iff_right hconnects] at hplace
    rw [or_iff_left hconnects] at haccepted
    simp only [haccepted, Nat.add_right_cancel_iff]
    obtain ⟨hdw, hdo, hwo⟩ :=
      (endings_exclusive : ¬(w.Disconnects e c ∧ w.Loses e c) ∧
        ¬(w.Disconnects e c ∧ w.Ousts cfg e c) ∧ ¬(w.Loses e c ∧ w.Ousts cfg e c))
    by_cases hc : w.param c.channelId = some c
    · -- It has a place, and loses it in at most one way.
      rw [if_pos hc]
      rw [and_iff_right hc] at hplace
      split_ifs <;> simp_all
    · rw [if_neg fun h => hc (hplace.1 h).1, if_neg fun h => hc (hdisconnects h),
        if_neg fun h => hc (housts h), if_neg fun h => hc (hwill h), if_neg hc]

theorem countP_eq_sum {α : Type} (p : α → Prop) [DecidablePred p] (l : List α) :
    l.countP (fun a => p a) = (l.map fun a => if p a then 1 else 0).sum := by
  induction l with
  | nil => rfl
  | cons a l ih => simp [List.countP_cons, ih, Nat.add_comm]

/-- A client is accepted once, and then is at its channel until it loses its place in
    one way. -/
theorem conserved_place (h : (broker cfg).Run l w) : (if w.param c.channelId = some c then 1 else 0) +
    (l.countP (fun x => x.1.Disconnects x.2 c) + l.countP (fun x => x.1.Ousts cfg x.2 c) +
      l.countP (fun x => x.1.Loses x.2 c)) = if w.Accepted c then 1 else 0 := by
  rw [countP_eq_sum fun x : World × Event => x.1.Disconnects x.2 c,
    countP_eq_sum fun x : World × Event => x.1.Ousts cfg x.2 c,
    countP_eq_sum fun x : World × Event => x.1.Loses x.2 c, ← List.sum_map_add,
    ← List.sum_map_add]
  exact h.conserved (fun w => if w.param c.channelId = some c then 1 else 0)
    (fun w => if w.Accepted c then 1 else 0) (fun x : World × Event =>
      (if x.1.Disconnects x.2 c then 1 else 0) + (if x.1.Ousts cfg x.2 c then 1 else 0) +
        if x.1.Loses x.2 c then 1 else 0) rfl fun _ _ _ => place_step

/-- A client whose channel is gone is not at it any more, and never will be. -/
theorem not_place_of_channelGone (h : (broker cfg).Run l w) (hgone : ChannelGone l c) :
    w.param c.channelId ≠ some c := by
  obtain ⟨l₁, x, l₂, rfl, haccepted, he⟩ := hgone
  rw [← List.singleton_append, ← List.append_assoc] at h
  obtain ⟨v, hv⟩ := h.of_append
  obtain ⟨-, hst⟩ := hv.last
  -- In the state after the channel is gone the place has been lost,
  have hlost := conserved_place (c := c) hv
  rw [if_pos ((accepted_step_iff hst).2 (.inl haccepted)), param_of_lost hst he,
    Function.update_self, if_neg (Option.some_ne_none c).symm] at hlost
  -- and it is lost once.
  have hall := conserved_place (c := c) h
  simp only [List.countP_append] at hlost hall
  intro hc
  rw [if_pos hc] at hall
  split_ifs at hall <;> omega

/-! ## Runs of `publish_will_message` -/

/-- `publish_will_message` is not run for the client. -/
def Unwilled (c : MqttClient) : Frame World where
  rel w w' := w'.willRuns c = w.willRuns c
  refl _ := rfl
  trans h₁ h₂ := h₂.trans h₁

theorem unwilled_of_log (h : w'.log = w.log) : (Unwilled c).rel w w' := by
  show w'.willRuns c = w.willRuns c
  rw [World.willRuns, h, World.willRuns]

theorem willRuns_record (w : World) (a : Effect) :
    (w.record a).willRuns c = a.willRuns c (w.willRuns c) := by
  rw [World.willRuns, World.record, List.foldl_append]
  rfl

theorem unwilled_record (w : World) {a : Effect} (ha : ∀ n, a.willRuns c n = n) :
    (Unwilled c).rel w (w.record a) := (willRuns_record w a).trans (ha _)

theorem unwilled_recipientFrame : RecipientFrame (Unwilled c) fun _ => True where
  counter _ _ _ := rfl
  publish maxQos retained _ _ := within_publish (fun _ _ => rfl)
    (fun w p => (unwilled_record w (a := .addressed _ p) fun _ => rfl))
    (fun w _ _ => unwilled_record w fun _ => rfl) maxQos retained
  store p packet w := unwilled_of_log (by rw [World.storeRetained_eq])
  note retain _ _ w := rel_noteRetain (fun _ => unwilled_record w fun _ => rfl) retain
  subscriber _ := .inl trivial
  holder _ := .inl trivial

/-- A call that does not lose the channel of the client. -/
theorem unwilled_eventFrame (hlost : ¬w.Loses e c) : EventFrame (Unwilled c) w e where
  channels h _ _ := unwilled_of_log (by rw [h])
  answer {v _ _ _} _ _ _ := unwilled_record v fun _ => rfl
  refuse v _ _ := unwilled_record v fun _ => rfl
  retained it fs gs _ := unwilled_recipientFrame.publishRetainedMessage it _ fs gs
  forward _ _ _ := unwilled_recipientFrame.forwardPublish _ _
  will {w' c'} he hc hrun := by
    have hne : c' ≠ c := fun h => hlost ⟨h ▸ hc, he⟩
    have hrel := (unwilled_recipientFrame (c := c)).publishWillMessage c' w
    rw [hrun] at hrel
    exact Frame.trans _ (unwilled_record w (a := .will c') fun _ => if_neg hne) hrel
  subscribe {v c' p entry} _ _ _ _ _ _ := by
    refine unwilled_of_log ?_
    show (v.subscribe c' _ _ _).log = v.log
    rw [World.subscribe_eq]
  subscribeTrash _ _ _ := rfl
  unsubscribe {v c' entry} _ _ := unwilled_of_log (v.unsubscribeEntry_log c' entry)
  leave {v c'} _ := unwilled_of_log (by rw [World.remove_eq]; rfl)

/-- The beginning of a step runs it for nobody. -/
theorem unwilled_received (cfg : Config) (w : World) (e : Event) (hj : w.joining cfg e = none) :
    (Unwilled c).rel w (w.received cfg e) := by
  rcases received_cases cfg w e with ⟨j, hj', -⟩ | ⟨-, ⟨packet, -, hr⟩ | ⟨c', p, -, -, -, hr⟩ | hr⟩
  · cases hj.symm.trans hj'
  · rw [hr]
    exact unwilled_of_log (w.log_greet _ cfg packet)
  · rw [hr]
    show World.willRuns _ c = w.willRuns c
    rw [World.willRuns, World.foldl_log_served (fun _ _ _ _ => rfl)]
    cases p <;> rfl
  · rw [hr]
    rfl

/-- An accepted CONNECT runs it for nobody, whom it takes a channel away from included. -/
theorem unwilled_step_joining {j : Joining} (hst : (broker cfg).step w e = some w')
    (hj : w.joining cfg e = some j) : (Unwilled c).rel w w' := by
  obtain ⟨hk, hrest⟩ := rel_step_joining (F := Unwilled c) (fun _ => rfl)
    (fun it => unwilled_recipientFrame.publishRetainedMessage it _) hst hj
  refine Frame.trans _ ?_ hrest
  obtain ⟨s, sessionPresent, v, -, -, hlog, -, hcases⟩ := joined_cases cfg w j hk
  have hv : (Unwilled c).rel w v := by
    show v.willRuns c = w.willRuns c
    rw [World.willRuns, hlog, List.foldl_append]
    rfl
  rcases hcases with ⟨-, -, -, hw⟩ | ⟨-, -, -, hw⟩
  · rw [hw]
    refine Frame.trans _ hv (Frame.trans _ (unwilled_of_log (v.log_resubscribe _))
      (rel_redeliver (fun _ => rfl) (fun _ => rfl) (fun v p => ?_) _))
    exact unwilled_record v fun _ => rfl
  · rwa [hw]

/-- `publish_will_message` is run for a client exactly when the channel that it is at is
    lost. -/
theorem willRuns_step (hst : (broker cfg).step w e = some w') :
    w'.willRuns c = w.willRuns c + if w.Loses e c then 1 else 0 := by
  by_cases hlost : w.Loses e c
  · obtain ⟨hc, he⟩ := id hlost
    obtain ⟨u, hrun, rfl⟩ := step_disconnected hst he hc
    have hrel := (unwilled_recipientFrame (c := c)).publishWillMessage c w
    rw [hrun] at hrel
    have hremoved : (Unwilled c).rel u ((u.remove c).conclude (.disconnected e.action.channelId)) :=
      unwilled_of_log (by rw [World.remove_eq]; rfl)
    rw [if_pos hlost]
    refine (Frame.trans _ hrel hremoved).trans ((willRuns_record w _).trans ?_)
    exact if_pos rfl
  · rw [if_neg hlost]
    cases hj : w.joining cfg e with
    | some j => exact unwilled_step_joining hst hj
    | none =>
      exact Frame.trans (Unwilled c) (unwilled_received cfg w e hj)
        ((unwilled_eventFrame hlost).step hst hj)

/-- Over a run, it is run for a client as often as it loses the channel that it is at. -/
theorem willRuns_run (h : (broker cfg).Run l w) :
    w.willRuns c = l.countP fun x => x.1.Loses x.2 c := by
  rw [countP_eq_sum fun x : World × Event => x.1.Loses x.2 c]
  have hconserved := h.conserved (fun _ => 0) (fun w => w.willRuns c)
    (fun x : World × Event => if x.1.Loses x.2 c then 1 else 0) rfl fun v e v' _ hst => by
      rw [willRuns_step hst, Nat.zero_add, Nat.zero_add, Nat.add_comm]
  rw [← hconserved, Nat.zero_add]

/-- A call that loses the channel of a client publishes its will. -/
theorem publishesWill_of_loses (h : (broker cfg).Reachable w)
    (hst : (broker cfg).step w e = some w') (hlost : w.Loses e c) : w.PublishesWill cfg e c := by
  obtain ⟨hc, he⟩ := hlost
  obtain ⟨hqos, hsize⟩ := (retainedInv_of_reachable h).will hc
  obtain ⟨u, hrun, rfl⟩ := step_disconnected hst he hc
  have hremoved : ((u.remove c).conclude (.disconnected e.action.channelId)).written = u.written := by
    show (u.remove c).written = u.written
    rw [World.remove_eq]
    rfl
  rw [World.PublishesWill]
  split_ifs with hwill
  · obtain ⟨-, next, xs, hxs, hdelivers⟩ :=
      (settles_publishWillMessage hwill hqos hsize w).returns.of_value hrun
    refine ⟨xs, hxs, writes_of_written hst (hremoved.trans ?_)⟩
    rw [hdelivers.written, written_willNoted]
  · rw [publishWillMessage, modify_bind_apply, if_neg hwill] at hrun
    cases hrun
    exact ⟨[], rfl, writes_of_written hst (hremoved.trans (written_record w _))⟩

/-- A DISCONNECT is not answered, and nothing is published for it. -/
theorem writes_of_disconnects (hst : (broker cfg).step w e = some w') (hd : w.Disconnects e c) :
    w.writes cfg e = [] := by
  obtain ⟨hc, p, hp⟩ := hd
  have heq : w' = ((w.record (.handled c (.disconnect p))).setParam e.action.channelId
      none).remove c := eq_of_packetHandler hst hp (agent_bind_apply hc _ _)
  refine writes_of_written hst ?_
  rw [heq, World.remove_eq]
  exact written_record w _

/-- The will of an accepted client is kept, unless its channel is gone and an
    accepted CONNECT took the channel away from it before. -/
theorem willKept_iff (h : (broker cfg).Run l w) (hc : w.Accepted c) :
    WillKept cfg l w c ↔ ¬(ChannelGone l c ∧ ∃ x ∈ l, x.1.Ousts cfg x.2 c) := by
  have hone := conserved_place (c := c) h
  rw [if_pos hc, ← willRuns_run h] at hone
  have hdisconnects : (∃ x ∈ l, x.1.Disconnects x.2 c) ↔
      0 < l.countP fun x => x.1.Disconnects x.2 c := by
    simp only [List.countP_pos_iff, decide_eq_true_eq]
  have housts : (∃ x ∈ l, x.1.Ousts cfg x.2 c) ↔ 0 < l.countP fun x => x.1.Ousts cfg x.2 c := by
    simp only [List.countP_pos_iff, decide_eq_true_eq]
  constructor
  · rintro hkept ⟨hgone, housted⟩
    have honce := hkept.once hgone
    rw [if_neg (not_place_of_channelGone h hgone)] at hone
    rw [hdisconnects] at honce
    rw [housts] at housted
    omega
  · intro hnot
    refine ⟨fun hd => ?_, fun x hx hd => ?_, fun hgone hd => ?_, fun x hx t hst hrun => ?_⟩
    · rw [hdisconnects] at hd
      omega
    · obtain ⟨-, t, hst⟩ := h.of_mem hx
      exact writes_of_disconnects hst hd
    · have hkept : ¬∃ x ∈ l, x.1.Ousts cfg x.2 c := fun hx => hnot ⟨hgone, hx⟩
      rw [if_neg (not_place_of_channelGone h hgone)] at hone
      rw [hdisconnects] at hd
      rw [housts] at hkept
      omega
    · refine publishesWill_of_loses (h.of_mem hx).1 hst (by_contra fun hlost => hrun ?_)
      rw [willRuns_step hst, if_neg hlost, Nat.add_zero]

/-- A client with a will loses its channel, and another one is sent the will. -/
theorem willKept_lost : ∃ l w c, (broker mqttdCfg).Run l w ∧ c.willFlag = true ∧ ChannelGone l c ∧
    w.publishes.map (fun x => (x.1, x.2.payload)) = [(2, [0x01])] ∧ WillKept mqttdCfg l w c := by
  have hruns : runs (fun w e => (w.param 1).isNone || e.packet.isNone)
      [.accept 1, .accept 2, .read 2 (connectBytes 0x02 [0x62] []),
        .read 2 (subscribeBytes [0x77] 0x00),
        .read 1 (connectBytes 0x06 [0x61] (lengthPrefixed [0x77] ++ lengthPrefixed [0x01]))]
      (fun w => ((broker mqttdCfg).step w (Action.disconnected 1).event).any fun w' =>
        decide (w'.publishes.map (fun x => (x.1, x.2.payload)) = [(2, [0x01])]) &&
          w.attachments.any fun x => x.1.channelId = 1 && x.1.willFlag) = true := by
    decide +kernel
  obtain ⟨l, w, w', hl, hok, hst, hp⟩ := exists_run_step hruns
  obtain ⟨hsent, hp⟩ := Bool.and_eq_true_iff.1 hp
  obtain ⟨⟨c, b⟩, hc, hp⟩ := List.any_eq_true.1 hp
  obtain ⟨hk, hwill⟩ := Bool.and_eq_true_iff.1 hp
  have hk : c.channelId = 1 := of_decide_eq_true hk
  have haccepted : w.Accepted c := List.mem_map_of_mem hc
  refine ⟨_, w', c, hl.step hst, hwill, ⟨l, _, [], rfl, haccepted, by rw [hk]; rfl⟩,
    of_decide_eq_true hsent, ?_⟩
  refine (willKept_iff (hl.step hst) ((accepted_step_iff hst).2 (.inl haccepted))).2 ?_
  rintro ⟨-, x, hx, hplace, j, hj, -⟩
  have hpacket := (joining_eq_some hj).1
  -- No packet comes while somebody is at the channel.
  rcases List.mem_append.1 hx with hx | hx
  · have hquiet := hok x hx
    rw [← hk, hplace, hpacket] at hquiet
    cases hquiet
  · rw [List.mem_singleton.1 hx] at hpacket
    cases hpacket

/-- The client id of a client with a will connects again on another channel, and
    then the channel of the client is gone. -/
theorem will_lost_on_takeover : ¬∀ l w c, (broker mqttdCfg).Run l w → w.Accepted c →
    c.willFlag = true → WillKept mqttdCfg l w c := by
  intro h
  have hruns : runs (fun w e => (w.param e.action.channelId).isNone)
      [.accept 1, .accept 2,
        .read 1 (connectBytes 0x06 [0x61] (lengthPrefixed [0x77] ++ lengthPrefixed [0x01])),
        .read 2 (connectBytes 0x02 [0x61] [])]
      (fun w => ((broker mqttdCfg).step w (Action.disconnected 1).event).any fun _ =>
        (w.param 1).isNone && w.attachments.any fun x => x.1.channelId = 1 && x.1.willFlag) =
          true := by
    decide +kernel
  obtain ⟨l, w, w', hl, hok, hst, hp⟩ := exists_run_step hruns
  obtain ⟨hfree, hp⟩ := Bool.and_eq_true_iff.1 hp
  obtain ⟨⟨c, b⟩, hc, hp⟩ := List.any_eq_true.1 hp
  obtain ⟨hk, hwill⟩ := Bool.and_eq_true_iff.1 hp
  have haccepted : w.Accepted c := List.mem_map_of_mem hc
  -- Nobody is at the channel of any call.
  have hnobody : ∀ x ∈ l ++ [(w, (Action.disconnected 1).event)],
      x.1.param x.2.action.channelId ≠ some c := by
    intro x hx heq
    have hnone : (x.1.param x.2.action.channelId).isNone = true := by
      rcases List.mem_append.1 hx with hx | hx
      · exact hok x hx
      · rw [List.mem_singleton.1 hx]
        exact hfree
    rw [heq] at hnone
    cases hnone
  have hkept := h _ w' c (hl.step hst) ((accepted_step_iff hst).2 (.inl haccepted)) hwill
  have hone := hkept.once ⟨l, _, [], rfl, haccepted, by rw [of_decide_eq_true hk]; rfl⟩
    fun ⟨x, hx, hd⟩ => hnobody x hx hd.1
  rw [willRuns_run (hl.step hst)] at hone
  obtain ⟨x, hx, hlost⟩ := List.countP_pos_iff.1 (Nat.lt_of_lt_of_eq Nat.zero_lt_one hone.symm)
  exact hnobody x hx (of_decide_eq_true hlost).1

end MqttBroker
