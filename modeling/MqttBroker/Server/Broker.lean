import MqttBroker.Codec.Read
import MqttBroker.Lib.Machine
import MqttBroker.Server.Handlers

/-!
# The broker as a machine

`handler/packet_handler.cpp` over `mqtt_codec`: the calls Shan.Net makes, one at
a time. A call reads the receive buffer of a channel, or tells that a channel is
there, that a write is done, that a timer ran out or that a channel is gone. An
exception goes to `exception_caught`, which closes the channel; what was done
before it stays done. A call that never returns is no step.

Nothing is assumed about when a closed channel goes away, and its buffer may
still be read.
-/

namespace MqttBroker

open Prog

variable (cfg : Config) (it : Iteration) (draws : List (Nat × Nat))

/-- `packet_handler::channel_read`, on a packet object. -/
def packetHandler (k : ChannelId) : Packet → Server Unit
  | .connect p => handleConnect cfg it draws k p
  | .connack _ => throw "CONNACK packet was received."
  | .publish p => handlePublish it k p
  | .puback p => handlePuback k p
  | .pubrec p => handlePubrec k p
  | .pubrel p => handlePubrel k p
  | .pubcomp p => handlePubcomp k p
  | .subscribe p => handleSubscribe it k p
  | .suback _ => throw "SUBACK packet was received."
  | .unsubscribe p => handleUnsubscribe k p
  | .unsuback _ => throw "UNSUBACK packet was received."
  | .pingreq p => handlePingreq k p
  | .pingresp _ => throw "PINGRESP packet was received."
  | .disconnect p => handleDisconnect k p

/-- `channel_read` down the pipeline, with the bytes `sb` in the receive buffer. -/
def channelReadPipeline (k : ChannelId) (sb : Bytes) : Server Unit :=
  match channelRead sb with
  | .done _ => pure ()
  | .handOn _ => throw "the parameter of channel_read() is not a mqtt packet object."
  | .threw what => throw what
  | .packet p _ => packetHandler cfg it draws k p

/-- `packet_handler::channel_written`. -/
def channelWritten (k : ChannelId) : Server Unit := do
  let w ← get
  if (w.param k).isNone then
    modify fun w => w.close k

/-- `packet_handler::exception_caught`, where a call ends by an exception. -/
def guarded (k : ChannelId) (m : Server Unit) : Server Unit :=
  tryCatch m fun _ => modify fun w => w.close k

/-- The calls of Shan.Net. -/
inductive Action
  /-- A channel is accepted. -/
  | accept (channelId : ChannelId)
  /-- The receive buffer of a channel holds the bytes `sb`. -/
  | read (channelId : ChannelId) (sb : Bytes)
  /-- A write to the channel is done. -/
  | written (channelId : ChannelId)
  /-- `user_event`: one of the three timers ran out. -/
  | userEvent (channelId : ChannelId)
  /-- The channel is gone. -/
  | disconnected (channelId : ChannelId)
  deriving DecidableEq

/-- A call, with the choices made outside the broker during it. -/
structure Event where
  action : Action
  iteration : Iteration
  draws : List (Nat × Nat)

/-- The channel of a call. -/
def Action.channelId : Action → ChannelId
  | accept k | read k _ | written k | userEvent k | disconnected k => k

/-- What the broker does in a call on a channel that is there. -/
def Event.program (e : Event) : Server Unit :=
  match e.action with
  | .accept _ => pure ()
  | .read k sb => guarded k (channelReadPipeline cfg e.iteration e.draws k sb)
  | .written k => guarded k (channelWritten k)
  | .userEvent k => modify fun w => w.close k
  | .disconnected k => guarded k (handleChannelDisconnected k)

/-- The channel of an event is there, unless the event makes it. The size of a
    buffer is a `size_t`. -/
def World.Admits (w : World) : Action → Prop
  | .accept k => w.contexts k = none
  | .read k sb => (w.contexts k).isSome ∧ sb.length < 2 ^ 64
  | .written k | .userEvent k | .disconnected k => (w.contexts k).isSome

instance (w : World) (a : Action) : Decidable (w.Admits a) :=
  match a with
  | .accept k => decidable_of_iff ((w.contexts k).isNone = true) Option.isNone_iff_eq_none
  | .read k sb => inferInstanceAs (Decidable ((w.contexts k).isSome = true ∧ sb.length < 2 ^ 64))
  | .written k | .userEvent k | .disconnected k =>
    inferInstanceAs (Decidable ((w.contexts k).isSome = true))

/-- Shan.Net's own part of a call: the context of a channel is made when the
    channel is accepted, and dropped when the channel is gone. -/
def World.conclude (w : World) : Action → World
  | .accept k => { w with contexts := Function.update w.contexts k (some ⟨none, false⟩) }
  | .disconnected k => { w with contexts := Function.update w.contexts k none }
  | .read _ _ | .written _ | .userEvent _ => w

/-- The broker. -/
def broker : Machine World Event where
  init := World.start
  step w e :=
    if w.Admits e.action then
      match e.program cfg w with
      | (.stuck, _) => none
      | (_, w) => some (w.conclude e.action)
    else none

/-- A guarded call returns, or closes the channel on an exception. -/
theorem guarded_eq_value {k : ChannelId} {m : Server Unit} {w t : World} :
    guarded k m w = (.value (), t) ↔
      m w = (.value (), t) ∨ ∃ what t', m w = (.thrown what, t') ∧ t = t'.close k := by
  rw [guarded, tryCatch_apply]
  rcases hm : m w with ⟨⟨⟩ | what | _, t'⟩
  · simp [orElse]
  · simp [orElse, eq_comm]
  · simp [orElse]

theorem guarded_ne_thrown (k : ChannelId) (m : Server Unit) (w t : World) (what : String) :
    guarded k m w ≠ (.thrown what, t) :=
  tryCatch_ne_thrown (fun _ _ _ _ => by simp) w what t

/-- A step is a call that returns. -/
theorem step_eq_some {w w' : World} {e : Event} :
    (broker cfg).step w e = some w' ↔ w.Admits e.action ∧
      ∃ t, e.program cfg w = (.value (), t) ∧ w' = t.conclude e.action := by
  have hthrown : ∀ what t, e.program cfg w ≠ (.thrown what, t) := by
    intro what t
    rw [Event.program]
    cases e.action with
    | accept k => simp
    | read k sb => exact guarded_ne_thrown _ _ _ _ _
    | written k => exact guarded_ne_thrown _ _ _ _ _
    | userEvent k => simp
    | disconnected k => exact guarded_ne_thrown _ _ _ _ _
  rw [broker]
  by_cases ha : w.Admits e.action
  · simp only [ha, if_true, true_and]
    rcases hr : e.program cfg w with ⟨⟨⟩ | what | _, t⟩
    · simp [eq_comm]
    · exact absurd hr (hthrown what t)
    · simp
  · simp [ha]

/-! ## Calls with given bytes

What clients send, byte by byte, and the events that bring it, for runs that are
executed. -/

/-- The values in `mqttd.cfg`. -/
def mqttdCfg : Config where
  protocolName := ascii ['M', 'Q', 'T', 'T']
  adminname := ascii ['m', 'q', 'a', 'd', 'm', 'i', 'n']
  adminpass := ascii ['m', 'q', 'a', 'd', 'm', 'i', 'n']
  authentication := false
  username := ascii ['m', 'q', 't', 't', 'c', 'l', 'i', 'e', 'n', 't']
  password := ascii ['p', 'a', 's', 's', 'w', 'o', 'r', 'd', '7']

/-- A packet with a body of less than 128 bytes. -/
def packetBytes (byte : UInt8) (body : Bytes) : Bytes := byte :: UInt8.ofNat body.length :: body

/-- A CONNECT without a will, with the given flags, client id and, after that,
    fields. -/
def connectBytes (flags : UInt8) (clientId fields : Bytes) : Bytes :=
  packetBytes 0x10 (lengthPrefixed (ascii ['M', 'Q', 'T', 'T']) ++ [0x04, flags, 0x00, 0x3c] ++
    lengthPrefixed clientId ++ fields)

/-- A CONNECT with the name and the password of the admin. -/
def adminConnectBytes (flags : UInt8) (clientId : Bytes) : Bytes :=
  connectBytes (flags ||| 0xc0) clientId
    (lengthPrefixed mqttdCfg.adminname ++ lengthPrefixed mqttdCfg.adminpass)

/-- A SUBSCRIBE for one topic filter. -/
def subscribeBytes (topicFilter : Bytes) (qos : UInt8) : Bytes :=
  packetBytes 0x82 ([0x00, 0x01] ++ lengthPrefixed topicFilter ++ [qos])

/-- An UNSUBSCRIBE for one topic filter. -/
def unsubscribeBytes (topicFilter : Bytes) : Bytes :=
  packetBytes 0xa2 ([0x00, 0x01] ++ lengthPrefixed topicFilter)

/-- A PUBLISH, with the bytes of its packet id if it has one. -/
def publishBytes (flags : UInt8) (topicName id payload : Bytes) : Bytes :=
  packetBytes (0x30 ||| flags) (lengthPrefixed topicName ++ id ++ payload)

/-- A call in which tables are iterated over in the order of their keys, and
    `rand` first returns `1` and `2`. -/
def Action.event (a : Action) : Event := ⟨a, ⟨id, fun _ => .refl _⟩, [(1, 2)]⟩

/-- A run is executed under a condition on its steps, and ends in a state with a
    property. -/
def runs (ok : World → Event → Bool) (actions : List Action) (p : World → Bool) : Bool :=
  ((broker mqttdCfg).exec ok (actions.map Action.event)).any p

theorem exists_run {ok : World → Event → Bool} {actions : List Action} {p : World → Bool}
    (h : runs ok actions p = true) : ∃ l w, (broker mqttdCfg).Run l w ∧
      (∀ x ∈ l, ok x.1 x.2 = true) ∧ p w = true := by
  obtain ⟨w, hw, hp⟩ := Option.any_eq_true _ _ |>.1 h
  obtain ⟨l, hl, hok⟩ := Machine.exec_run hw
  exact ⟨l, w, hl, hok, hp⟩

/-- A run is executed, and then another step. -/
theorem exists_run_step {ok : World → Event → Bool} {actions : List Action} {a : Action}
    {p : World → World → Bool}
    (h : runs ok actions (fun w => ((broker mqttdCfg).step w a.event).any (p w)) = true) :
    ∃ l w w', (broker mqttdCfg).Run l w ∧ (∀ x ∈ l, ok x.1 x.2 = true) ∧
      (broker mqttdCfg).step w a.event = some w' ∧ p w w' = true := by
  obtain ⟨l, w, hl, hok, hp⟩ := exists_run h
  obtain ⟨w', hst, hp⟩ := Option.any_eq_true _ _ |>.1 hp
  exact ⟨l, w, w', hl, hok, hst, hp⟩

end MqttBroker
