import Mathlib.Tactic.Common
import MqttBroker.Lib.Keyed
import MqttBroker.Packet.Basic

/-!
# Clients and topics

`mqtt_client` is fixed once its connection is accepted, so a client is a value;
`addr` is its address, which tells two objects apart that agree in everything
else. `topic` keeps a retained message and its subscribers, in the order of
their client ids, which is all `mqtt_client::less` compares: subscribing and
unsubscribing replace and remove the entry of *some* client with the same id.
-/

namespace MqttBroker

/-- The id Shan.Net gives to a channel. -/
abbrev ChannelId := Nat

/-- The address of a `session`; `0` is the null pointer. -/
abbrev SessionRef := Nat

/-- `mqtt_client`. -/
structure MqttClient where
  addr : Nat
  channelId : ChannelId
  clientId : Bytes
  admin : Bool
  cleanSession : Bool
  willFlag : Bool
  willQos : Nat
  willRetain : Bool
  willTopic : Bytes
  willMessage : Bytes
  session : SessionRef
  deriving DecidableEq

/-- `mqtt_client(packet_ptr, channel_id)`, at the address `addr`. -/
def mqttClient (addr : Nat) (packet : MqttConnect) (channelId : ChannelId) : MqttClient where
  addr := addr
  channelId := channelId
  clientId := packet.clientId
  admin := false
  cleanSession := packet.cleanSession
  willFlag := packet.willFlag
  willQos := packet.willQos
  willRetain := packet.willRetain
  willTopic := packet.willTopic
  willMessage := packet.willMessage
  session := 0

/-- `mqtt_client::admin(a)`. -/
def MqttClient.setAdmin (client : MqttClient) (admin : Bool) : MqttClient :=
  { client with admin := admin }

/-- `mqtt_client::set_session_ptr`. -/
def MqttClient.setSessionPtr (client : MqttClient) (s : SessionRef) : MqttClient :=
  { client with session := s }

namespace MqttClient

variable (c : MqttClient) (s : SessionRef)

@[simp] theorem setSessionPtr_session : (c.setSessionPtr s).session = s := rfl
@[simp] theorem setSessionPtr_channelId : (c.setSessionPtr s).channelId = c.channelId := rfl
@[simp] theorem setSessionPtr_clientId : (c.setSessionPtr s).clientId = c.clientId := rfl
end MqttClient

/-- An entry of the subscribers of a topic. -/
structure Subscriber where
  client : MqttClient
  maxQos : Nat
  deriving DecidableEq

/-- The key of a subscriber (`mqtt_client::less`). -/
def Subscriber.clientId (s : Subscriber) : Bytes := s.client.clientId

/-- `topic`. -/
structure Topic where
  topicFilter : Bytes
  retainedMessage : Option MqttPublish
  clients : Keyed Subscriber.clientId

namespace Topic

/-- `topic(topic_filter)`. -/
def new (topicFilter : Bytes) : Topic where
  topicFilter := topicFilter
  retainedMessage := none
  clients := Keyed.empty

variable (t : Topic)

/-- `topic::empty`. -/
def empty : Bool := t.retainedMessage.isNone && t.clients.isEmpty

/-- `topic::retained_message(retain_message)`: an empty payload clears it. -/
def retain (message : MqttPublish) : Topic :=
  { t with retainedMessage := if message.payload.length = 0 then none else some message }

/-- `topic::subscribe`. -/
def subscribe (client : MqttClient) (maxQos : Nat) : Topic :=
  { t with clients := t.clients.put ⟨client, maxQos⟩ }

/-- `topic::unsubscribe`. -/
def unsubscribe (client : MqttClient) : Topic :=
  { t with clients := t.clients.erase client.clientId }

/-- The entry of the subscribers under a client id. -/
def find (clientId : Bytes) : Option Subscriber := t.clients.find clientId

theorem find_subscribe (c : MqttClient) (q : Nat) (id : Bytes) :
    (t.subscribe c q).find id = if id = c.clientId then some ⟨c, q⟩ else t.find id :=
  Keyed.find_put _ _ _

theorem find_unsubscribe (c : MqttClient) (id : Bytes) :
    (t.unsubscribe c).find id = if id = c.clientId then none else t.find id :=
  Keyed.find_erase _ _ _

theorem unsubscribe_unsubscribe (c : MqttClient) :
    (t.unsubscribe c).unsubscribe c = t.unsubscribe c := by
  simp [unsubscribe, Keyed.erase_erase]

/-- An empty topic has no subscriber and no retained message. -/
theorem empty_iff : t.empty = true ↔ t.retainedMessage = none ∧ ∀ id, t.find id = none := by
  rw [empty, Bool.and_eq_true, Option.isNone_iff_eq_none, Keyed.isEmpty_iff]
  rfl

end Topic

/-- `topic::match`. A `+` passes over the rest of a level, and `#` over
    everything, the level above included. -/
def topicMatch : Bytes → Bytes → Bool
  | [], [] => true
  | [], _ :: _ => false
  | f :: fs, [] => f = slash && fs.head? = some hash
  | f :: fs, n :: ns =>
    if f = hash then true
    else if f = plus then topicMatch fs ((n :: ns).dropWhile (· ≠ slash))
    else if f = n then topicMatch fs ns
    else false

end MqttBroker
