import Mathlib.Algebra.Group.Nat.Defs
import Mathlib.Data.List.Basic

/-!
# Packets

The control packets of `packet/`, as the objects of the source hold them: every
packet has the fields of `fixed_header` and its own. The packets with nothing
but a packet id share one structure (`IdPacket`), as those with nothing at all
are fixed headers.

Bytes are `UInt8`, packet ids `UInt16`; a QoS, a return code and a length are
natural numbers, wrapped explicitly where the source computes with them in 32
or 64 bits.
-/

namespace MqttBroker

/-- The contents of a `std::vector<uint8_t>` or of a `std::string`. -/
abbrev Bytes := List UInt8

/-- A string literal. -/
def ascii (s : List Char) : Bytes := s.map fun c => UInt8.ofNat c.toNat

/-- The characters with a meaning in topics: `/`, `#`, `+` and `$`. -/
def slash : UInt8 := 0x2f
def hash : UInt8 := 0x23
def plus : UInt8 := 0x2b
def dollar : UInt8 := 0x24

/-- `packet_type`: the values 1 to 14, in order, and the two of a four-bit
    field that have no name. -/
inductive PacketType
  | connect
  | connack
  | publish
  | puback
  | pubrec
  | pubrel
  | pubcomp
  | subscribe
  | suback
  | unsubscribe
  | unsuback
  | pingreq
  | pingresp
  | disconnect
  | unspecified (code : UInt8)
  deriving DecidableEq

/-- `static_cast<packet_type>(byte >> 4)`. -/
def PacketType.ofCode (code : UInt8) : PacketType :=
  match code with
  | 1 => .connect
  | 2 => .connack
  | 3 => .publish
  | 4 => .puback
  | 5 => .pubrec
  | 6 => .pubrel
  | 7 => .pubcomp
  | 8 => .subscribe
  | 9 => .suback
  | 10 => .unsubscribe
  | 11 => .unsuback
  | 12 => .pingreq
  | 13 => .pingresp
  | 14 => .disconnect
  | code => .unspecified code

/-- `fixed_header`: the length is that of the variable header and the payload
    to follow. -/
structure FixedHeader where
  type : PacketType
  flags : UInt8
  remainingLength : Nat
  deriving DecidableEq

/-- The check of the flags both constructors of `fixed_header` make. -/
def FixedHeader.checkFlags (type : PacketType) (flags : UInt8) : Except String Unit :=
  match type with
  | .pubrel | .subscribe | .unsubscribe =>
    if flags ≠ 0x02 then .error "malformed packet. (fixed header flags bits)" else .ok ()
  | .connect | .connack | .puback | .pubrec | .pubcomp | .suback | .unsuback | .pingreq
  | .pingresp | .disconnect =>
    if flags ≠ 0x00 then .error "malformed packet. (fixed header flags bits)" else .ok ()
  | .publish =>
    if flags &&& 0x06 = 0x06 then .error "malformed packet. (fixed header flags bits)" else .ok ()
  | .unspecified _ => .ok ()

/-- `mqtt_connect`. -/
structure MqttConnect extends FixedHeader where
  protocolName : Bytes
  protocolLevel : UInt8
  connectFlags : UInt8
  usernameFlag : Bool
  passwordFlag : Bool
  willRetain : Bool
  willQos : Nat
  willFlag : Bool
  cleanSession : Bool
  keepAlive : UInt16
  clientId : Bytes
  willTopic : Bytes
  willMessage : Bytes
  username : Bytes
  password : Bytes
  deriving DecidableEq

/-- `mqtt_connack`. -/
structure MqttConnack extends FixedHeader where
  sessionPresent : Bool
  connectReturnCode : Nat
  deriving DecidableEq

/-- `mqtt_publish`. The id is only meaningful for the QoS 1 and 2; the source
    leaves it unset for the QoS 0, and it is `0` here. -/
structure MqttPublish extends FixedHeader where
  dup : Bool
  qos : Nat
  retain : Bool
  topicName : Bytes
  packetId : UInt16
  payload : Bytes
  deriving DecidableEq

/-- A packet holding a packet id only. -/
structure IdPacket extends FixedHeader where
  packetId : UInt16
  deriving DecidableEq

/-- `mqtt_puback`. -/
abbrev MqttPuback := IdPacket
/-- `mqtt_pubrec`. -/
abbrev MqttPubrec := IdPacket
/-- `mqtt_pubrel`. -/
abbrev MqttPubrel := IdPacket
/-- `mqtt_pubcomp`. -/
abbrev MqttPubcomp := IdPacket
/-- `mqtt_unsuback`. -/
abbrev MqttUnsuback := IdPacket

/-- An entry of a SUBSCRIBE: the elements at one index of its three vectors. -/
structure SubscribeEntry where
  topicFilter : Bytes
  maxQos : Nat
  isWild : Bool
  deriving DecidableEq

/-- `mqtt_subscribe`. -/
structure MqttSubscribe extends FixedHeader where
  packetId : UInt16
  topicFilters : List SubscribeEntry
  deriving DecidableEq

/-- `mqtt_suback`. -/
structure MqttSuback extends FixedHeader where
  packetId : UInt16
  returnCodes : List Nat
  deriving DecidableEq

/-- An entry of an UNSUBSCRIBE: the elements at one index of its two vectors. -/
structure UnsubscribeEntry where
  topicFilter : Bytes
  isWild : Bool
  deriving DecidableEq

/-- `mqtt_unsubscribe`. -/
structure MqttUnsubscribe extends FixedHeader where
  packetId : UInt16
  topicFilters : List UnsubscribeEntry
  deriving DecidableEq

/-- `mqtt_pingreq`. -/
abbrev MqttPingreq := FixedHeader
/-- `mqtt_pingresp`. -/
abbrev MqttPingresp := FixedHeader
/-- `mqtt_disconnect`. -/
abbrev MqttDisconnect := FixedHeader

/-- A packet object. -/
inductive Packet
  | connect (p : MqttConnect)
  | connack (p : MqttConnack)
  | publish (p : MqttPublish)
  | puback (p : MqttPuback)
  | pubrec (p : MqttPubrec)
  | pubrel (p : MqttPubrel)
  | pubcomp (p : MqttPubcomp)
  | subscribe (p : MqttSubscribe)
  | suback (p : MqttSuback)
  | unsubscribe (p : MqttUnsubscribe)
  | unsuback (p : MqttUnsuback)
  | pingreq (p : MqttPingreq)
  | pingresp (p : MqttPingresp)
  | disconnect (p : MqttDisconnect)
  deriving DecidableEq

/-! ## Packets the broker builds -/

/-- `mqtt_connack(session_present, connect_return_code)`. -/
def mqttConnack (sessionPresent : Bool) (connectReturnCode : Nat) : MqttConnack where
  type := .connack
  flags := 0
  remainingLength := 2
  sessionPresent := sessionPresent
  connectReturnCode := connectReturnCode

/-- A packet of the given type and flags holding a packet id. -/
def idPacket (type : PacketType) (flags : UInt8) (packetId : UInt16) : IdPacket where
  type := type
  flags := flags
  remainingLength := 2
  packetId := packetId

/-- `mqtt_puback(packet_id)`. -/
def mqttPuback (packetId : UInt16) : MqttPuback := idPacket .puback 0 packetId
/-- `mqtt_pubrec(packet_id)`. -/
def mqttPubrec (packetId : UInt16) : MqttPubrec := idPacket .pubrec 0 packetId
/-- `mqtt_pubrel(packet_id)`. -/
def mqttPubrel (packetId : UInt16) : MqttPubrel := idPacket .pubrel 2 packetId
/-- `mqtt_pubcomp(packet_id)`. -/
def mqttPubcomp (packetId : UInt16) : MqttPubcomp := idPacket .pubcomp 0 packetId
/-- `mqtt_unsuback(packet_id)`. -/
def mqttUnsuback (packetId : UInt16) : MqttUnsuback := idPacket .unsuback 0 packetId

/-- `mqtt_suback(packet_id)`. -/
def mqttSuback (packetId : UInt16) : MqttSuback where
  type := .suback
  flags := 0
  remainingLength := 2
  packetId := packetId
  returnCodes := []

/-- `mqtt_suback::add_return_code`. -/
def MqttSuback.addReturnCode (p : MqttSuback) (returnCode : Nat) : Except String MqttSuback :=
  if 3 ≤ returnCode ∧ returnCode ≠ 0x80 then .error "invalid result code. (SUBACK)"
  else .ok { p with
    remainingLength := (p.remainingLength + 1) % 2 ^ 32
    returnCodes := p.returnCodes ++ [returnCode] }

/-- `mqtt_pingresp()`. -/
def mqttPingresp : MqttPingresp where
  type := .pingresp
  flags := 0
  remainingLength := 0

/-- `mqtt_publish(dup, qos, retain, topic_name, packet_id, payload)`. The length
    of the topic name is checked before the name is assigned: it is that of the
    empty member. -/
def mqttPublish (dup : Bool) (qos : Nat) (retain : Bool) (topicName : Bytes) (packetId : UInt16)
    (payload : Bytes) : Except String MqttPublish :=
  let flags : UInt8 := if dup then 0x08 else 0
  if qos = 3 then .error "try to cretae malformed packet. (PUBLISH QoS is 3)"
  else
    let flags := flags ||| (UInt8.ofNat qos <<< 1)
    let flags := if retain then flags ||| 0x01 else flags
    if ([] : Bytes).length > 0xffff then
      .error "try to cretae malformed packet. (PUBLISH topic name is too long)"
    else
      let remainingLength := (topicName.length + 2) % 2 ^ 32
      let hasId := qos = 1 ∨ qos = 2
      let remainingLength := if hasId then (remainingLength + 2) % 2 ^ 32 else remainingLength
      if payload.length + remainingLength > 0x0fffffff then
        .error "try to cretae malformed packet. (PUBLISH payload is too long)"
      else .ok {
        type := .publish
        flags := flags
        remainingLength := (remainingLength + payload.length) % 2 ^ 32
        dup := dup
        qos := qos
        retain := retain
        topicName := topicName
        packetId := if hasId then packetId else 0
        payload := payload }

end MqttBroker
