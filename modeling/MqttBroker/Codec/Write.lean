import MqttBroker.Packet.Layout

/-!
# Writing packets

The `serialize` of the packets: the bytes they write to a `streambuf`, in order,
or the text of the `mqtt_error` they throw. `mqtt_codec::channel_write` makes
room for eight bytes more than the remaining length before it calls `serialize`.
-/

namespace MqttBroker

/-- `streambuf::write_uint16`, the high byte first. -/
def writeUInt16 (n : UInt16) : Bytes := [UInt8.ofNat (n.toNat / 256), UInt8.ofNat n.toNat]

/-! ## Fixed headers -/

/-- The value of a `packet_type`. -/
def PacketType.code : PacketType → UInt8
  | .connect => 1
  | .connack => 2
  | .publish => 3
  | .puback => 4
  | .pubrec => 5
  | .pubrel => 6
  | .pubcomp => 7
  | .subscribe => 8
  | .suback => 9
  | .unsubscribe => 10
  | .unsuback => 11
  | .pingreq => 12
  | .pingresp => 13
  | .disconnect => 14
  | .unspecified code => code

/-- The loop of `fixed_header::encode_remaining_length`: a byte for each unit of
    fuel. What passes the check takes four bytes at most. -/
def encodeRemainingLengthLoop : Nat → Nat → Bytes
  | 0, _ => []
  | fuel + 1, length =>
    let encodedByte := UInt8.ofNat (length % 0x80)
    let length := length >>> 7
    if 0 < length then (encodedByte ||| 0x80) :: encodeRemainingLengthLoop fuel length
    else [encodedByte]

/-- `fixed_header::encode_remaining_length`. -/
def encodeRemainingLength (remainingLength : Nat) : Except String Bytes :=
  if remainingLength > 0x0fffffff then .error "too big remaining length."
  else .ok (encodeRemainingLengthLoop 4 remainingLength)

/-- The first byte of a fixed header. -/
def FixedHeader.byte (fh : FixedHeader) : UInt8 := (fh.type.code <<< 4) ||| fh.flags

/-- `fixed_header::serialize`. -/
def FixedHeader.serialize (fh : FixedHeader) : Except String Bytes := do
  let length ← encodeRemainingLength fh.remainingLength
  pure (fh.byte :: length)

/-! ## Strings and binaries -/

/-- `fixed_header::encode_string`. -/
def encodeString (str : Bytes) : Except String Bytes :=
  if str.length > 0xffff then .error "too long string. (encode_string)"
  else .ok (lengthPrefixed str)

/-- `fixed_header::encode_binary`. -/
def encodeBinary (bin : Bytes) : Except String Bytes :=
  if bin.length > 0xffff then .error "too long binary. (encode_binary)"
  else .ok (lengthPrefixed bin)

/-- Write a field under a flag. -/
def encodeIf (flag : Bool) (m : Except String Bytes) : Except String Bytes :=
  if flag then m else pure []

/-! ## Packets -/

/-- `mqtt_connect::serialize`. -/
def MqttConnect.serialize (p : MqttConnect) : Except String Bytes := do
  let header ← p.toFixedHeader.serialize
  let protocolName ← encodeString p.protocolName
  let clientId ← encodeString p.clientId
  let willTopic ← encodeIf p.willFlag (encodeString p.willTopic)
  let willMessage ← encodeIf p.willFlag (encodeBinary p.willMessage)
  let username ← encodeIf p.usernameFlag (encodeString p.username)
  let password ← encodeIf p.passwordFlag (encodeBinary p.password)
  pure (header ++ protocolName ++ [p.protocolLevel, p.connectFlags] ++ writeUInt16 p.keepAlive ++
    clientId ++ willTopic ++ willMessage ++ username ++ password)

/-- `mqtt_connack::serialize`. -/
def MqttConnack.serialize (p : MqttConnack) : Except String Bytes := do
  let header ← p.toFixedHeader.serialize
  pure (header ++ [if p.sessionPresent then 0x01 else 0x00, UInt8.ofNat p.connectReturnCode])

/-- `mqtt_publish::serialize`. -/
def MqttPublish.serialize (p : MqttPublish) : Except String Bytes := do
  let header ← p.toFixedHeader.serialize
  let topicName ← encodeString p.topicName
  let packetId := if p.qos = 1 ∨ p.qos = 2 then writeUInt16 p.packetId else []
  pure (header ++ (topicName ++ (packetId ++ p.payload)))

/-- The `serialize` of the packets with a packet id only. -/
def IdPacket.serialize (p : IdPacket) : Except String Bytes := do
  let header ← p.toFixedHeader.serialize
  pure (header ++ writeUInt16 p.packetId)

/-- The loop of `mqtt_subscribe::serialize`. -/
def encodeTopicFilters : List SubscribeEntry → Except String Bytes
  | [] => pure []
  | entry :: entries => do
    let topicFilter ← encodeString entry.topicFilter
    let rest ← encodeTopicFilters entries
    pure (topicFilter ++ [UInt8.ofNat entry.maxQos] ++ rest)

/-- `mqtt_subscribe::serialize`. -/
def MqttSubscribe.serialize (p : MqttSubscribe) : Except String Bytes := do
  let header ← p.toFixedHeader.serialize
  let topicFilters ← encodeTopicFilters p.topicFilters
  pure (header ++ writeUInt16 p.packetId ++ topicFilters)

/-- `mqtt_suback::serialize`. -/
def MqttSuback.serialize (p : MqttSuback) : Except String Bytes := do
  let header ← p.toFixedHeader.serialize
  pure (header ++ (writeUInt16 p.packetId ++ p.returnCodes.map UInt8.ofNat))

/-- `mqtt_unsubscribe::serialize`. -/
def MqttUnsubscribe.serialize (_ : MqttUnsubscribe) : Except String Bytes :=
  throw "broker does not send a UNSUBSCRIBE packet."

namespace Packet

/-- The `fixed_header` of a packet. -/
def header : Packet → FixedHeader
  | .connect p => p.toFixedHeader
  | .connack p => p.toFixedHeader
  | .publish p => p.toFixedHeader
  | .puback p | .pubrec p | .pubrel p | .pubcomp p | .unsuback p => p.toFixedHeader
  | .subscribe p => p.toFixedHeader
  | .suback p => p.toFixedHeader
  | .unsubscribe p => p.toFixedHeader
  | .pingreq p | .pingresp p | .disconnect p => p

/-- The `serialize` of a packet: that of its class. -/
def serialize : Packet → Except String Bytes
  | .connect p => p.serialize
  | .connack p => p.serialize
  | .publish p => p.serialize
  | .puback p | .pubrec p | .pubrel p | .pubcomp p | .unsuback p => p.serialize
  | .subscribe p => p.serialize
  | .suback p => p.serialize
  | .unsubscribe p => p.serialize
  | .pingreq p | .pingresp p | .disconnect p => p.serialize

end Packet

end MqttBroker
