import MqttBroker.Lib.Reader
import MqttBroker.Packet.Basic

/-!
# Decoding packets

The constructors of the packets from a `streambuf`: a byte queue whose reads
fail with `ReadError.notEnough` (`util::not_enough_error`) when bytes are
missing. Everything else that goes wrong is a `mqtt_error`, with its text.

The loops of the source run on explicit fuel here, large enough that they end
by their own conditions: the bytes of a string on its length, the entries of a
SUBSCRIBE and an UNSUBSCRIBE on the remaining length, which every entry
decreases.
-/

namespace MqttBroker

/-- What the decoders throw. -/
inductive ReadError
  /-- `util::not_enough_error`. -/
  | notEnough
  /-- `mqtt_error`, with its text. -/
  | mqttError (what : String)
  deriving DecidableEq

/-- A function reading from a `streambuf`. -/
abbrev PacketReader (α : Type) := Reader UInt8 ReadError α

/-- `streambuf::read_uint8`. -/
def readUInt8 : PacketReader UInt8 := Reader.next .notEnough

/-- `streambuf::read_uint16`, the high byte first. -/
def readUInt16 : PacketReader UInt16 := do
  let hi ← readUInt8
  let lo ← readUInt8
  pure (UInt16.ofNat (hi.toNat * 256 + lo.toNat))

/-- `streambuf::read` of `length` bytes. -/
def readBytes (length : Nat) : PacketReader Bytes := Reader.take .notEnough length

/-- `if (c) throw mqtt_error(what)`. -/
def rejectIf (c : Prop) [Decidable c] (what : String) : PacketReader Unit :=
  if c then Reader.fail (.mqttError what) else pure ()

/-- Read a field under a flag; the default where the flag is not set. -/
def readIf {α : Type} (flag : Bool) (m : PacketReader α) (default : α) : PacketReader α :=
  if flag then m else pure default

/-- Rethrow the error of a check. -/
def ofCheck (r : Except String Unit) : PacketReader Unit :=
  match r with
  | .ok () => pure ()
  | .error what => Reader.fail (.mqttError what)

/-! ## Fixed headers -/

/-- The loop of `fixed_header::decode_remaining_length`: one byte for each unit
    of fuel (it throws in the fourth round at the latest). -/
def decodeRemainingLengthLoop : Nat → Nat → Nat → PacketReader Nat
  | 0, length, _ => pure length
  | fuel + 1, length, shift => do
    let encodedByte ← readUInt8
    let length := length + (encodedByte &&& 0x7f).toNat <<< shift
    let shift := shift + 7
    rejectIf (shift > 21) "malformed packet received. (malformed remaining length)"
    if encodedByte &&& 0x80 ≠ 0 then decodeRemainingLengthLoop fuel length shift
    else pure length

/-- `fixed_header::decode_remaining_length`. -/
def decodeRemainingLength : PacketReader Nat := decodeRemainingLengthLoop 4 0 0

/-- `fixed_header(sb_ptr)`. -/
def decodeFixedHeader : PacketReader FixedHeader := do
  let byte ← readUInt8
  let type := PacketType.ofCode (byte >>> 4)
  let flags := byte &&& 0x0f
  ofCheck (FixedHeader.checkFlags type flags)
  let remainingLength ← decodeRemainingLength
  pure { type := type, flags := flags, remainingLength := remainingLength }

/-! ## Strings and binaries -/

/-- One round of the loop of `fixed_header::decode_string`, from the byte `ch`:
    the bytes it pushes, and how far it moves the index. -/
def decodeCodePoint (ch : UInt8) : PacketReader (Bytes × Nat) :=
  if ch = 0x00 then
    Reader.fail (.mqttError "ill formed UTF-8 string found. [code point:U+0000]")
  else if ch ≤ 0x7f then pure ([ch], 1)
  else if ch ≤ 0xdf then do
    let ch2 ← readUInt8
    pure ([ch, ch2], 2)
  else if ch ≤ 0xef then do
    let ch2 ← readUInt8
    rejectIf (ch = 0xed ∧ 0xa0 ≤ ch2)
      "ill formed UTF-8 string found. [code point:U+D800 ~ U+DFFF]"
    let ch3 ← readUInt8
    pure ([ch, ch2, ch3], 3)
  else if ch ≤ 0xf7 then do
    let ch2 ← readUInt8
    let ch3 ← readUInt8
    let ch4 ← readUInt8
    pure ([ch, ch2, ch3, ch4], 4)
  else pure ([], 1)

/-- The loop of `fixed_header::decode_string`, with `left` bytes to go. -/
def decodeStringLoop : Nat → Nat → PacketReader Bytes
  | 0, _ => pure []
  | fuel + 1, left =>
    if left = 0 then pure []
    else do
      let ch ← readUInt8
      let (pushed, moved) ← decodeCodePoint ch
      rejectIf (left < moved) "ill formed UTF-8 string found."
      let rest ← decodeStringLoop fuel (left - moved)
      pure (pushed ++ rest)

/-- `fixed_header::decode_string`. -/
def decodeString : PacketReader Bytes := do
  let length ← readUInt16
  decodeStringLoop length.toNat length.toNat

/-- `fixed_header::decode_binary`. -/
def decodeBinary : PacketReader Bytes := do
  let length ← readUInt16
  let result ← readBytes length.toNat
  rejectIf (result.length < length.toNat) "not enough data. (decode_binary)"
  pure result

/-! ## Topic filters -/

/-- The loop of `mqtt_subscribe::is_topic_filter_valid`: the wildness found so
    far, and the previous character (`none` at the index 0). -/
def isTopicFilterValidLoop (isWild : Bool) (prevCh : Option UInt8) : Bytes → Bool × Bool
  | [] => (true, isWild)
  | ch :: rest =>
    let afterLevel := prevCh.all (· = slash)
    if ch = hash then
      if !afterLevel || !rest.isEmpty then (false, true)
      else isTopicFilterValidLoop true (some ch) rest
    else if ch = plus then
      if !afterLevel || !rest.head?.all (· = slash) then (false, true)
      else isTopicFilterValidLoop true (some ch) rest
    else isTopicFilterValidLoop isWild (some ch) rest

/-- `mqtt_subscribe::is_topic_filter_valid`: what it returns, and `is_wild`. -/
def isTopicFilterValid (topicFilter : Bytes) : Bool × Bool :=
  isTopicFilterValidLoop false none topicFilter

/-! ## Packets -/

/-- `mqtt_connect(fh, sb_ptr)`. -/
def decodeConnect (fh : FixedHeader) : PacketReader MqttConnect := do
  let protocolName ← decodeString
  let protocolLevel ← readUInt8
  let connectFlags ← readUInt8
  let usernameFlag : Bool := connectFlags &&& 0x80 ≠ 0
  let passwordFlag : Bool := connectFlags &&& 0x40 ≠ 0
  let willRetain : Bool := connectFlags &&& 0x20 ≠ 0
  let willQos := ((connectFlags &&& 0x18) >>> 3).toNat
  let willFlag : Bool := connectFlags &&& 0x04 ≠ 0
  let cleanSession : Bool := connectFlags &&& 0x02 ≠ 0
  rejectIf (connectFlags &&& 0x01 ≠ 0) "malformed packet received. (CONNECT - connect flags)"
  rejectIf (willFlag = false ∧ (willQos ≠ 0 ∨ willRetain = true))
    "malformed packet received. (CONNECT - connect flags - will flag, will qos, will_retain)"
  rejectIf (3 ≤ willQos) "malformed packet received. (CONNECT - connect flags - will QoS)"
  let keepAlive ← readUInt16
  let clientId ← decodeString
  let willTopic ← readIf willFlag decodeString []
  let willMessage ← readIf willFlag decodeBinary []
  let username ← readIf usernameFlag decodeString []
  let password ← readIf passwordFlag decodeBinary []
  pure { fh with
    protocolName, protocolLevel, connectFlags, usernameFlag, passwordFlag, willRetain, willQos
    willFlag, cleanSession, keepAlive, clientId, willTopic, willMessage, username, password }

/-- `mqtt_connack(fh, sb_ptr)`. -/
def decodeConnack (fh : FixedHeader) : PacketReader MqttConnack := do
  let byte ← readUInt8
  rejectIf (1 < byte.toNat) "malformed packet. (CONNACK)"
  let connectReturnCode ← readUInt8
  rejectIf (6 ≤ connectReturnCode.toNat)
    "malformed packet. (CONNACK - unknown connect return code)"
  pure { fh with
    sessionPresent := byte &&& 0x01 ≠ 0, connectReturnCode := connectReturnCode.toNat }

/-- `mqtt_publish(fh, sb_ptr)`. The length of the payload is a difference of
    unsigned 64-bit numbers. -/
def decodePublish (fh : FixedHeader) : PacketReader MqttPublish := do
  let dup : Bool := fh.flags &&& 0x08 ≠ 0
  let qos := ((fh.flags &&& 0x06) >>> 1).toNat
  let retain : Bool := fh.flags &&& 0x01 ≠ 0
  rejectIf (qos = 0 ∧ dup = true)
    "malformed packet received. (publish packet with qos = 0 and dup = 1)"
  rejectIf (qos = 3) "malformed packet received. (publish packet with qos = 3)"
  let topicName ← decodeString
  rejectIf (topicName = []) "malformed packet received. (empty topic name)"
  rejectIf (topicName.head? = some dollar)
    "malformed packet received. (clients can not publish to topics starting with $)"
  rejectIf (hash ∈ topicName ∨ plus ∈ topicName)
    "malformed packet received. (the topic of the PUBLISH has a wildcard.)"
  let hasId : Bool := qos = 1 ∨ qos = 2
  let packetId ← readIf hasId readUInt16 0
  let variableHeaderLen := topicName.length + 2 + if hasId then 2 else 0
  let payloadLen := (fh.remainingLength + (2 ^ 64 - variableHeaderLen % 2 ^ 64)) % 2 ^ 64
  let inSize ← Reader.size
  rejectIf (inSize < payloadLen)
    "malformed packet received. (not enough data - PUBLISH payload.)"
  let payload ← readBytes payloadLen
  pure { fh with dup, qos, retain, topicName, packetId, payload }

/-- The constructors of the packets with a packet id only. -/
def decodeIdPacket (fh : FixedHeader) : PacketReader IdPacket := do
  let packetId ← readUInt16
  pure { fh with packetId }

/-- `mqtt_puback(fh, sb_ptr)`. -/
def decodePuback : FixedHeader → PacketReader MqttPuback := decodeIdPacket
/-- `mqtt_pubrec(fh, sb_ptr)`. -/
def decodePubrec : FixedHeader → PacketReader MqttPubrec := decodeIdPacket
/-- `mqtt_pubrel(fh, sb_ptr)`. -/
def decodePubrel : FixedHeader → PacketReader MqttPubrel := decodeIdPacket
/-- `mqtt_pubcomp(fh, sb_ptr)`. -/
def decodePubcomp : FixedHeader → PacketReader MqttPubcomp := decodeIdPacket
/-- `mqtt_unsuback(fh, sb_ptr)`. -/
def decodeUnsuback : FixedHeader → PacketReader MqttUnsuback := decodeIdPacket

/-- The loop of `mqtt_subscribe(fh, sb_ptr)`, while `remain` is positive. -/
def decodeSubscribeLoop : Nat → Int → PacketReader (List SubscribeEntry)
  | 0, _ => pure []
  | fuel + 1, remain =>
    if remain ≤ 0 then pure []
    else do
      let topic ← decodeString
      rejectIf (topic = []) "malformed packet received. (empty topic filter)"
      let remain := remain - (topic.length + 2 : Nat)
      if (isTopicFilterValid topic).1 then
        let maxQos ← readUInt8
        rejectIf (3 ≤ maxQos.toNat) "malformed packet. (SUBSCRIBE topic filter QoS)"
        let entries ← decodeSubscribeLoop fuel (remain - 1)
        pure (⟨topic, maxQos.toNat, (isTopicFilterValid topic).2⟩ :: entries)
      else
        let entries ← decodeSubscribeLoop fuel remain
        pure (⟨topic, 0x80, false⟩ :: entries)

/-- `mqtt_subscribe(fh, sb_ptr)`. -/
def decodeSubscribe (fh : FixedHeader) : PacketReader MqttSubscribe := do
  let packetId ← readUInt16
  let topicFilters ← decodeSubscribeLoop fh.remainingLength (fh.remainingLength - 2)
  rejectIf (topicFilters = []) "A SUBSCRIBE with no topic filter was received."
  pure { fh with packetId, topicFilters }

/-- The loop of `mqtt_suback(fh, sb_ptr)`, for `count` return codes. -/
def decodeSubackLoop : Nat → PacketReader (List Nat)
  | 0 => pure []
  | count + 1 => do
    let code ← readUInt8
    rejectIf (3 ≤ code.toNat ∧ code.toNat ≠ 0x80)
      "malformed packet (SUBACK - invalid return code)"
    let codes ← decodeSubackLoop count
    pure (code.toNat :: codes)

/-- `mqtt_suback(fh, sb_ptr)`. The count is a signed number, and there is no
    round where it is negative. -/
def decodeSuback (fh : FixedHeader) : PacketReader MqttSuback := do
  let packetId ← readUInt16
  let returnCodes ← decodeSubackLoop (fh.remainingLength - 2)
  pure { fh with packetId, returnCodes }

/-- The loop of `mqtt_unsubscribe(fh, sb_ptr)`, while `remain` is positive. -/
def decodeUnsubscribeLoop : Nat → Int → PacketReader (List UnsubscribeEntry)
  | 0, _ => pure []
  | fuel + 1, remain =>
    if remain ≤ 0 then pure []
    else do
      let topic ← decodeString
      rejectIf (topic = []) "malformed packet received. (empty topic filter)"
      let entries ← decodeUnsubscribeLoop fuel (remain - (topic.length + 2 : Nat))
      pure (⟨topic, (isTopicFilterValid topic).2⟩ :: entries)

/-- `mqtt_unsubscribe(fh, sb_ptr)`. -/
def decodeUnsubscribe (fh : FixedHeader) : PacketReader MqttUnsubscribe := do
  let packetId ← readUInt16
  let topicFilters ← decodeUnsubscribeLoop fh.remainingLength (fh.remainingLength - 2)
  rejectIf (topicFilters = []) "A UNSUBSCRIBE with no topic filter was received."
  pure { fh with packetId, topicFilters }

/-- The object a packet of the type of `fh` is decoded into; none for a type
    without a name, which the `switch` of `mqtt_codec::channel_read` skips. -/
def decodeBody (fh : FixedHeader) : PacketReader (Option Packet) :=
  match fh.type with
  | .connect => do pure (some (.connect (← decodeConnect fh)))
  | .connack => do pure (some (.connack (← decodeConnack fh)))
  | .publish => do pure (some (.publish (← decodePublish fh)))
  | .puback => do pure (some (.puback (← decodePuback fh)))
  | .pubrec => do pure (some (.pubrec (← decodePubrec fh)))
  | .pubrel => do pure (some (.pubrel (← decodePubrel fh)))
  | .pubcomp => do pure (some (.pubcomp (← decodePubcomp fh)))
  | .subscribe => do pure (some (.subscribe (← decodeSubscribe fh)))
  | .suback => do pure (some (.suback (← decodeSuback fh)))
  | .unsubscribe => do pure (some (.unsubscribe (← decodeUnsubscribe fh)))
  | .unsuback => do pure (some (.unsuback (← decodeUnsuback fh)))
  | .pingreq => pure (some (.pingreq fh))
  | .pingresp => pure (some (.pingresp fh))
  | .disconnect => pure (some (.disconnect fh))
  | .unspecified _ => pure none

end MqttBroker
