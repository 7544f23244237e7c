import MqttBroker.Codec.Strings

/-!
# CONNECT packets written and read back

The decoder of a CONNECT takes the fields that the flags say are there. Where the
flags say what the fields are, a CONNECT is read back (`reads_decodeConnect`). The
constructor sets a flag for a user name, a password, the way a will is published
and a clean session, but none for the will itself, whose fields `serialize` writes
all the same. So what is constructed is read back exactly if it has no will
(`connect_reads_back_iff`).
-/

namespace MqttBroker

open Reader

/-! ## The constructor -/

/-- `n += static_cast<uint32_t>(m)`, for a 32-bit `n`. -/
def addLength (n m : Nat) : Nat := (n + m % 2 ^ 32) % 2 ^ 32

/-- The connect flags that the constructor computes. `MASK_WILL_FLAG` is in none of
    the branches. -/
def computeConnectFlags (usernameFlag passwordFlag willRetain : Bool) (willQos : Nat)
    (cleanSession : Bool) : UInt8 :=
  let connectFlags : UInt8 := 0
  let connectFlags := if usernameFlag then connectFlags ||| 0x80 else connectFlags
  let connectFlags := if passwordFlag then connectFlags ||| 0x40 else connectFlags
  let connectFlags := if willRetain then connectFlags ||| 0x20 else connectFlags
  let connectFlags := connectFlags ||| ((UInt8.ofNat willQos <<< 3) &&& 0x18)
  if cleanSession then connectFlags ||| 0x02 else connectFlags

/-- The remaining length that the constructor adds up, from `0`. -/
def connectLength (usernameFlag passwordFlag willFlag : Bool)
    (protocolName clientId willTopic willMessage username password : Bytes) : Nat :=
  let remainingLength := addLength 0 (protocolName.length + 2)
  let remainingLength := addLength remainingLength 1
  let remainingLength := addLength remainingLength 1
  let remainingLength := addLength remainingLength 2
  let remainingLength := addLength remainingLength (2 + clientId.length)
  let remainingLength := if willFlag then
    addLength (addLength remainingLength (2 + willTopic.length)) (2 + willMessage.length)
    else remainingLength
  let remainingLength :=
    if usernameFlag then addLength remainingLength (2 + username.length) else remainingLength
  if passwordFlag then addLength remainingLength (2 + password.length) else remainingLength

/-- `mqtt_connect(protocol_name, protocol_level, username_flag, ...)`. -/
def mqttConnect (protocolName : Bytes) (protocolLevel : UInt8)
    (usernameFlag passwordFlag willRetain : Bool) (willQos : Nat) (willFlag cleanSession : Bool)
    (keepAlive : UInt16) (clientId willTopic willMessage username password : Bytes) :
    Except String MqttConnect :=
  if willFlag = false ∧ (willQos ≠ 0 ∨ willRetain = true) then
    .error "malformed packet. (CONNECT - connect flags - will flag, will qos, will_retain)"
  else if 3 ≤ willQos then .error "malformed packet. (CONNECT - connect flags - will QoS)"
  else .ok {
    type := .connect
    flags := 0
    remainingLength := connectLength usernameFlag passwordFlag willFlag protocolName clientId
      willTopic willMessage username password
    protocolName := protocolName
    protocolLevel := protocolLevel
    connectFlags := computeConnectFlags usernameFlag passwordFlag willRetain willQos cleanSession
    usernameFlag := usernameFlag
    passwordFlag := passwordFlag
    willRetain := willRetain
    willQos := willQos
    willFlag := willFlag
    cleanSession := cleanSession
    keepAlive := keepAlive
    clientId := clientId
    willTopic := willTopic
    willMessage := willMessage
    username := username
    password := password }

/-- A CONNECT, from its fixed header on. -/
def readConnect : PacketReader MqttConnect := do
  let fh ← decodeFixedHeader
  decodeConnect fh

/-- The strings are text, and all of its fields fit behind a length. -/
structure MqttConnect.Writable (p : MqttConnect) : Prop where
  protocolName : MqttUtf8 p.protocolName ∧ p.protocolName.length ≤ 0xffff
  clientId : MqttUtf8 p.clientId ∧ p.clientId.length ≤ 0xffff
  willTopic : MqttUtf8 p.willTopic ∧ p.willTopic.length ≤ 0xffff
  willMessage : p.willMessage.length ≤ 0xffff
  username : MqttUtf8 p.username ∧ p.username.length ≤ 0xffff
  password : p.password.length ≤ 0xffff

/-- Two CONNECTs agree in everything but the fields whose flag is not set. -/
structure MqttConnect.SameFields (p q : MqttConnect) : Prop where
  protocolName : q.protocolName = p.protocolName
  protocolLevel : q.protocolLevel = p.protocolLevel
  connectFlags : q.connectFlags = p.connectFlags
  usernameFlag : q.usernameFlag = p.usernameFlag
  passwordFlag : q.passwordFlag = p.passwordFlag
  willRetain : q.willRetain = p.willRetain
  willQos : q.willQos = p.willQos
  willFlag : q.willFlag = p.willFlag
  cleanSession : q.cleanSession = p.cleanSession
  keepAlive : q.keepAlive = p.keepAlive
  clientId : q.clientId = p.clientId
  will : p.willFlag = true → q.willTopic = p.willTopic ∧ q.willMessage = p.willMessage
  username : p.usernameFlag = true → q.username = p.username
  password : p.passwordFlag = true → q.password = p.password

/-- The CONNECT is written, and decoded to what it was, `tail` being left. -/
def MqttConnect.ReadsBack (p : MqttConnect) (tail : Bytes) : Prop :=
  ∃ bytes q, p.serialize = .ok bytes ∧ readConnect (bytes ++ tail) = .ok (q, tail) ∧ p.SameFields q

/-! ## The layout -/

/-- The bytes of a field under a flag. -/
def fieldBytes (flag : Bool) (field : Bytes) : Bytes := if flag then lengthPrefixed field else []

/-- What a CONNECT writes after its fixed header. -/
def MqttConnect.body (p : MqttConnect) : Bytes :=
  lengthPrefixed p.protocolName ++ (p.protocolLevel :: p.connectFlags :: (writeUInt16 p.keepAlive ++
    (lengthPrefixed p.clientId ++ (fieldBytes p.willFlag p.willTopic ++
      (fieldBytes p.willFlag p.willMessage ++ (fieldBytes p.usernameFlag p.username ++
        fieldBytes p.passwordFlag p.password))))))

/-- What is read of a CONNECT: the fields whose flag is not set stay empty. -/
def MqttConnect.visible (p : MqttConnect) : MqttConnect :=
  { p with
    willTopic := if p.willFlag then p.willTopic else []
    willMessage := if p.willFlag then p.willMessage else []
    username := if p.usernameFlag then p.username else []
    password := if p.passwordFlag then p.password else [] }

theorem MqttConnect.sameFields_visible (p : MqttConnect) : p.SameFields p.visible :=
  ⟨rfl, rfl, rfl, rfl, rfl, rfl, rfl, rfl, rfl, rfl, rfl, fun h => ⟨if_pos h, if_pos h⟩,
    fun h => if_pos h, fun h => if_pos h⟩

/-- The connect flags are those of the fields. -/
structure MqttConnect.FlagsAgree (p : MqttConnect) : Prop where
  reserved : ¬p.connectFlags &&& 0x01 ≠ 0
  usernameFlag : decide (p.connectFlags &&& 0x80 ≠ 0) = p.usernameFlag
  passwordFlag : decide (p.connectFlags &&& 0x40 ≠ 0) = p.passwordFlag
  willRetain : decide (p.connectFlags &&& 0x20 ≠ 0) = p.willRetain
  willQos : ((p.connectFlags &&& 0x18) >>> 3).toNat = p.willQos
  willFlag : decide (p.connectFlags &&& 0x04 ≠ 0) = p.willFlag
  cleanSession : decide (p.connectFlags &&& 0x02 ≠ 0) = p.cleanSession
  noWill : ¬(p.willFlag = false ∧ (p.willQos ≠ 0 ∨ p.willRetain = true))
  validQos : p.willQos < 3

theorem reads_readIf {α : Type} {flag : Bool} {m : PacketReader α} {u : Bytes} {a default : α}
    (hm : Reads m u a) :
    Reads (readIf flag m default) (if flag then u else []) (if flag then a else default) := by
  cases flag with
  | true => exact hm
  | false => exact reads_pure _

/-- A binary is decoded from its length and its bytes. -/
theorem reads_decodeBinary {u : Bytes} (hu : u.length ≤ 0xffff) :
    Reads decodeBinary (lengthPrefixed u) u := by
  rw [lengthPrefixed_eq hu]
  refine reads_bind (reads_readUInt16 _) (reads_bind_nil (b := u) ?_ ?_)
  · rw [toNat_ofNat_length hu]
    exact reads_take _ u
  · rw [toNat_ofNat_length hu]
    exact reads_rejectIf_bind (Nat.lt_irrefl _) (reads_pure u)

/-- Where the flags are those of the fields, the fields that are there are read back. -/
theorem reads_decodeConnect {p : MqttConnect} (hw : p.Writable) (h : p.FlagsAgree) :
    Reads (decodeConnect p.toFixedHeader) p.body p.visible := by
  refine reads_bind (reads_decodeString_of_mqttUtf8 hw.protocolName.2 hw.protocolName.1) ?_
  refine reads_bind_cons (reads_readUInt8 p.protocolLevel) ?_
  refine reads_bind_cons (reads_readUInt8 p.connectFlags) ?_
  dsimp only
  rw [h.usernameFlag, h.passwordFlag, h.willRetain, h.willQos, h.willFlag, h.cleanSession]
  refine reads_rejectIf_bind h.reserved (reads_rejectIf_bind h.noWill
    (reads_rejectIf_bind (Nat.not_le.2 h.validQos) ?_))
  refine reads_bind (reads_readUInt16 p.keepAlive) ?_
  refine reads_bind (reads_decodeString_of_mqttUtf8 hw.clientId.2 hw.clientId.1) ?_
  refine reads_bind (reads_readIf (reads_decodeString_of_mqttUtf8 hw.willTopic.2 hw.willTopic.1)) ?_
  refine reads_bind (reads_readIf (reads_decodeBinary hw.willMessage)) ?_
  refine reads_bind (reads_readIf (reads_decodeString_of_mqttUtf8 hw.username.2 hw.username.1)) ?_
  exact reads_bind_nil (reads_readIf (reads_decodeBinary hw.password)) (reads_pure p.visible)

/-- A CONNECT is its header and its body. -/
theorem MqttConnect.Writable.serialize_eq {p : MqttConnect} (hw : p.Writable) :
    p.serialize = (p.toFixedHeader.serialize >>= fun header => pure (header ++ p.body)) := by
  have hstring {s : Bytes} (hs : s.length ≤ 0xffff) : encodeString s = .ok (lengthPrefixed s) :=
    if_neg (Nat.not_lt.2 hs)
  have hbinary {s : Bytes} (hs : s.length ≤ 0xffff) : encodeBinary s = .ok (lengthPrefixed s) :=
    if_neg (Nat.not_lt.2 hs)
  have hif (flag : Bool) (s : Bytes) : encodeIf flag (.ok (lengthPrefixed s)) =
      .ok (fieldBytes flag s) := by
    cases flag <;> rfl
  rw [serialize, hstring hw.protocolName.2, hstring hw.clientId.2, hstring hw.willTopic.2,
    hbinary hw.willMessage, hstring hw.username.2, hbinary hw.password, hif, hif, hif, hif]
  cases p.toFixedHeader.serialize with
  | error what => rfl
  | ok header =>
    refine congrArg Except.ok ?_
    simp only [body, List.append_assoc, List.cons_append, List.nil_append]

/-! ## What is constructed -/

/-- The flags tell everything but the will. -/
theorem computeConnectFlags_bits : ∀ willQos < 3,
    ∀ usernameFlag passwordFlag willRetain cleanSession : Bool,
      let connectFlags :=
        computeConnectFlags usernameFlag passwordFlag willRetain willQos cleanSession
      ¬connectFlags &&& 0x01 ≠ 0 ∧ decide (connectFlags &&& 0x80 ≠ 0) = usernameFlag ∧
        decide (connectFlags &&& 0x40 ≠ 0) = passwordFlag ∧
        decide (connectFlags &&& 0x20 ≠ 0) = willRetain ∧
        ((connectFlags &&& 0x18) >>> 3).toNat = willQos ∧
        decide (connectFlags &&& 0x04 ≠ 0) = false ∧
        decide (connectFlags &&& 0x02 ≠ 0) = cleanSession := by
  decide

/-- What a CONNECT that was constructed satisfies. -/
structure MqttConnect.Constructed (p : MqttConnect) : Prop where
  header : p.toFixedHeader = ⟨.connect, 0, p.remainingLength⟩
  connectFlags : p.connectFlags =
    computeConnectFlags p.usernameFlag p.passwordFlag p.willRetain p.willQos p.cleanSession
  noWill : ¬(p.willFlag = false ∧ (p.willQos ≠ 0 ∨ p.willRetain = true))
  validQos : p.willQos < 3
  length : p.Writable → p.remainingLength = p.body.length

theorem length_fieldBytes (flag : Bool) (field : Bytes) :
    (fieldBytes flag field).length = if flag then field.length + 2 else 0 := by
  cases flag <;> rfl

theorem addLength_eq {n m : Nat} (h : n + m < 2 ^ 32) : addLength n m = n + m := by
  rw [addLength]
  omega

variable {protocolName clientId willTopic willMessage username password : Bytes}
  {protocolLevel : UInt8} {usernameFlag passwordFlag willRetain willFlag cleanSession : Bool}
  {willQos : Nat} {keepAlive : UInt16} {p : MqttConnect}

/-- The constructor counts the bytes that are written. -/
theorem MqttConnect.Writable.connectLength_eq (hw : p.Writable) :
    connectLength p.usernameFlag p.passwordFlag p.willFlag p.protocolName p.clientId p.willTopic
      p.willMessage p.username p.password = p.body.length := by
  obtain ⟨⟨-, hname⟩, ⟨-, hid⟩, ⟨-, htopic⟩, hmessage, ⟨-, huser⟩, hpass⟩ := hw
  simp only [connectLength, body, List.length_append, List.length_cons, length_lengthPrefixed,
    length_fieldBytes, writeUInt16, List.length_nil]
  split_ifs <;> simp (disch := omega) only [addLength_eq] <;> omega

theorem constructed_of_mqttConnect
    (hp : mqttConnect protocolName protocolLevel usernameFlag passwordFlag willRetain willQos
      willFlag cleanSession keepAlive clientId willTopic willMessage username password = .ok p) :
    p.Constructed ∧ p.willFlag = willFlag := by
  rw [mqttConnect] at hp
  split_ifs at hp with hnone hqos
  cases hp
  exact ⟨⟨rfl, rfl, hnone, Nat.lt_of_not_le hqos, fun hw => hw.connectLength_eq⟩, rfl⟩

theorem MqttConnect.Writable.length_body_lt (hw : p.Writable) : p.body.length < 2 ^ 21 := by
  obtain ⟨⟨-, hname⟩, ⟨-, hid⟩, ⟨-, htopic⟩, hmessage, ⟨-, huser⟩, hpass⟩ := hw
  simp only [body, List.length_append, List.length_cons, length_lengthPrefixed,
    length_fieldBytes, writeUInt16, List.length_nil]
  split_ifs <;> omega

/-- The bit of the will is clear in what was constructed. -/
theorem MqttConnect.Constructed.willBit (h : p.Constructed) :
    decide (p.connectFlags &&& 0x04 ≠ 0) = false := by
  rw [h.connectFlags]
  obtain ⟨-, -, -, -, -, hwill, -⟩ := computeConnectFlags_bits p.willQos h.validQos
    p.usernameFlag p.passwordFlag p.willRetain p.cleanSession
  exact hwill

/-- A CONNECT that was constructed has the flags of its fields exactly if it has no will. -/
theorem MqttConnect.Constructed.flagsAgree_iff (h : p.Constructed) :
    p.FlagsAgree ↔ p.willFlag = false := by
  have hwill := h.willBit
  obtain ⟨hreserved, huser, hpass, hretain, hqos, -, hclean⟩ := computeConnectFlags_bits
    p.willQos h.validQos p.usernameFlag p.passwordFlag p.willRetain p.cleanSession
  rw [← h.connectFlags] at hreserved huser hpass hretain hqos hclean
  refine ⟨fun ha => ha.willFlag.symm.trans hwill, fun hnone => ?_⟩
  exact ⟨hreserved, huser, hpass, hretain, hqos, hwill.trans hnone.symm, hclean, h.noWill,
    h.validQos⟩

/-- A CONNECT that was constructed is read back exactly if it has no will. -/
theorem connect_reads_back_iff
    (hp : mqttConnect protocolName protocolLevel usernameFlag passwordFlag willRetain willQos
      willFlag cleanSession keepAlive clientId willTopic willMessage username password = .ok p)
    (hw : p.Writable) (tail : Bytes) : p.ReadsBack tail ↔ willFlag = false := by
  obtain ⟨hc, rfl⟩ := constructed_of_mqttConnect hp
  rw [← hc.flagsAgree_iff]
  have hfh : FixedHeader.Sound ⟨.connect, 0, p.remainingLength⟩ :=
    FixedHeader.Sound.withLength (m := 0) (by decide) (hc.length hw ▸ hw.length_body_lt)
  rw [← hc.header] at hfh
  obtain ⟨header, hheader, -, hread⟩ := hfh.exists_serialize
  have hbytes : p.serialize = .ok (header ++ p.body) := by
    rw [hw.serialize_eq, hheader]
    rfl
  constructor
  · rintro ⟨bytes, q, hs, hdecode, hq⟩
    obtain rfl := Except.ok.inj (hbytes.symm.trans hs)
    rw [readConnect, List.append_assoc, bind_apply_of_ok (hread _)] at hdecode
    -- The flags and the will flag that were read agree, and both are those written.
    have hwill := (decodedFrom_of_decodeConnect hdecode).willFlag
    rw [hq.willFlag, hq.connectFlags, hc.willBit] at hwill
    exact hc.flagsAgree_iff.2 hwill
  · intro h
    exact ⟨_, p.visible, hbytes, reads_bind hread (reads_decodeConnect hw h) tail,
      p.sameFields_visible⟩

/-- A user name and no will, before a PINGREQ. -/
theorem connect_reads_back_iff_username :
    ∃ p, mqttConnect (ascii ['M', 'Q', 'T', 'T']) 4 true false false 0 false true 60
      (ascii ['c']) [] [] (ascii ['u']) [] = .ok p ∧ p.ReadsBack [0xc0, 0x00] := by
  have hp : mqttConnect (ascii ['M', 'Q', 'T', 'T']) 4 true false false 0 false true 60
      (ascii ['c']) [] [] (ascii ['u']) [] = .ok _ := rfl
  refine ⟨_, hp, (connect_reads_back_iff hp ?_ _).2 rfl⟩
  exact ⟨⟨⟨['M', 'Q', 'T', 'T'], by decide, by decide⟩, by decide⟩,
    ⟨⟨['c'], by decide, by decide⟩, by decide⟩, ⟨⟨[], by decide, by decide⟩, by decide⟩,
    by decide, ⟨⟨['u'], by decide, by decide⟩, by decide⟩, by decide⟩

/-- A will that is published at QoS 0 and is not retained leaves no bit in the flags.
    Its topic and its message are left unread, and what is decoded has no will. -/
theorem connect_loses_will :
    ¬∀ (protocolName : Bytes) (protocolLevel : UInt8)
      (usernameFlag passwordFlag willRetain : Bool) (willQos : Nat)
      (willFlag cleanSession : Bool) (keepAlive : UInt16)
      (clientId willTopic willMessage username password tail : Bytes) (p : MqttConnect),
      mqttConnect protocolName protocolLevel usernameFlag passwordFlag willRetain willQos
        willFlag cleanSession keepAlive clientId willTopic willMessage username password = .ok p →
      p.Writable → p.ReadsBack tail := by
  intro h
  obtain ⟨bytes, q, hs, hread, -⟩ := h (ascii ['M']) 4 false false false 0 true true 60
    (ascii ['c']) (ascii ['t']) [1] [] [] [] _ rfl ⟨⟨⟨['M'], by decide, by decide⟩, by decide⟩,
      ⟨⟨['c'], by decide, by decide⟩, by decide⟩, ⟨⟨['t'], by decide, by decide⟩, by decide⟩,
      by decide, ⟨⟨[], by decide, by decide⟩, by decide⟩, by decide⟩
  have hbytes : bytes = [0x10, 0x10, 0x00, 0x01, 0x4d, 0x04, 0x02, 0x00, 0x3c, 0x00, 0x01, 0x63,
      0x00, 0x01, 0x74, 0x00, 0x01, 0x01] := (Except.ok.inj hs).symm
  subst hbytes
  -- The flags are `0x02`: six bytes of the will are left.
  cases hread

end MqttBroker
