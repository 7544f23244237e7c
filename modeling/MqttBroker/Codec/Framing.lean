import MqttBroker.Codec.Read

/-!
# Framing

A packet takes its fixed header and as many bytes as that announces
(`TakesPacket`), unless its body is laid out in another way than the decoder of
its type expects: the decoders read fields one after the other and do not
compare what they took with the remaining length. `Framed` is the layout of a
body for which they agree, type by type, and `takesPacket_iff_framed` the
equivalence, for every buffer.

* The acknowledgements, CONNACK, PINGREQ, PINGRESP and DISCONNECT read a fixed
  number of bytes, whatever was announced.
* CONNECT reads the fields its flags ask for.
* PUBLISH takes the length of the decoded topic name off the remaining length,
  SUBSCRIBE and UNSUBSCRIBE those of the decoded filters; a stray byte in a
  string is taken but not counted.
* SUBSCRIBE does not read the QoS of an invalid filter.
-/

namespace MqttBroker

open Reader

/-! ## Layouts -/

/-- The QoS in the flags of a PUBLISH. -/
def publishQos (flags : UInt8) : Nat := ((flags &&& 0x06) >>> 1).toNat

/-- A topic name without stray bytes, a packet id for the QoS 1 and 2, and a payload. -/
def PublishLayout (flags : UInt8) (body : Bytes) : Prop :=
  ∃ topic id payload, body = lengthPrefixed topic ++ (id ++ payload) ∧ topic.length ≤ 0xffff ∧
    strayFree 0 topic = true ∧
    id.length = if publishQos flags = 1 ∨ publishQos flags = 2 then 2 else 0

/-- A field under a flag. -/
def FieldIf (flag : Bool) (field : Bytes) : Prop :=
  if flag then ∃ s : Bytes, field = lengthPrefixed s ∧ s.length ≤ 0xffff else field = []

/-- The fields of a CONNECT, the optional ones under their flags. -/
def ConnectLayout (body : Bytes) : Prop :=
  ∃ protocolName level flags keepAlive₁ keepAlive₂ clientId willTopic willMessage username password,
    body = lengthPrefixed protocolName ++ (level :: flags :: keepAlive₁ :: keepAlive₂ ::
      (lengthPrefixed clientId ++ (willTopic ++ (willMessage ++ (username ++ password))))) ∧
    protocolName.length ≤ 0xffff ∧ clientId.length ≤ 0xffff ∧
    FieldIf (flags &&& 0x04 ≠ 0) willTopic ∧ FieldIf (flags &&& 0x04 ≠ 0) willMessage ∧
    FieldIf (flags &&& 0x80 ≠ 0) username ∧ FieldIf (flags &&& 0x40 ≠ 0) password

/-- Filters without stray bytes, each followed by as many bytes as `extra` says. -/
inductive FilterPayload (extra : Bytes → Nat) : Bytes → Prop
  | nil : FilterPayload extra []
  | cons {filter more s : Bytes} : filter.length ≤ 0xffff → strayFree 0 filter = true →
      more.length = extra filter → FilterPayload extra s →
      FilterPayload extra (lengthPrefixed filter ++ (more ++ s))

/-- A valid filter is followed by a QoS. -/
def qosBytes (filter : Bytes) : Nat := if (isTopicFilterValid filter).1 then 1 else 0

/-- A packet id, and filters. -/
def FiltersLayout (extra : Bytes → Nat) (body : Bytes) : Prop :=
  ∃ id payload : Bytes, body = id ++ payload ∧ id.length = 2 ∧ FilterPayload extra payload

/-- The bodies whose decoder takes exactly the remaining length. -/
def Framed (fh : FixedHeader) (body : Bytes) : Prop :=
  match fh.type with
  | .connack | .puback | .pubrec | .pubrel | .pubcomp | .unsuback => fh.remainingLength = 2
  | .pingreq | .pingresp | .disconnect => fh.remainingLength = 0
  | .suback => 2 ≤ fh.remainingLength
  | .connect => ConnectLayout body
  | .publish => PublishLayout fh.flags body
  | .subscribe => FiltersLayout qosBytes body
  | .unsubscribe => FiltersLayout (fun _ => 0) body
  | .unspecified _ => False

/-! ## Fixed reads -/

theorem decodeIdPacket_spec {fh : FixedHeader} {s r : Bytes} {p : IdPacket}
    (h : decodeIdPacket fh s = .ok (p, r)) : s.length = 2 + r.length := by
  obtain ⟨n, s₁, h1, h⟩ := bind_eq_ok h
  cases h
  rw [readUInt16_spec h1, List.length_cons, List.length_cons]
  omega

theorem decodeConnack_spec {fh : FixedHeader} {s r : Bytes} {p : MqttConnack}
    (h : decodeConnack fh s = .ok (p, r)) : s.length = 2 + r.length := by
  obtain ⟨b, s₁, h1, h⟩ := bind_eq_ok h
  obtain ⟨-, h⟩ := rejectIf_bind_eq_ok h
  obtain ⟨c, s₂, h2, h⟩ := bind_eq_ok h
  obtain ⟨-, h⟩ := rejectIf_bind_eq_ok h
  cases h
  rw [next_eq_ok h1, next_eq_ok h2, List.length_cons, List.length_cons]
  omega

theorem decodeSubackLoop_spec {count : Nat} {s r : Bytes} {codes : List Nat}
    (h : decodeSubackLoop count s = .ok (codes, r)) : s.length = count + r.length := by
  induction count generalizing s codes with
  | zero =>
    cases h
    exact (Nat.zero_add _).symm
  | succ count ih =>
    obtain ⟨c, s₁, h1, h⟩ := bind_eq_ok h
    obtain ⟨-, h⟩ := rejectIf_bind_eq_ok h
    obtain ⟨cs, s₂, h2, h⟩ := bind_eq_ok h
    cases h
    rw [next_eq_ok h1, List.length_cons, ih h2]
    omega

theorem decodeSuback_spec {fh : FixedHeader} {s r : Bytes} {p : MqttSuback}
    (h : decodeSuback fh s = .ok (p, r)) :
    s.length = fh.remainingLength + r.length ↔ 2 ≤ fh.remainingLength := by
  obtain ⟨n, s₁, h1, h⟩ := bind_eq_ok h
  obtain ⟨cs, s₂, h2, h⟩ := bind_eq_ok h
  cases h
  rw [readUInt16_spec h1, List.length_cons, List.length_cons, decodeSubackLoop_spec h2]
  omega

/-! ## PUBLISH -/

theorem readIf_spec {α : Type} {flag : Bool} {m : PacketReader α} {default a : α} {s r : Bytes}
    (h : readIf flag m default s = .ok (a, r)) :
    (flag = true ∧ m s = .ok (a, r)) ∨ (flag = false ∧ a = default ∧ s = r) := by
  cases flag with
  | true => exact .inl ⟨rfl, h⟩
  | false =>
    cases h
    exact .inr ⟨rfl, rfl, rfl⟩

theorem readIf_readUInt16_spec {flag : Bool} {n m : UInt16} {s r : Bytes}
    (h : readIf flag readUInt16 m s = .ok (n, r)) :
    ∃ id : Bytes, s = id ++ r ∧ id.length = if flag then 2 else 0 := by
  rcases readIf_spec h with ⟨rfl, h⟩ | ⟨rfl, -, rfl⟩
  · exact ⟨[_, _], readUInt16_spec h, by simp⟩
  · exact ⟨[], rfl, by simp⟩

/-- The first bytes of a concatenation are those of its beginning. -/
theorem take_append_eq {u v s : Bytes} {n : Nat} (h : s = u ++ v) (hn : u.length = n) :
    s.take n = u := by
  rw [h, ← hn, List.take_left]

/-- What the decoder of a PUBLISH goes through when it returns `p`, and leaves `r` of
    the bytes `s`. -/
structure MqttPublish.DecodedFrom (p : MqttPublish) (fh : FixedHeader) (s r : Bytes) : Prop where
  header : p.toFixedHeader = fh
  dup : p.dup = decide (fh.flags &&& 0x08 ≠ 0)
  qos : p.qos = publishQos fh.flags
  validDup : ¬(p.qos = 0 ∧ p.dup = true)
  validQos : p.qos < 3
  nonempty : p.topicName ≠ []
  notSys : p.topicName.head? ≠ some dollar
  notWild : ¬(hash ∈ p.topicName ∨ plus ∈ p.topicName)
  name : ∃ t, decodeString s = .ok (p.topicName, t) ∧
    readIf (decide (p.qos = 1 ∨ p.qos = 2)) readUInt16 0 t = .ok (p.packetId, p.payload ++ r)
  length : p.payload.length = (fh.remainingLength + (2 ^ 64 - (p.topicName.length + 2 +
    if p.qos = 1 ∨ p.qos = 2 then 2 else 0) % 2 ^ 64)) % 2 ^ 64

/-- The QoS of a PUBLISH is a field of two bits. -/
theorem publishQos_lt (flags : UInt8) : publishQos flags < 4 := by
  have hle : flags.toNat &&& 6 ≤ 6 := Nat.and_le_right
  rw [publishQos, UInt8.toNat_shiftRight, UInt8.toNat_and]
  simp only [UInt8.reduceToNat, Nat.shiftRight_eq_div_pow, Nat.reduceMod]
  omega

theorem decodedFrom_of_decodePublish {fh : FixedHeader} {s r : Bytes} {p : MqttPublish}
    (h : decodePublish fh s = .ok (p, r)) : p.DecodedFrom fh s r := by
  obtain ⟨hdup, h⟩ := rejectIf_bind_eq_ok h
  obtain ⟨hqos, h⟩ := rejectIf_bind_eq_ok h
  obtain ⟨topic, s₁, h1, h⟩ := bind_eq_ok h
  obtain ⟨hne, h⟩ := rejectIf_bind_eq_ok h
  obtain ⟨hsys, h⟩ := rejectIf_bind_eq_ok h
  obtain ⟨hwild, h⟩ := rejectIf_bind_eq_ok h
  obtain ⟨n, s₂, h2, h⟩ := bind_eq_ok h
  rw [size_bind_apply] at h
  obtain ⟨-, h⟩ := rejectIf_bind_eq_ok h
  obtain ⟨payload, s₃, h3, h⟩ := bind_eq_ok h
  cases h
  obtain ⟨rfl, hlen⟩ := take_eq_ok h3
  have hlt := publishQos_lt fh.flags
  refine ⟨rfl, rfl, rfl, hdup, ?_, hne, hsys, hwild, ⟨s₁, h1, h2⟩, ?_⟩
  · have hne3 : publishQos fh.flags ≠ 3 := hqos
    show publishQos fh.flags < 3
    omega
  · rw [hlen]
    simp only [decide_eq_true_eq]

/-- What a PUBLISH is decoded from: a topic name, an id and a payload, whose
    length is what the decoded name leaves of the remaining length. -/
theorem decodePublish_spec {fh : FixedHeader} {s r : Bytes} {p : MqttPublish}
    (h : decodePublish fh s = .ok (p, r)) :
    ∃ u id : Bytes, s = lengthPrefixed u ++ (id ++ (p.payload ++ r)) ∧ u.length ≤ 0xffff ∧
      p.topicName.length ≤ u.length ∧
      (strayFree 0 u = true ↔ p.topicName.length = u.length) ∧
      id.length = (if publishQos fh.flags = 1 ∨ publishQos fh.flags = 2 then 2 else 0) ∧
      p.payload.length = (fh.remainingLength +
        (2 ^ 64 - (p.topicName.length + 2 + id.length) % 2 ^ 64)) % 2 ^ 64 := by
  have hp := decodedFrom_of_decodePublish h
  obtain ⟨t, hname, hread⟩ := hp.name
  obtain ⟨u, rfl, hu, hle, hstray, -⟩ := decodeString_spec hname
  obtain ⟨id, rfl, hid⟩ := readIf_readUInt16_spec hread
  have hidlen : id.length = if p.qos = 1 ∨ p.qos = 2 then 2 else 0 :=
    hid.trans (if_congr decide_eq_true_iff rfl rfl)
  refine ⟨u, id, rfl, hu, hle, hstray, ?_, ?_⟩
  · rw [hidlen, hp.qos]
  · rw [hidlen]
    exact hp.length

/-- The payload is what the name and the id leave of the remaining length: a length
    that wrapped around is more than a buffer holds. -/
theorem decodePublish_length {fh : FixedHeader} (hrl : fh.remainingLength < 2 ^ 32) {s r : Bytes}
    (hs : s.length < 2 ^ 64) {p : MqttPublish} (h : decodePublish fh s = .ok (p, r)) :
    p.topicName.length + 2 + (if p.qos = 1 ∨ p.qos = 2 then 2 else 0) + p.payload.length =
      fh.remainingLength := by
  obtain ⟨u, id, rfl, hu, hle, -, hid, hpay⟩ := decodePublish_spec h
  have hid2 : id.length ≤ 2 := by
    rw [hid]
    split_ifs <;> decide
  rw [(decodedFrom_of_decodePublish h).qos, ← hid]
  simp only [List.length_append, length_lengthPrefixed] at hs
  omega

theorem decodePublish_framed {fh : FixedHeader} (hrl : fh.remainingLength < 2 ^ 21)
    {s r : Bytes} (hs : fh.remainingLength ≤ s.length) {p : MqttPublish}
    (h : decodePublish fh s = .ok (p, r)) :
    s.length = fh.remainingLength + r.length ↔
      PublishLayout fh.flags (s.take fh.remainingLength) := by
  obtain ⟨u, id, rfl, hu, hle, hstray, hid, hpay⟩ := decodePublish_spec h
  have hid2 : id.length ≤ 2 := by
    rw [hid]
    split_ifs <;> decide
  constructor
  · intro hex
    simp only [List.length_append, length_lengthPrefixed] at hex
    have hfit : p.topicName.length = u.length := by omega
    have hsize : (lengthPrefixed u ++ (id ++ p.payload)).length = fh.remainingLength := by
      simp only [List.length_append, length_lengthPrefixed]
      omega
    refine ⟨u, id, p.payload, take_append_eq (v := r) ?_ hsize, hu, hstray.2 hfit, hid⟩
    rw [List.append_assoc, List.append_assoc]
  · rintro ⟨t, id₂, payload₂, hb, ht, hts, hid₂⟩
    -- The layout starts with the same length prefix, hence with the same name.
    have hsplit := List.take_append_drop fh.remainingLength
      (lengthPrefixed u ++ (id ++ (p.payload ++ r)))
    rw [hb, List.append_assoc] at hsplit
    obtain ⟨rfl, -⟩ := lengthPrefixed_append_inj ht hu hsplit
    have hlen₂ := congrArg List.length hb
    rw [List.length_take, Nat.min_eq_left hs] at hlen₂
    simp only [List.length_append, length_lengthPrefixed] at hlen₂ ⊢
    have hname := hstray.1 hts
    omega

/-! ## CONNECT -/

theorem readIf_field_spec {flag : Bool} {m : PacketReader Bytes} {s r a : Bytes}
    (hm : ∀ {s r a : Bytes}, m s = .ok (a, r) →
      ∃ u, s = lengthPrefixed u ++ r ∧ u.length ≤ 0xffff)
    (h : readIf flag m [] s = .ok (a, r)) : ∃ f, s = f ++ r ∧ FieldIf flag f := by
  rcases readIf_spec h with ⟨rfl, h⟩ | ⟨rfl, -, rfl⟩
  · obtain ⟨u, rfl, hu⟩ := hm h
    exact ⟨lengthPrefixed u, rfl, u, rfl, hu⟩
  · exact ⟨[], rfl, rfl⟩

theorem decodeString_field {s r a : Bytes} (h : decodeString s = .ok (a, r)) :
    ∃ u, s = lengthPrefixed u ++ r ∧ u.length ≤ 0xffff := by
  obtain ⟨u, hs, hu, -⟩ := decodeString_spec h
  exact ⟨u, hs, hu⟩

theorem decodeBinary_field {s r a : Bytes} (h : decodeBinary s = .ok (a, r)) :
    ∃ u, s = lengthPrefixed u ++ r ∧ u.length ≤ 0xffff :=
  ⟨a, decodeBinary_spec h⟩

/-- What the decoder of a CONNECT goes through when it returns `p`, and leaves `r` of
    the bytes `s`. -/
structure MqttConnect.DecodedFrom (p : MqttConnect) (s r : Bytes) : Prop where
  usernameFlag : p.usernameFlag = decide (p.connectFlags &&& 0x80 ≠ 0)
  passwordFlag : p.passwordFlag = decide (p.connectFlags &&& 0x40 ≠ 0)
  willFlag : p.willFlag = decide (p.connectFlags &&& 0x04 ≠ 0)
  validQos : p.willQos < 3
  fields : ∃ s₁ s₂ s₃ s₄ s₅ s₆,
    decodeString s = .ok (p.protocolName, p.protocolLevel :: p.connectFlags :: s₁) ∧
    readUInt16 s₁ = .ok (p.keepAlive, s₂) ∧ decodeString s₂ = .ok (p.clientId, s₃) ∧
    readIf p.willFlag decodeString [] s₃ = .ok (p.willTopic, s₄) ∧
    readIf p.willFlag decodeBinary [] s₄ = .ok (p.willMessage, s₅) ∧
    readIf p.usernameFlag decodeString [] s₅ = .ok (p.username, s₆) ∧
    readIf p.passwordFlag decodeBinary [] s₆ = .ok (p.password, r)

theorem decodedFrom_of_decodeConnect {fh : FixedHeader} {s r : Bytes} {p : MqttConnect}
    (h : decodeConnect fh s = .ok (p, r)) : p.DecodedFrom s r := by
  obtain ⟨name, s₁, h1, h⟩ := bind_eq_ok h
  obtain ⟨level, s₂, h2, h⟩ := bind_eq_ok h
  obtain ⟨flags, s₃, h3, h⟩ := bind_eq_ok h
  obtain ⟨-, h⟩ := rejectIf_bind_eq_ok h
  obtain ⟨-, h⟩ := rejectIf_bind_eq_ok h
  obtain ⟨hqos, h⟩ := rejectIf_bind_eq_ok h
  obtain ⟨ka, s₄, h4, h⟩ := bind_eq_ok h
  obtain ⟨clientId, s₅, h5, h⟩ := bind_eq_ok h
  obtain ⟨willTopic, s₆, h6, h⟩ := bind_eq_ok h
  obtain ⟨willMessage, s₇, h7, h⟩ := bind_eq_ok h
  obtain ⟨username, s₈, h8, h⟩ := bind_eq_ok h
  obtain ⟨password, s₉, h9, h⟩ := bind_eq_ok h
  cases h
  obtain rfl := next_eq_ok h2
  obtain rfl := next_eq_ok h3
  exact ⟨rfl, rfl, rfl, Nat.lt_of_not_le hqos, s₃, s₄, s₅, s₆, s₇, s₈, h1, h4, h5, h6, h7, h8, h9⟩

/-- What a CONNECT is decoded from. -/
theorem decodeConnect_spec {fh : FixedHeader} {s r : Bytes} {p : MqttConnect}
    (h : decodeConnect fh s = .ok (p, r)) : ∃ body, s = body ++ r ∧ ConnectLayout body := by
  have hp := decodedFrom_of_decodeConnect h
  obtain ⟨s₁, s₂, s₃, s₄, s₅, s₆, h1, h2, h3, h4, h5, h6, h7⟩ := hp.fields
  rw [hp.willFlag] at h4 h5
  rw [hp.usernameFlag] at h6
  rw [hp.passwordFlag] at h7
  obtain ⟨name, rfl, hname⟩ := decodeString_field h1
  obtain rfl := readUInt16_spec h2
  obtain ⟨clientId, rfl, hid⟩ := decodeString_field h3
  obtain ⟨willTopic, rfl, ht⟩ := readIf_field_spec decodeString_field h4
  obtain ⟨willMessage, rfl, hm⟩ := readIf_field_spec decodeBinary_field h5
  obtain ⟨username, rfl, hu⟩ := readIf_field_spec decodeString_field h6
  obtain ⟨password, rfl, hpass⟩ := readIf_field_spec decodeBinary_field h7
  refine ⟨_, ?_, name, p.protocolLevel, p.connectFlags, UInt8.ofNat (p.keepAlive.toNat / 256),
    UInt8.ofNat p.keepAlive.toNat, clientId, willTopic, willMessage, username, password, rfl,
    hname, hid, ht, hm, hu, hpass⟩
  simp only [List.append_assoc, List.cons_append]

theorem FieldIf.append_inj {flag : Bool} {f g r t : Bytes} (hf : FieldIf flag f)
    (hg : FieldIf flag g) (h : f ++ r = g ++ t) : f = g ∧ r = t := by
  cases flag with
  | false =>
    obtain rfl : f = [] := hf
    obtain rfl : g = [] := hg
    exact ⟨rfl, h⟩
  | true =>
    obtain ⟨u, rfl, hu⟩ := hf
    obtain ⟨v, rfl, hv⟩ := hg
    obtain ⟨rfl, rfl⟩ := lengthPrefixed_append_inj hu hv h
    exact ⟨rfl, rfl⟩

/-- Of two layouts of a CONNECT at the head of the same bytes, both are the same. -/
theorem ConnectLayout.unique {b c r t : Bytes} (hb : ConnectLayout b) (hc : ConnectLayout c)
    (h : b ++ r = c ++ t) : b = c := by
  obtain ⟨n, l, fl, k₁, k₂, i, w, m, u, p, rfl, hn, hi, hw, hm, hu, hp⟩ := hb
  obtain ⟨n', l', fl', k₁', k₂', i', w', m', u', p', rfl, hn', hi', hw', hm', hu', hp'⟩ := hc
  simp only [List.append_assoc, List.cons_append] at h
  obtain ⟨rfl, h₁⟩ := lengthPrefixed_append_inj hn hn' h
  simp only [List.cons.injEq] at h₁
  obtain ⟨rfl, rfl, rfl, rfl, h₂⟩ := h₁
  obtain ⟨rfl, h₃⟩ := lengthPrefixed_append_inj hi hi' h₂
  obtain ⟨rfl, h₄⟩ := hw.append_inj hw' h₃
  obtain ⟨rfl, h₅⟩ := hm.append_inj hm' h₄
  obtain ⟨rfl, h₆⟩ := hu.append_inj hu' h₅
  obtain ⟨rfl, -⟩ := hp.append_inj hp' h₆
  rfl

/-- The bytes taken from the front of a buffer are `n` bytes exactly when its
    first `n` bytes have the layout of what was taken. -/
theorem taken_iff {P : Bytes → Prop} {s b r : Bytes} {n : Nat} (hs : s = b ++ r)
    (hn : n ≤ s.length) (hb : b.length = n → P b)
    (hu : ∀ c t, s = c ++ t → P c → c.length = n → c = b) :
    s.length = n + r.length ↔ P (s.take n) := by
  constructor
  · intro h
    have hbn : b.length = n := by
      rw [hs, List.length_append] at h
      omega
    rw [take_append_eq hs hbn]
    exact hb hbn
  · intro h
    have hl : (s.take n).length = n := by rw [List.length_take, Nat.min_eq_left hn]
    have hbn := hu _ _ (List.take_append_drop n s).symm h hl
    rw [hbn] at hl
    rw [hs, List.length_append, hl]

/-! ## SUBSCRIBE and UNSUBSCRIBE -/

/-- The bytes `v` taken from `v ++ r` are `remain` bytes at least, and `remain`
    bytes exactly when so many bytes are laid out as filters. -/
def Agrees (extra : Bytes → Nat) (remain : Int) (v r : Bytes) : Prop :=
  remain ≤ v.length ∧ ((v.length : Int) = remain → FilterPayload extra v) ∧
    ∀ w t, v ++ r = w ++ t → FilterPayload extra w → (w.length : Int) = remain → w = v

theorem agrees_nil {extra : Bytes → Nat} {remain : Int} (h : remain ≤ 0) (r : Bytes) :
    Agrees extra remain [] r := by
  refine ⟨by simpa using h, fun _ => .nil, fun w t _ _ hl => ?_⟩
  exact List.length_eq_zero_iff.1 (by omega)

/-- Taking one filter keeps the count: it takes off as many bytes as it read,
    unless the filter was shortened by its stray bytes. -/
theorem agrees_cons {extra : Bytes → Nat} {remain : Int} (hpos : 0 < remain)
    {u a more v r : Bytes} (hu : u.length ≤ 0xffff) (hle : a.length ≤ u.length)
    (hstray : strayFree 0 u = true ↔ a.length = u.length)
    (heq : strayFree 0 u = true → a = u) (hmore : more.length = extra a)
    (h : Agrees extra (remain - (a.length + 2 : Nat) - extra a) v r) :
    Agrees extra remain (lengthPrefixed u ++ (more ++ v)) r := by
  obtain ⟨h1, h2, h3⟩ := h
  refine ⟨?_, ?_, ?_⟩
  · simp only [List.length_append, length_lengthPrefixed]
    omega
  · intro hl
    simp only [List.length_append, length_lengthPrefixed] at hl
    have hfit : a.length = u.length := by omega
    obtain rfl := heq (hstray.2 hfit)
    exact .cons hu (hstray.2 rfl) hmore (h2 (by omega))
  · intro w t hw hp hl
    cases hp with
    | nil => simp at hl; omega
    | @cons f m s hf hs hm hp =>
      simp only [List.append_assoc] at hw
      obtain ⟨rfl, hw₁⟩ := lengthPrefixed_append_inj hu hf hw
      obtain rfl := heq hs
      obtain ⟨rfl, hw₂⟩ := List.append_inj hw₁ (hmore.trans hm.symm)
      simp only [List.length_append, length_lengthPrefixed] at hl
      rw [h3 s t hw₂ hp (by omega)]

theorem decodeSubscribeLoop_spec {fuel : Nat} {remain : Int} (hf : remain ≤ fuel) {s r : Bytes}
    {es : List SubscribeEntry} (h : decodeSubscribeLoop fuel remain s = .ok (es, r)) :
    ∃ v, s = v ++ r ∧ Agrees qosBytes remain v r := by
  induction fuel generalizing remain s es with
  | zero =>
    cases h
    exact ⟨[], rfl, agrees_nil (by simpa using hf) _⟩
  | succ fuel ih =>
    rw [decodeSubscribeLoop] at h
    split_ifs at h with hr
    · cases h
      exact ⟨[], rfl, agrees_nil hr _⟩
    obtain ⟨a, s₁, h1, h⟩ := bind_eq_ok h
    obtain ⟨-, h⟩ := rejectIf_bind_eq_ok h
    obtain ⟨u, hs, hu, hle, hstray, heq⟩ := decodeString_spec h1
    dsimp only at h
    split_ifs at h with hv
    · obtain ⟨q, s₂, h2, h⟩ := bind_eq_ok h
      obtain ⟨-, h⟩ := rejectIf_bind_eq_ok h
      obtain ⟨es', s₃, h3, h⟩ := bind_eq_ok h
      cases h
      obtain rfl := next_eq_ok h2
      obtain ⟨v, rfl, ha⟩ := ih (by omega) h3
      have he : qosBytes a = 1 := if_pos hv
      refine ⟨lengthPrefixed u ++ ([q] ++ v), by simp [hs], ?_⟩
      exact agrees_cons (by omega) hu hle hstray heq he.symm (by rw [he]; exact ha)
    · obtain ⟨es', s₃, h3, h⟩ := bind_eq_ok h
      cases h
      obtain ⟨v, rfl, ha⟩ := ih (by omega) h3
      have he : qosBytes a = 0 := if_neg hv
      refine ⟨lengthPrefixed u ++ ([] ++ v), by simp [hs], ?_⟩
      exact agrees_cons (by omega) hu hle hstray heq he.symm (by rw [he]; simpa using ha)

theorem decodeUnsubscribeLoop_spec {fuel : Nat} {remain : Int} (hf : remain ≤ fuel) {s r : Bytes}
    {es : List UnsubscribeEntry} (h : decodeUnsubscribeLoop fuel remain s = .ok (es, r)) :
    ∃ v, s = v ++ r ∧ Agrees (fun _ => 0) remain v r := by
  induction fuel generalizing remain s es with
  | zero =>
    cases h
    exact ⟨[], rfl, agrees_nil (by simpa using hf) _⟩
  | succ fuel ih =>
    rw [decodeUnsubscribeLoop] at h
    split_ifs at h with hr
    · cases h
      exact ⟨[], rfl, agrees_nil hr _⟩
    obtain ⟨a, s₁, h1, h⟩ := bind_eq_ok h
    obtain ⟨-, h⟩ := rejectIf_bind_eq_ok h
    obtain ⟨es', s₃, h3, h⟩ := bind_eq_ok h
    cases h
    obtain ⟨u, rfl, hu, hle, hstray, heq⟩ := decodeString_spec h1
    obtain ⟨v, rfl, ha⟩ := ih (by omega) h3
    refine ⟨lengthPrefixed u ++ ([] ++ v), by simp, ?_⟩
    exact agrees_cons (by omega) hu hle hstray heq rfl (by simpa using ha)

/-- A packet id and filters take the remaining length exactly when it has their
    layout. -/
theorem filters_framed {extra : Bytes → Nat} {n : Nat} {i v r : Bytes} (hi : i.length = 2)
    (hn : n ≤ (i ++ (v ++ r)).length) (h : Agrees extra (n - 2) v r) :
    (i ++ (v ++ r)).length = n + r.length ↔ FiltersLayout extra ((i ++ (v ++ r)).take n) := by
  obtain ⟨-, h2, h3⟩ := h
  refine taken_iff (b := i ++ v) (List.append_assoc _ _ _).symm hn (fun hl => ?_) ?_
  · rw [List.length_append] at hl
    exact ⟨i, v, rfl, hi, h2 (by omega)⟩
  · rintro c t hc ⟨j, w, rfl, hj, hw⟩ hl
    rw [List.append_assoc] at hc
    obtain ⟨rfl, hv⟩ := List.append_inj hc (hi.trans hj.symm)
    rw [List.length_append] at hl
    rw [h3 w t hv hw (by omega)]

theorem decodeSubscribe_framed {fh : FixedHeader} {s r : Bytes}
    (hs : fh.remainingLength ≤ s.length) {p : MqttSubscribe}
    (h : decodeSubscribe fh s = .ok (p, r)) :
    s.length = fh.remainingLength + r.length ↔
      FiltersLayout qosBytes (s.take fh.remainingLength) := by
  obtain ⟨n, s₁, h1, h⟩ := bind_eq_ok h
  obtain ⟨es, s₂, h2, h⟩ := bind_eq_ok h
  obtain ⟨-, h⟩ := rejectIf_bind_eq_ok h
  cases h
  obtain rfl := readUInt16_spec h1
  obtain ⟨v, rfl, hv⟩ := decodeSubscribeLoop_spec (by omega) h2
  exact filters_framed (i := [_, _]) rfl hs hv

theorem decodeUnsubscribe_framed {fh : FixedHeader} {s r : Bytes}
    (hs : fh.remainingLength ≤ s.length) {p : MqttUnsubscribe}
    (h : decodeUnsubscribe fh s = .ok (p, r)) :
    s.length = fh.remainingLength + r.length ↔
      FiltersLayout (fun _ => 0) (s.take fh.remainingLength) := by
  obtain ⟨n, s₁, h1, h⟩ := bind_eq_ok h
  obtain ⟨es, s₂, h2, h⟩ := bind_eq_ok h
  obtain ⟨-, h⟩ := rejectIf_bind_eq_ok h
  cases h
  obtain rfl := readUInt16_spec h1
  obtain ⟨v, rfl, hv⟩ := decodeUnsubscribeLoop_spec (by omega) h2
  exact filters_framed (i := [_, _]) rfl hs hv

/-! ## Every packet type -/

/-- A body of any type takes the remaining length exactly when it is framed. -/
theorem decodeBody_framed {fh : FixedHeader} (hrl : fh.remainingLength < 2 ^ 21) {s r : Bytes}
    (hs : fh.remainingLength ≤ s.length) {p : Packet} (h : decodeBody fh s = .ok (some p, r)) :
    s.length = fh.remainingLength + r.length ↔ Framed fh (s.take fh.remainingLength) := by
  rw [decodeBody] at h
  rw [Framed]
  have fixed : ∀ {n : Nat}, s.length = n + r.length →
      (s.length = fh.remainingLength + r.length ↔ fh.remainingLength = n) := fun hl => by omega
  cases ht : fh.type <;> simp only [ht] at h ⊢
  case connect =>
    obtain ⟨q, s₁, h1, h⟩ := bind_eq_ok h
    cases h
    obtain ⟨b, hb, hl⟩ := decodeConnect_spec h1
    exact taken_iff hb hs (fun _ => hl) fun c t hc hc' _ => hc'.unique hl (hc.symm.trans hb)
  case connack =>
    obtain ⟨q, s₁, h1, h⟩ := bind_eq_ok h
    cases h
    exact fixed (decodeConnack_spec h1)
  case publish =>
    obtain ⟨q, s₁, h1, h⟩ := bind_eq_ok h
    cases h
    exact decodePublish_framed hrl hs h1
  case subscribe =>
    obtain ⟨q, s₁, h1, h⟩ := bind_eq_ok h
    cases h
    exact decodeSubscribe_framed hs h1
  case suback =>
    obtain ⟨q, s₁, h1, h⟩ := bind_eq_ok h
    cases h
    exact decodeSuback_spec h1
  case unsubscribe =>
    obtain ⟨q, s₁, h1, h⟩ := bind_eq_ok h
    cases h
    exact decodeUnsubscribe_framed hs h1
  case puback | pubrec | pubrel | pubcomp | unsuback =>
    obtain ⟨q, s₁, h1, h⟩ := bind_eq_ok h
    cases h
    exact fixed (decodeIdPacket_spec h1)
  case pingreq | pingresp | disconnect =>
    cases h
    exact fixed (Nat.zero_add _).symm
  case unspecified => cases h

/-- Of the buffer `sb`, exactly the fixed header and as many bytes as it
    announces are consumed when `rest` is left. -/
def TakesPacket (sb rest : Bytes) : Prop :=
  ∃ fh body, decodeFixedHeader sb = .ok (fh, body) ∧ fh.remainingLength ≤ body.length ∧
    rest = body.drop fh.remainingLength

/-- The packet at the head of the buffer `sb` is framed. -/
def FramedAt (sb : Bytes) : Prop :=
  ∃ fh body, decodeFixedHeader sb = .ok (fh, body) ∧ Framed fh (body.take fh.remainingLength)

/-- `channel_read` takes the bytes of the packet it returns, no less and no
    more, exactly when the body is framed as its decoder reads it. -/
theorem takesPacket_iff_framedAt {sb rest : Bytes} {p : Packet}
    (h : channelRead sb = .packet p rest) : TakesPacket sb rest ↔ FramedAt sb := by
  obtain ⟨_, fh, body, hfh, hl, hb⟩ := channelRead_eq_packet.1 h
  obtain ⟨_, s, _, _, _, _, hrl⟩ := decodeFixedHeader_eq_ok hfh
  have hframed := decodeBody_framed (decodeRemainingLength_spec hrl).2 hl hb
  obtain ⟨v, rfl, -⟩ := local_decodeBody fh body _ rest hb
  constructor
  · rintro ⟨fh', body', hfh', -, hr⟩
    obtain ⟨rfl, rfl⟩ : fh = fh' ∧ v ++ rest = body' := by simpa [hfh] using hfh'
    refine ⟨fh, v ++ rest, hfh, hframed.1 ?_⟩
    have := congrArg List.length hr
    rw [List.length_drop] at this
    omega
  · rintro ⟨fh', body', hfh', hr⟩
    obtain ⟨rfl, rfl⟩ : fh = fh' ∧ v ++ rest = body' := by simpa [hfh] using hfh'
    refine ⟨fh, v ++ rest, hfh, hl, ?_⟩
    have hlen := hframed.2 hr
    rw [List.length_append] at hlen
    rw [show fh.remainingLength = v.length by omega, List.drop_left]

/-- A PUBLISH of QoS 1 with the topic name `a`, and what follows it. -/
theorem takesPacket_publish :
    TakesPacket [0x32, 0x06, 0x00, 0x01, 0x61, 0x00, 0x07, 0x78, 0x30, 0x00] [0x30, 0x00] :=
  (takesPacket_iff_framedAt
    (p := .publish ⟨⟨.publish, 0x02, 6⟩, false, 1, false, [0x61], 7, [0x78]⟩) rfl).2
    ⟨⟨.publish, 0x02, 6⟩, [0x00, 0x01, 0x61, 0x00, 0x07, 0x78, 0x30, 0x00], rfl,
      [0x61], [0x00, 0x07], [0x78], rfl, by decide, by decide, by decide⟩

/-- A PUBACK announcing three bytes: its decoder takes two, and leaves the third
    to be read as the next fixed header. -/
theorem puback_leaves_byte : ¬∀ sb p rest, channelRead sb = .packet p rest →
    TakesPacket sb rest := by
  intro h
  obtain ⟨fh, body, hfh, -, hr⟩ := h [0x40, 0x03, 0x00, 0x01, 0xe0]
    (.puback ⟨⟨.puback, 0, 3⟩, 1⟩) [0xe0] rfl
  cases hfh
  cases hr

end MqttBroker
