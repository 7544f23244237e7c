import MqttBroker.Codec.Chunking
import MqttBroker.Codec.Decoded
import MqttBroker.Codec.Write

/-!
# Packets written and read back

The packets the broker makes to write them (`Outgoing`), by the constructors it
makes them with. Each is read back: its `serialize` writes the fixed header and
as many bytes as that announces, and from these bytes `channel_read` makes the
same packet, whatever follows them (`outgoing_reads_back`).

For a forwarded PUBLISH it matters that its topic name was decoded before: a
string that was decoded has no stray bytes any more, so that it is decoded from
its own bytes, and it is no longer than what it was decoded from.
-/

namespace MqttBroker

open Reader

/-! ## Reading what was written -/

theorem reads_readUInt8 (b : UInt8) : Reads readUInt8 [b] b := reads_next _ b

theorem reads_readUInt16 (n : UInt16) : Reads readUInt16 (writeUInt16 n) n := by
  have hn := n.toNat_lt
  refine reads_bind (reads_readUInt8 _) (v := [UInt8.ofNat n.toNat]) ?_
  refine reads_bind (reads_readUInt8 _) (v := []) ?_
  intro t
  have hval : UInt16.ofNat ((UInt8.ofNat (n.toNat / 256)).toNat * 256 +
      (UInt8.ofNat n.toNat).toNat) = n := by
    rw [← UInt16.toNat_inj, UInt16.toNat_ofNat', UInt8.toNat_ofNat', UInt8.toNat_ofNat']
    omega
  rw [hval]
  rfl

theorem reads_rejectIf_bind {α : Type} {c : Prop} [Decidable c] {what : String}
    {k : Unit → PacketReader α} {u : Bytes} {a : α} (hc : ¬c) (hk : Reads (k ()) u a) :
    Reads (rejectIf c what >>= k) u a := by
  intro t
  rw [rejectIf_bind_of_not hc]
  exact hk t

/-- Seven bits are read back from a byte with the continuation bit. -/
theorem continued_byte : ∀ n < 0x80, ((UInt8.ofNat n ||| 0x80) &&& 0x7f).toNat = n ∧
    (UInt8.ofNat n ||| 0x80) &&& 0x80 ≠ 0 := by
  decide

/-- Seven bits are read back from a byte without the continuation bit. -/
theorem last_byte : ∀ n < 0x80, (UInt8.ofNat n &&& 0x7f).toNat = n ∧
    UInt8.ofNat n &&& 0x80 = 0 := by
  decide

/-- Both loops go through the same seven bits in a round; the decoder stops at
    the third. -/
theorem reads_decodeRemainingLengthLoop {k length shift : Nat} (acc : Nat)
    (hl : length < 2 ^ (7 * (k + 1))) (hs : shift + 7 * (k + 1) = 21) :
    Reads (decodeRemainingLengthLoop (k + 2) acc shift) (encodeRemainingLengthLoop (k + 2) length)
      (acc + length * 2 ^ shift) := by
  induction k generalizing length shift acc with
  | zero =>
    have hlt : length < 0x80 := hl
    obtain ⟨hval, hlast⟩ := last_byte length hlt
    have hmod : length % 0x80 = length := Nat.mod_eq_of_lt hlt
    have hdiv : ¬0 < length >>> 7 := by
      rw [Nat.shiftRight_eq_div_pow]
      omega
    rw [encodeRemainingLengthLoop, if_neg hdiv, hmod]
    refine reads_bind (reads_readUInt8 _) (v := []) (reads_rejectIf_bind (by omega) ?_)
    rw [if_neg (by simp [hlast]), hval, Nat.shiftLeft_eq]
    exact reads_pure _
  | succ k ih =>
    have hshift : length >>> 7 = length / 0x80 := Nat.shiftRight_eq_div_pow _ _
    have hmod : length % 0x80 < 0x80 := Nat.mod_lt _ (by decide)
    rw [encodeRemainingLengthLoop]
    split_ifs with hmore
    · -- The rest of the length is read seven bits higher.
      obtain ⟨hval, hcont⟩ := continued_byte _ hmod
      refine reads_bind_cons (reads_readUInt8 _) (reads_rejectIf_bind (by omega) ?_)
      rw [if_pos hcont, hval, Nat.shiftLeft_eq, hshift]
      have hl' : length / 0x80 < 2 ^ (7 * (k + 1)) := by
        rw [Nat.div_lt_iff_lt_mul (by decide)]
        calc length < 2 ^ (7 * (k + 1 + 1)) := hl
          _ = 2 ^ (7 * (k + 1)) * 0x80 := by rw [Nat.mul_succ, Nat.pow_add]
      have hsum : acc + length % 0x80 * 2 ^ shift + length / 0x80 * 2 ^ (shift + 7) =
          acc + length * 2 ^ shift := by
        rw [Nat.pow_add, Nat.add_assoc]
        congr 1
        calc length % 0x80 * 2 ^ shift + length / 0x80 * (2 ^ shift * 2 ^ 7)
            = (2 ^ 7 * (length / 0x80) + length % 0x80) * 2 ^ shift := by
              rw [Nat.mul_comm (2 ^ shift), ← Nat.mul_assoc, Nat.mul_comm _ (2 ^ 7), Nat.add_comm,
                ← Nat.add_mul]
          _ = length * 2 ^ shift := congrArg (· * 2 ^ shift) (Nat.div_add_mod _ _)
      rw [← hsum]
      exact ih _ hl' (by omega)
    · -- The last byte comes early.
      obtain ⟨hval, hlast⟩ := last_byte _ hmod
      have hlen : length % 0x80 = length := by
        rw [hshift] at hmore
        omega
      refine reads_bind (reads_readUInt8 _) (v := []) (reads_rejectIf_bind (by omega) ?_)
      rw [if_neg (by simp [hlast]), hval, hlen, Nat.shiftLeft_eq]
      exact reads_pure _

theorem length_encodeRemainingLengthLoop_le (fuel length : Nat) :
    (encodeRemainingLengthLoop fuel length).length ≤ fuel := by
  induction fuel generalizing length with
  | zero => exact Nat.le_refl _
  | succ fuel ih =>
    rw [encodeRemainingLengthLoop]
    split_ifs
    · exact Nat.succ_le_succ (ih _)
    · exact Nat.succ_le_succ (Nat.zero_le _)

/-- A remaining length below `2 ^ 21` is written, and read back. -/
theorem exists_encodeRemainingLength {length : Nat} (h : length < 2 ^ 21) :
    ∃ u, encodeRemainingLength length = .ok u ∧ u.length ≤ 4 ∧
      Reads decodeRemainingLength u length := by
  refine ⟨encodeRemainingLengthLoop 4 length, if_neg (by omega), ?_, ?_⟩
  · exact length_encodeRemainingLengthLoop_le 4 length
  · have := reads_decodeRemainingLengthLoop (k := 2) 0 h rfl
    rwa [Nat.zero_add, Nat.pow_zero, Nat.mul_one] at this

/-- The header is one byte of type and flags, which do not overlap, and a
    remaining length the decoder takes. -/
structure FixedHeader.Sound (fh : FixedHeader) : Prop where
  type : .ofCode (fh.byte >>> 4) = fh.type
  flags : fh.byte &&& 0x0f = fh.flags
  check : FixedHeader.checkFlags fh.type fh.flags = .ok ()
  length : fh.remainingLength < 2 ^ 21

instance (fh : FixedHeader) : Decidable fh.Sound :=
  decidable_of_iff (.ofCode (fh.byte >>> 4) = fh.type ∧ fh.byte &&& 0x0f = fh.flags ∧
      FixedHeader.checkFlags fh.type fh.flags = .ok () ∧ fh.remainingLength < 2 ^ 21)
    ⟨fun h => ⟨h.1, h.2.1, h.2.2.1, h.2.2.2⟩, fun h => ⟨h.type, h.flags, h.check, h.length⟩⟩

/-- The length does not matter for the rest. -/
theorem FixedHeader.Sound.withLength {type : PacketType} {flags : UInt8} {m n : Nat}
    (h : FixedHeader.Sound ⟨type, flags, m⟩) (hn : n < 2 ^ 21) :
    FixedHeader.Sound ⟨type, flags, n⟩ := ⟨h.type, h.flags, h.check, hn⟩

theorem FixedHeader.Sound.exists_serialize {fh : FixedHeader} (h : fh.Sound) :
    ∃ u, fh.serialize = .ok u ∧ u.length ≤ 5 ∧ Reads decodeFixedHeader u fh := by
  obtain ⟨u, hu, hlen, hread⟩ := exists_encodeRemainingLength h.length
  refine ⟨fh.byte :: u, ?_, Nat.succ_le_succ hlen, ?_⟩
  · rw [FixedHeader.serialize, hu]
    rfl
  · refine reads_bind_cons (reads_readUInt8 _) ?_
    intro t
    dsimp only
    rw [h.type, h.flags, h.check]
    exact reads_bind_pure hread t

/-- A packet is encoded by its header and a body that is read as the packet. -/
theorem encodes_of_reads {fh : FixedHeader} {header body : Bytes} {p : Packet}
    (hh : Reads decodeFixedHeader header fh) (hl : body.length = fh.remainingLength)
    (hb : Reads (decodeBody fh) body (some p)) : Encodes (header ++ body) p :=
  ⟨fh, body, hh body, hl, by simpa using hb []⟩

/-! ## Decoded strings -/

/-- What the loop of `decode_string` returns has lost the stray bytes, and is
    decoded from itself. -/
theorem reads_of_decodeStringLoop {fuel left : Nat} {s r a : Bytes}
    (h : decodeStringLoop fuel left s = .ok (a, r)) {fuel' : Nat} (hf : a.length ≤ fuel') :
    Reads (decodeStringLoop fuel' a.length) a a := by
  induction fuel generalizing left s a fuel' with
  | zero =>
    cases h
    cases fuel' with
    | zero => exact reads_pure _
    | succ _ => exact reads_pure _
  | succ fuel ih =>
    rw [decodeStringLoop] at h
    split_ifs at h with h0
    · cases h
      cases fuel' with
      | zero => exact reads_pure _
      | succ _ => exact reads_pure _
    obtain ⟨ch, s₁, -, h⟩ := bind_eq_ok h
    obtain ⟨⟨pushed, moved⟩, s₂, h2, h⟩ := bind_eq_ok h
    obtain ⟨-, h⟩ := rejectIf_bind_eq_ok h
    obtain ⟨rest, s₃, h3, h⟩ := bind_eq_ok h
    cases h
    obtain ⟨v, rfl, hmoved, hv, hpushed⟩ := decodeCodePoint_spec h2
    simp only at hmoved hpushed
    by_cases hc : ch ≤ 0xf7
    · rw [if_pos hc] at hpushed
      subst hpushed
      simp only [List.length_append, List.length_cons] at hf
      obtain ⟨fuel', rfl⟩ : ∃ n, fuel' = n + 1 := ⟨fuel' - 1, by omega⟩
      -- The code point is read again from the bytes it was read from before.
      have hcp : Reads (decodeCodePoint ch) v (ch :: v, moved) := by
        obtain ⟨v', hv', hread⟩ := local_decodeCodePoint ch _ _ _ h2
        obtain rfl := List.append_cancel_right hv'
        exact hread
      rw [decodeStringLoop, if_neg (by simp)]
      refine reads_bind_cons (reads_readUInt8 _) (reads_bind hcp ?_)
      refine reads_rejectIf_bind (by simp; omega) ?_
      have hleft : (ch :: v ++ rest).length - moved = rest.length := by
        simp only [List.length_append, List.length_cons]
        omega
      rw [hleft]
      exact reads_bind_pure (ih h3 (by omega))
    · -- A stray byte pushes nothing.
      rw [if_neg hc] at hpushed
      subst hpushed
      exact ih h3 hf

/-- The length that is written in front of a string. -/
theorem toNat_ofNat_length {u : Bytes} (hu : u.length ≤ 0xffff) :
    (UInt16.ofNat u.length).toNat = u.length := by
  rw [UInt16.toNat_ofNat']
  omega

theorem lengthPrefixed_eq {u : Bytes} (hu : u.length ≤ 0xffff) :
    lengthPrefixed u = writeUInt16 (UInt16.ofNat u.length) ++ u := by
  rw [writeUInt16, toNat_ofNat_length hu]
  rfl

/-- A decoded string is decoded from what `encode_string` writes for it. -/
theorem reads_of_decodeString {s r a : Bytes} (h : decodeString s = .ok (a, r)) :
    a.length ≤ 0xffff ∧ Reads decodeString (lengthPrefixed a) a := by
  obtain ⟨u, -, hu, hle, -⟩ := decodeString_spec h
  obtain ⟨n, s₁, -, h⟩ := bind_eq_ok h
  have ha : a.length ≤ 0xffff := by omega
  refine ⟨ha, ?_⟩
  rw [lengthPrefixed_eq ha]
  refine reads_bind (reads_readUInt16 _) ?_
  rw [toNat_ofNat_length ha]
  exact reads_of_decodeStringLoop h (Nat.le_refl _)

/-! ## The packets of the broker -/

/-- What the broker constructs to write it: the calls of the constructors. -/
inductive Outgoing
  | connack (sessionPresent : Bool) (connectReturnCode : Nat)
  | puback (packetId : UInt16)
  | pubrec (packetId : UInt16)
  | pubrel (packetId : UInt16)
  | pubcomp (packetId : UInt16)
  | unsuback (packetId : UInt16)
  /-- A SUBACK to which the return codes are added. -/
  | suback (packetId : UInt16) (returnCodes : List Nat)
  | pingresp
  /-- A PUBLISH made by `mqtt_client::publish` of a PUBLISH. -/
  | publish (packet : MqttPublish) (maxQos : Nat) (retained : Bool) (packetId : UInt16)

namespace Outgoing

/-- The packet that is constructed. -/
def construct : Outgoing → Except String Packet
  | connack sessionPresent connectReturnCode =>
    pure (.connack (mqttConnack sessionPresent connectReturnCode))
  | puback packetId => pure (.puback (mqttPuback packetId))
  | pubrec packetId => pure (.pubrec (mqttPubrec packetId))
  | pubrel packetId => pure (.pubrel (mqttPubrel packetId))
  | pubcomp packetId => pure (.pubcomp (mqttPubcomp packetId))
  | unsuback packetId => pure (.unsuback (mqttUnsuback packetId))
  | suback packetId returnCodes => do
    let p ← returnCodes.foldlM MqttSuback.addReturnCode (mqttSuback packetId)
    pure (.suback p)
  | pingresp => pure (.pingresp mqttPingresp)
  | publish packet maxQos retained packetId => do
    let p ← mqttPublish false (min packet.qos maxQos) retained packet.topicName packetId
      packet.payload
    pure (.publish p)

/-- The codes are among the accepted ones, a SUBACK is no longer than the decoder
    of the fixed header takes, and the message to forward came out of the decoder
    (the size of whose buffer is a `size_t`). -/
def Accepted : Outgoing → Prop
  | connack _ connectReturnCode => connectReturnCode < 6
  | suback _ returnCodes =>
    (∀ code ∈ returnCodes, code < 3 ∨ code = 0x80) ∧ returnCodes.length + 2 < 2 ^ 21
  | publish packet maxQos _ _ => maxQos < 3 ∧
      ∃ sb rest, sb.length < 2 ^ 64 ∧ channelRead sb = .packet (.publish packet) rest
  | _ => True

end Outgoing

/-- A packet is written in the size it announces, and read back. -/
def Packet.ReadsBack (p : Packet) : Prop :=
  ∃ bytes header, p.serialize = .ok bytes ∧ p.header.serialize = .ok header ∧
    bytes.length = header.length + p.header.remainingLength ∧
    bytes.length ≤ 8 + p.header.remainingLength ∧
    ∀ tail, channelRead (bytes ++ tail) = .packet p tail

/-- A packet that writes its header and a body is read back when its body is read
    as the packet. -/
theorem Packet.readsBack_of_body {p : Packet} (body : Bytes) (hfh : p.header.Sound)
    (hs : p.serialize = (p.header.serialize >>= fun header => pure (header ++ body)))
    (hl : body.length = p.header.remainingLength)
    (hb : Reads (decodeBody p.header) body (some p)) : p.ReadsBack := by
  obtain ⟨header, hheader, hlen, hread⟩ := hfh.exists_serialize
  refine ⟨header ++ body, header, ?_, hheader, ?_, ?_, ?_⟩
  · rw [hs, hheader]
    rfl
  · rw [List.length_append, hl]
  · rw [List.length_append, hl]
    omega
  · exact (encodes_of_reads hread hl hb).channelRead_append

/-- The packets with a packet id only, of any of their types. -/
theorem readsBack_idPacket {type : PacketType} {flags : UInt8} (of : IdPacket → Packet)
    (hfh : FixedHeader.Sound ⟨type, flags, 2⟩) (hhead : ∀ p, (of p).header = p.toFixedHeader)
    (hs : ∀ p, (of p).serialize = p.serialize)
    (hb : ∀ n, decodeBody ⟨type, flags, n⟩ =
      (decodeIdPacket ⟨type, flags, n⟩ >>= fun p => pure (some (of p)))) (packetId : UInt16) :
    (of (idPacket type flags packetId)).ReadsBack := by
  have hhead' : (of (idPacket type flags packetId)).header = ⟨type, flags, 2⟩ := hhead _
  refine Packet.readsBack_of_body (writeUInt16 packetId) ?_ ?_ ?_ ?_
  · rwa [hhead']
  · rw [hs, hhead']
    rfl
  · rw [hhead']
    rfl
  · rw [hhead', hb]
    exact reads_bind_pure (reads_bind_pure (reads_readUInt16 packetId))

theorem readsBack_connack {connectReturnCode : Nat} (h : connectReturnCode < 6)
    (sessionPresent : Bool) :
    (Packet.connack (mqttConnack sessionPresent connectReturnCode)).ReadsBack := by
  refine Packet.readsBack_of_body (p := .connack (mqttConnack sessionPresent connectReturnCode))
    [if sessionPresent then 0x01 else 0x00, UInt8.ofNat connectReturnCode]
    (show FixedHeader.Sound ⟨.connack, 0, 2⟩ by decide) rfl rfl ?_
  have hcode : (UInt8.ofNat connectReturnCode).toNat = connectReturnCode := by
    rw [UInt8.toNat_ofNat']
    omega
  refine reads_bind_pure (f := fun p => some (Packet.connack p)) ?_
  refine reads_bind_cons (reads_readUInt8 _) (reads_rejectIf_bind ?_ ?_)
  · cases sessionPresent <;> decide
  refine reads_bind_cons (v := []) (reads_readUInt8 _) (reads_rejectIf_bind (by omega) ?_)
  rw [hcode]
  cases sessionPresent <;> exact reads_pure _

/-! ### SUBACK -/

/-- The SUBACK after the return codes are added. -/
theorem foldlM_addReturnCode {codes : List Nat} (hcodes : ∀ code ∈ codes, code < 3 ∨ code = 0x80)
    (p : MqttSuback) (hlen : p.remainingLength + codes.length < 2 ^ 32) :
    codes.foldlM MqttSuback.addReturnCode p = .ok { p with
      remainingLength := p.remainingLength + codes.length
      returnCodes := p.returnCodes ++ codes } := by
  induction codes generalizing p with
  | nil => simp [pure, Except.pure]
  | cons code codes ih =>
    obtain ⟨hcode, hcodes⟩ := List.forall_mem_cons.1 hcodes
    rw [List.length_cons] at hlen
    have hadd : p.addReturnCode code = .ok { p with
        remainingLength := p.remainingLength + 1
        returnCodes := p.returnCodes ++ [code] } := by
      rw [MqttSuback.addReturnCode, if_neg (by omega), Nat.mod_eq_of_lt (by omega)]
    rw [List.foldlM_cons, hadd]
    refine (ih hcodes _ (by dsimp only; omega)).trans ?_
    simp only [List.length_cons, List.append_assoc, List.singleton_append]
    rw [Nat.add_assoc, Nat.add_comm 1]

theorem reads_decodeSubackLoop {codes : List Nat}
    (hcodes : ∀ code ∈ codes, code < 3 ∨ code = 0x80) :
    Reads (decodeSubackLoop codes.length) (codes.map UInt8.ofNat) codes := by
  induction codes with
  | nil => exact reads_pure _
  | cons code codes ih =>
    obtain ⟨hcode, hcodes⟩ := List.forall_mem_cons.1 hcodes
    have hval : (UInt8.ofNat code).toNat = code := by
      rw [UInt8.toNat_ofNat']
      omega
    refine reads_bind_cons (reads_readUInt8 _) (reads_rejectIf_bind (by omega) ?_)
    rw [hval]
    exact reads_bind_pure (ih hcodes)

theorem readsBack_suback {codes : List Nat} (hcodes : ∀ code ∈ codes, code < 3 ∨ code = 0x80)
    (hlen : codes.length + 2 < 2 ^ 21) (packetId : UInt16) :
    ∃ p, codes.foldlM MqttSuback.addReturnCode (mqttSuback packetId) = .ok p ∧
      (Packet.suback p).ReadsBack := by
  refine ⟨_, foldlM_addReturnCode hcodes _ ?_, ?_⟩
  · have : (mqttSuback packetId).remainingLength = 2 := rfl
    omega
  · have hfh : FixedHeader.Sound ⟨.suback, 0, 2⟩ := by decide
    refine Packet.readsBack_of_body (writeUInt16 packetId ++ codes.map UInt8.ofNat)
      (hfh.withLength (n := 2 + codes.length) (by omega)) rfl ?_ ?_
    · rw [List.length_append, List.length_map]
      rfl
    · refine reads_bind_pure (f := fun p => some (Packet.suback p)) ?_
      refine reads_bind (reads_readUInt16 packetId) (reads_bind_pure ?_)
      have hcount : 2 + codes.length - 2 = codes.length := by omega
      show Reads (decodeSubackLoop (2 + codes.length - 2)) _ _
      rw [hcount]
      exact reads_decodeSubackLoop hcodes

/-! ### PUBLISH -/

/-- The flags of a PUBLISH that is sent for the first time. -/
def publishFlags (qos : Nat) (retain : Bool) : UInt8 :=
  if retain then UInt8.ofNat qos <<< 1 ||| 0x01 else UInt8.ofNat qos <<< 1

/-- The fields of a PUBLISH are read back from its flags. -/
theorem publishFlags_sound {qos : Nat} (hq : qos < 3) (retain : Bool) :
    FixedHeader.Sound ⟨.publish, publishFlags qos retain, 0⟩ ∧
      publishFlags qos retain &&& 0x08 = 0 ∧ publishQos (publishFlags qos retain) = qos ∧
      decide (publishFlags qos retain &&& 0x01 ≠ 0) = retain := by
  have hcases : qos = 0 ∨ qos = 1 ∨ qos = 2 := by omega
  rcases hcases with rfl | rfl | rfl <;> cases retain <;>
    exact ⟨by decide, by decide, by decide, by decide⟩

/-- The length of the packet id of a PUBLISH. -/
def idLength (qos : Nat) : Nat := if qos = 1 ∨ qos = 2 then 2 else 0

/-- Lowering the QoS never makes the packet longer. -/
theorem idLength_min_le (qos maxQos : Nat) (hq : qos < 3) :
    idLength (min qos maxQos) ≤ idLength qos := by
  simp only [idLength]
  split_ifs <;> omega

/-- The PUBLISH that is made of a short topic name and payload. -/
theorem mqttPublish_eq {qos : Nat} (hq : qos < 3) (retain : Bool) {topicName payload : Bytes}
    (packetId : UInt16) (hl : topicName.length + 2 + idLength qos + payload.length < 2 ^ 21) :
    mqttPublish false qos retain topicName packetId payload = .ok {
      type := .publish
      flags := publishFlags qos retain
      remainingLength := topicName.length + 2 + idLength qos + payload.length
      dup := false
      qos := qos
      retain := retain
      topicName := topicName
      packetId := if qos = 1 ∨ qos = 2 then packetId else 0
      payload := payload } := by
  have hflags : (if retain = true then (0 : UInt8) ||| (UInt8.ofNat qos <<< 1) ||| 0x01
      else (0 : UInt8) ||| (UInt8.ofNat qos <<< 1)) = publishFlags qos retain := by
    rw [UInt8.zero_or]
    rfl
  rw [idLength] at hl ⊢
  simp only [mqttPublish, Bool.false_eq_true, if_false, hflags]
  by_cases hid : qos = 1 ∨ qos = 2
  · simp only [if_pos hid] at hl ⊢
    rw [if_neg (by omega), if_neg (by simp), if_neg (by omega), Nat.mod_eq_of_lt (by omega)]
    simp only [Nat.mod_eq_of_lt (show topicName.length + 2 < 2 ^ 32 by omega),
      Nat.mod_eq_of_lt (show topicName.length + 2 + 2 < 2 ^ 32 by omega)]
  · simp only [if_neg hid] at hl ⊢
    rw [if_neg (by omega), if_neg (by simp), if_neg (by omega), Nat.mod_eq_of_lt (by omega)]
    simp only [Nat.mod_eq_of_lt (show topicName.length + 2 < 2 ^ 32 by omega), Nat.add_zero]

/-- The bytes of the packet id of a PUBLISH. -/
def MqttPublish.idBytes (p : MqttPublish) : Bytes :=
  if p.qos = 1 ∨ p.qos = 2 then writeUInt16 p.packetId else []

theorem MqttPublish.length_idBytes (p : MqttPublish) : p.idBytes.length = idLength p.qos := by
  rw [idBytes, idLength]
  split_ifs <;> rfl

/-- What a PUBLISH writes after its fixed header. -/
def MqttPublish.body (p : MqttPublish) : Bytes :=
  lengthPrefixed p.topicName ++ (p.idBytes ++ p.payload)

/-- A PUBLISH whose fields agree with each other and with its flags, with a name
    that is decoded from its own bytes. -/
structure MqttPublish.Coherent (p : MqttPublish) : Prop where
  header : p.toFixedHeader.Sound
  type : p.type = .publish
  dupBit : decide (p.flags &&& 0x08 ≠ 0) = p.dup
  qosBits : publishQos p.flags = p.qos
  retainBit : decide (p.flags &&& 0x01 ≠ 0) = p.retain
  length : p.remainingLength = p.topicName.length + 2 + idLength p.qos + p.payload.length
  dup : ¬(p.qos = 0 ∧ p.dup = true)
  qos : p.qos < 3
  packetId : ¬(p.qos = 1 ∨ p.qos = 2) → p.packetId = 0
  nonempty : p.topicName ≠ []
  notSys : p.topicName.head? ≠ some dollar
  notWild : ¬(hash ∈ p.topicName ∨ plus ∈ p.topicName)
  short : p.topicName.length ≤ 0xffff
  name : Reads decodeString (lengthPrefixed p.topicName) p.topicName

namespace MqttPublish.Coherent

variable {p : MqttPublish} (h : p.Coherent)
include h

theorem reads_idBytes :
    Reads (readIf (decide (p.qos = 1 ∨ p.qos = 2)) readUInt16 0) p.idBytes p.packetId := by
  rw [MqttPublish.idBytes]
  by_cases hid : p.qos = 1 ∨ p.qos = 2
  · rw [if_pos hid, decide_eq_true hid]
    exact reads_readUInt16 _
  · rw [if_neg hid, decide_eq_false hid, h.packetId hid]
    exact reads_pure _

/-- It is decoded from its name, its id and its payload. -/
theorem reads_decodePublish : Reads (decodePublish p.toFixedHeader) p.body p := by
  have hq := h.qos
  have hqos := h.qosBits
  rw [publishQos] at hqos
  simp only [decodePublish, h.dupBit, hqos, h.retainBit]
  refine reads_rejectIf_bind (by rw [hqos, h.dupBit]; exact h.dup) ?_
  refine reads_rejectIf_bind (by rw [hqos]; omega) (reads_bind h.name ?_)
  refine reads_rejectIf_bind h.nonempty (reads_rejectIf_bind h.notSys
    (reads_rejectIf_bind h.notWild ?_))
  refine reads_bind h.reads_idBytes (reads_size_bind fun n hn => ?_)
  -- The payload is what the name and the id leave of the remaining length.
  have hpay : (p.remainingLength + (2 ^ 64 - (p.topicName.length + 2 +
      if decide (p.qos = 1 ∨ p.qos = 2) = true then 2 else 0) % 2 ^ 64)) % 2 ^ 64 =
      p.payload.length := by
    have hlen := h.length
    have hsmall := h.header.length
    rw [idLength] at hlen
    simp only [decide_eq_true_eq]
    omega
  refine reads_rejectIf_bind (by rw [hqos, hpay]; omega) ?_
  rw [hpay]
  exact reads_bind_pure (f := fun payload => { p with payload := payload }) (reads_take _ p.payload)

theorem serialize_eq : p.serialize = (p.toFixedHeader.serialize >>= fun header =>
    pure (header ++ p.body)) := by
  rw [MqttPublish.serialize, encodeString, if_neg (Nat.not_lt.2 h.short)]
  rfl

theorem readsBack : (Packet.publish p).ReadsBack := by
  refine Packet.readsBack_of_body p.body h.header h.serialize_eq ?_ ?_
  · rw [MqttPublish.body, List.length_append, List.length_append, length_lengthPrefixed,
      p.length_idBytes, ← Nat.add_assoc]
    exact h.length.symm
  · have htype : (Packet.publish p).header.type = .publish := h.type
    rw [decodeBody, htype]
    exact reads_bind_pure h.reads_decodePublish

end MqttPublish.Coherent

/-- A PUBLISH as it is sent for the first time. -/
structure MqttPublish.Formed (p : MqttPublish) : Prop where
  type : p.type = .publish
  flags : p.flags = publishFlags p.qos p.retain
  length : p.remainingLength = p.topicName.length + 2 + idLength p.qos + p.payload.length
  small : p.remainingLength < 2 ^ 21
  dup : p.dup = false
  qos : p.qos < 3
  packetId : ¬(p.qos = 1 ∨ p.qos = 2) → p.packetId = 0
  nonempty : p.topicName ≠ []
  notSys : p.topicName.head? ≠ some dollar
  notWild : ¬(hash ∈ p.topicName ∨ plus ∈ p.topicName)
  short : p.topicName.length ≤ 0xffff
  name : Reads decodeString (lengthPrefixed p.topicName) p.topicName

namespace MqttPublish.Formed

variable {p : MqttPublish} (h : p.Formed)
include h

theorem sound : p.toFixedHeader.Sound := by
  have hfh := (publishFlags_sound h.qos p.retain).1
  rw [← h.flags] at hfh
  have hmk : p.toFixedHeader = ⟨.publish, p.flags, p.remainingLength⟩ := by
    rw [← h.type]
  rw [hmk]
  exact hfh.withLength h.small

theorem coherent : p.Coherent := by
  obtain ⟨-, hdupBit, hqos, hretain⟩ := publishFlags_sound h.qos p.retain
  rw [← h.flags] at hdupBit hqos hretain
  refine { h with header := h.sound, dupBit := ?_, qosBits := hqos, retainBit := hretain, dup := ?_ }
  · rw [h.dup]
    exact decide_eq_false (not_not_intro hdupBit)
  · rw [h.dup]
    exact fun hd => Bool.false_ne_true hd.2

theorem readsBack : (Packet.publish p).ReadsBack := h.coherent.readsBack

end MqttPublish.Formed

/-- Only a PUBLISH is decoded as one. -/
theorem decodePublish_of_decodeBody {fh : FixedHeader} {s r : Bytes} {m : MqttPublish}
    (h : decodeBody fh s = .ok (some (.publish m), r)) : decodePublish fh s = .ok (m, r) := by
  rw [decodeBody] at h
  cases ht : fh.type <;> simp only [ht] at h
  case publish =>
    obtain ⟨p, t, hp, h⟩ := bind_eq_ok h
    cases h
    exact hp
  case pingreq | pingresp | disconnect | unspecified => cases h
  all_goals
    obtain ⟨_, _, -, h⟩ := bind_eq_ok h
    cases h

/-- What `mqtt_client::publish` makes of a decoded PUBLISH is no longer than that
    was, and is read back. -/
theorem readsBack_publish {sb rest : Bytes} {m : MqttPublish} (hsb : sb.length < 2 ^ 64)
    (hm : channelRead sb = .packet (.publish m) rest) {maxQos : Nat} (hmax : maxQos < 3)
    (retained : Bool) (packetId : UInt16) :
    ∃ p, mqttPublish false (min m.qos maxQos) retained m.topicName packetId m.payload = .ok p ∧
      p.remainingLength ≤ m.remainingLength ∧ (Packet.publish p).ReadsBack := by
  obtain ⟨hq, hne, hsys, -⟩ := decoded_of_channelRead hm hsb
  obtain ⟨-, fh, body, hfh, -, hb⟩ := channelRead_eq_packet.1 hm
  obtain ⟨_, _, -, -, -, -, hrl⟩ := decodeFixedHeader_eq_ok hfh
  have hsmall := (decodeRemainingLength_spec hrl).2
  have hbody := Nat.lt_of_le_of_lt (length_le_of_decodeFixedHeader hfh) hsb
  have hdecode := decodePublish_of_decodeBody hb
  have hp := decodedFrom_of_decodePublish hdecode
  obtain ⟨t, hstr, -⟩ := hp.name
  obtain ⟨hstrlen, hname⟩ := reads_of_decodeString hstr
  have hlen := decodePublish_length (by omega) hbody hdecode
  rw [← idLength, ← hp.header] at hlen
  rw [← hp.header] at hsmall
  have hq' : min m.qos maxQos < 3 := by omega
  have hle := idLength_min_le m.qos maxQos hq
  refine ⟨_, mqttPublish_eq hq' retained packetId (by omega), by dsimp only; omega, ?_⟩
  refine MqttPublish.Formed.readsBack ⟨rfl, rfl, rfl, ?_, rfl, hq', fun h => if_neg h, hne, hsys,
    hp.notWild, hstrlen, hname⟩
  dsimp only
  omega

/-- What the broker constructs to write it can be constructed, is written in the
    size it announces, and is read back as it was constructed. -/
theorem outgoing_reads_back (o : Outgoing) (h : o.Accepted) :
    ∃ p, o.construct = .ok p ∧ p.ReadsBack := by
  cases o with
  | connack sessionPresent code => exact ⟨_, rfl, readsBack_connack h sessionPresent⟩
  | puback id =>
    exact ⟨_, rfl, readsBack_idPacket .puback (by decide) (fun _ => rfl) (fun _ => rfl)
      (fun _ => rfl) id⟩
  | pubrec id =>
    exact ⟨_, rfl, readsBack_idPacket .pubrec (by decide) (fun _ => rfl) (fun _ => rfl)
      (fun _ => rfl) id⟩
  | pubrel id =>
    exact ⟨_, rfl, readsBack_idPacket .pubrel (by decide) (fun _ => rfl) (fun _ => rfl)
      (fun _ => rfl) id⟩
  | pubcomp id =>
    exact ⟨_, rfl, readsBack_idPacket .pubcomp (by decide) (fun _ => rfl) (fun _ => rfl)
      (fun _ => rfl) id⟩
  | unsuback id =>
    exact ⟨_, rfl, readsBack_idPacket .unsuback (by decide) (fun _ => rfl) (fun _ => rfl)
      (fun _ => rfl) id⟩
  | suback id codes =>
    obtain ⟨p, hp, hread⟩ := readsBack_suback h.1 h.2 id
    refine ⟨_, ?_, hread⟩
    rw [Outgoing.construct, hp]
    rfl
  | pingresp =>
    exact ⟨_, rfl, Packet.readsBack_of_body (p := .pingresp mqttPingresp) [] (by decide)
      rfl rfl (reads_pure _)⟩
  | publish m maxQos retained id =>
    obtain ⟨hmax, sb, rest, hsb, hm⟩ := h
    obtain ⟨p, hp, -, hread⟩ := readsBack_publish hsb hm hmax retained id
    refine ⟨_, ?_, hread⟩
    rw [Outgoing.construct, hp]
    rfl

/-- A message of the QoS 2 is decoded, granted at the QoS 1 and sent on. -/
theorem forwarded_reads_back : ∃ p, (Outgoing.publish
    ⟨⟨.publish, 0x04, 6⟩, false, 2, false, [0x74], 9, [0x68]⟩ 1 false 7).construct = .ok p ∧
      p.ReadsBack :=
  outgoing_reads_back _ ⟨by decide, [0x34, 0x06, 0x00, 0x01, 0x74, 0x00, 0x09, 0x68], [],
    by decide, by decide⟩

end MqttBroker
