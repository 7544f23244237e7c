import MqttBroker.Codec.Strings

/-!
# The DUP mark of a PUBLISH

A PUBLISH has its DUP mark twice: as a field, which `dup(d)` sets, and in the
flags of its fixed header, which the constructor computes and `serialize`
writes. So the mark that is decoded is the one the object was constructed with
(`dupReadsBack_iff`).
-/

namespace MqttBroker

open Reader

/-- `mqtt_publish::dup(d)`. -/
def MqttPublish.mark (p : MqttPublish) (d : Bool) : MqttPublish := { p with dup := d }

/-- After the calls `dup(d)`, for `d` in `ds`, the PUBLISH is written, and decoded
    with the mark that was set last and its other fields, whatever its flags. -/
def MqttPublish.DupReadsBack (p : MqttPublish) (ds : List Bool) : Prop :=
  ∃ bytes q, (ds.foldl MqttPublish.mark p).serialize = .ok bytes ∧
    (∀ tail, channelRead (bytes ++ tail) = .packet (.publish q) tail) ∧
    q = { p with flags := q.flags, dup := ds.getLastD p.dup }

/-- The topic names that a PUBLISH is decoded with as they are. -/
structure PublishName (name : Bytes) : Prop where
  nonempty : name ≠ []
  notSys : name.head? ≠ some dollar
  notWild : ¬(hash ∈ name ∨ plus ∈ name)
  short : name.length ≤ 0xffff
  accepted : ∀ seq ∈ sequences name, ¬SequenceRejected seq
  whole : strayFree 0 name = true

theorem PublishName.reads {name : Bytes} (h : PublishName name) :
    Reads decodeString (lengthPrefixed name) name := by
  have hread := reads_decodeString_of_sequences h.short h.accepted
  obtain ⟨u, hu, hlen, -, -, heq⟩ := decodeString_spec (hread [])
  obtain ⟨rfl, -⟩ := lengthPrefixed_append_inj h.short hlen hu
  rwa [heq h.whole] at hread

/-! ## Constructed objects -/

/-- The flags the constructor computes. -/
def constructedFlags (dup : Bool) (qos : Nat) (retain : Bool) : UInt8 :=
  let flags := (if dup then (0x08 : UInt8) else 0) ||| (UInt8.ofNat qos <<< 1)
  if retain then flags ||| 0x01 else flags

/-- The fields of a PUBLISH are read back from the flags. -/
theorem constructedFlags_sound {qos : Nat} (hq : qos = 1 ∨ qos = 2) (dup retain : Bool) :
    FixedHeader.Sound ⟨.publish, constructedFlags dup qos retain, 0⟩ ∧
      decide (constructedFlags dup qos retain &&& 0x08 ≠ 0) = dup ∧
      publishQos (constructedFlags dup qos retain) = qos ∧
      decide (constructedFlags dup qos retain &&& 0x01 ≠ 0) = retain := by
  rcases hq with rfl | rfl <;> cases dup <;> cases retain <;>
    exact ⟨by decide, by decide, by decide, by decide⟩

variable {dup retain : Bool} {qos : Nat} {name payload : Bytes} {id : UInt16} {p : MqttPublish}

/-- The PUBLISH of the QoS 1 or 2 that is constructed. -/
theorem constructed_eq (hq : qos = 1 ∨ qos = 2)
    (hp : mqttPublish dup qos retain name id payload = .ok p) :
    p = ⟨⟨.publish, constructedFlags dup qos retain, p.remainingLength⟩, dup, qos, retain, name, id,
      payload⟩ ∧
    (name.length ≤ 0xffff → p.remainingLength = name.length + 4 + payload.length) := by
  cases dup <;> cases retain
  all_goals
    simp only [mqttPublish, if_pos hq, Bool.false_eq_true, if_false, if_true] at hp
    split_ifs at hp
    cases hp
    refine ⟨rfl, fun hlen => ?_⟩
    dsimp only
    omega

/-- With a topic name that is decoded, it is coherent. -/
theorem coherent_of_constructed (hq : qos = 1 ∨ qos = 2)
    (hp : mqttPublish dup qos retain name id payload = .ok p) (hname : PublishName name)
    (hlen : name.length + 4 + payload.length < 2 ^ 21) : p.Coherent := by
  obtain ⟨heq, hrl⟩ := constructed_eq hq hp
  obtain ⟨hfh, hdup, hqos, hretain⟩ := constructedFlags_sound hq dup retain
  have hrl := hrl hname.short
  rw [heq]
  refine ⟨hfh.withLength (by omega), rfl, hdup, hqos, hretain, ?_, ?_, ?_, fun h => absurd hq h,
    hname.nonempty, hname.notSys, hname.notWild, hname.short, hname.reads⟩
  · rw [idLength, if_pos hq]
    dsimp only
    omega
  · dsimp only
    omega
  · dsimp only
    omega

/-! ## Marks -/

/-- The mark is not written. -/
theorem serialize_mark (p : MqttPublish) (ds : List Bool) :
    (ds.foldl MqttPublish.mark p).serialize = p.serialize := by
  induction ds generalizing p with
  | nil => rfl
  | cons d ds ih => exact ih (p.mark d)

/-- A name that was decoded as it was written is one that can be. -/
theorem publishName_of_decoded {name s r t : Bytes} {fh : FixedHeader} {q : MqttPublish}
    (hshort : name.length ≤ 0xffff) (hs : s = lengthPrefixed name ++ t)
    (h : decodePublish fh s = .ok (q, r)) (hq : q.topicName = name) : PublishName name := by
  have hp := decodedFrom_of_decodePublish h
  obtain ⟨t', hstr, -⟩ := hp.name
  have hne := hp.nonempty
  have hsys := hp.notSys
  have hwild := hp.notWild
  rw [hq] at hstr hne hsys hwild
  rw [hs] at hstr
  obtain ⟨u, hu, hlen, -, hstray, -⟩ := decodeString_spec hstr
  obtain ⟨rfl, -⟩ := lengthPrefixed_append_inj hshort hlen hu
  exact ⟨hne, hsys, hwild, hshort, not_rejected_of_decodeString hshort hstr, hstray.2 rfl⟩

/-- A PUBLISH of the QoS 1 or 2 is decoded with the mark that was set last
    exactly if it can be decoded at all, and that is the mark it was constructed
    with. -/
theorem dupReadsBack_iff (hq : qos = 1 ∨ qos = 2)
    (hp : mqttPublish dup qos retain name id payload = .ok p) (ds : List Bool) :
    p.DupReadsBack ds ↔
      PublishName name ∧ name.length + 4 + payload.length < 2 ^ 21 ∧ ds.getLastD dup = dup := by
  obtain ⟨heq, hrl⟩ := constructed_eq hq hp
  have hdup : p.dup = dup := by rw [heq]
  have hname : p.topicName = name := by rw [heq]
  constructor
  · rintro ⟨bytes, q, hs, hread, hqp⟩
    rw [serialize_mark, MqttPublish.serialize, hname, encodeString] at hs
    have hshort : name.length ≤ 0xffff := by
      by_contra hlong
      rw [if_pos (Nat.not_le.1 hlong)] at hs
      cases hheader : p.toFixedHeader.serialize <;> rw [hheader] at hs <;> cases hs
    have hrl := hrl hshort
    rw [if_neg (Nat.not_lt.2 hshort)] at hs
    have hread := hread []
    obtain ⟨-, fh, body, hfh, -, hbody⟩ := channelRead_eq_packet.1 hread
    have hpub := decodePublish_of_decodeBody hbody
    have hdecoded := decodedFrom_of_decodePublish hpub
    -- The length that was decoded is the one that was written, so the decoder took it.
    have hsmall : p.remainingLength < 2 ^ 21 := by
      obtain ⟨_, _, -, -, -, -, hl⟩ := decodeFixedHeader_eq_ok hfh
      have hlen : q.remainingLength = p.remainingLength := by rw [hqp]
      rw [← hlen, show q.remainingLength = fh.remainingLength by rw [← hdecoded.header]]
      exact (decodeRemainingLength_spec hl).2
    have hsound : p.toFixedHeader.Sound := by
      have hfh := (constructedFlags_sound hq dup retain).1.withLength hsmall
      rw [heq]
      exact hfh
    obtain ⟨header, hheader, -, hreads⟩ := hsound.exists_serialize
    rw [hheader] at hs
    obtain rfl := Except.ok.inj hs
    rw [List.append_nil, hreads] at hfh
    obtain ⟨rfl, rfl⟩ := Prod.mk.inj (Except.ok.inj hfh)
    refine ⟨publishName_of_decoded hshort rfl hpub (by rw [hqp, hname]), by omega, ?_⟩
    have hlast : q.dup = ds.getLastD dup := by rw [hqp, hdup]
    rw [← hlast, hdecoded.dup, heq]
    exact (constructedFlags_sound hq dup retain).2.1
  · rintro ⟨hpn, hlen, hlast⟩
    have hcoherent := coherent_of_constructed hq hp hpn hlen
    obtain ⟨bytes, header, hs, -, -, -, hread⟩ := hcoherent.readsBack
    refine ⟨bytes, p, (serialize_mark p ds).trans hs, hread, ?_⟩
    rw [hdup, hlast, ← hdup]

end MqttBroker
