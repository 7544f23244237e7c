import MqttBroker.Codec.Strings

/-!
# SUBSCRIBE packets written and read back

A SUBSCRIBE is built with `add_topic_filter`, which counts a QoS for every
filter, as `serialize` writes one. The decoder reads it for a valid filter only:
after an invalid one it is left in front of the next filter, and one byte short
of the remaining length is counted (`countedLength`). So a request is read back
exactly if all its filters are valid (`subscribe_reads_back_iff`).
-/

namespace MqttBroker

open Reader

/-- `mqtt_subscribe(packet_id)`. -/
def mqttSubscribe (packetId : UInt16) : MqttSubscribe where
  type := .subscribe
  flags := 2
  remainingLength := 2
  packetId := packetId
  topicFilters := []

/-- `mqtt_subscribe::add_topic_filter`. It records no wildness, and `serialize`
    writes none. -/
def MqttSubscribe.addTopicFilter (p : MqttSubscribe) (topicFilter : Bytes) (maxQos : Nat) :
    Except String MqttSubscribe :=
  if 3 ≤ maxQos then .error "malformed packet. (SUBSCRIBE topic filter QoS)"
  else .ok { p with
    remainingLength := ((p.remainingLength + (2 + topicFilter.length) % 2 ^ 32) % 2 ^ 32 + 1) % 2 ^ 32
    topicFilters := p.topicFilters ++ [⟨topicFilter, maxQos, false⟩] }

/-- The SUBSCRIBE for a list of filters, each with the QoS that is requested. -/
def requestSubscribe (packetId : UInt16) (requests : List (Bytes × Nat)) :
    Except String MqttSubscribe :=
  requests.foldlM (fun p request => p.addTopicFilter request.1 request.2) (mqttSubscribe packetId)

/-- A SUBSCRIBE, from its fixed header on. -/
def readSubscribe : PacketReader MqttSubscribe := do
  let fh ← decodeFixedHeader
  decodeSubscribe fh

/-- The QoS a request is to be decoded with. -/
def decodedQos (request : Bytes × Nat) : Nat :=
  if (isTopicFilterValid request.1).1 then request.2 else 0x80

/-- The SUBSCRIBE for the requests is built, written, and decoded to the entries
    it was built for, `tail` being left. -/
def SubscribeReadsBack (packetId : UInt16) (requests : List (Bytes × Nat)) (tail : Bytes) : Prop :=
  ∃ p bytes q, requestSubscribe packetId requests = .ok p ∧ p.serialize = .ok bytes ∧
    readSubscribe (bytes ++ tail) = .ok (q, tail) ∧ q.packetId = packetId ∧
    q.topicFilters.map (fun entry => (entry.topicFilter, entry.maxQos)) =
      requests.map fun request => (request.1, decodedQos request)

/-! ## Lengths -/

/-- What `add_topic_filter` adds to the remaining length for the filters. -/
def writtenLength : List Bytes → Nat
  | [] => 0
  | f :: fs => f.length + 3 + writtenLength fs

/-- What the decoder takes off for the filters. -/
def countedLength : List Bytes → Nat
  | [] => 0
  | f :: fs => f.length + 2 + qosBytes f + countedLength fs

theorem countedLength_le (fs : List Bytes) : countedLength fs ≤ writtenLength fs := by
  induction fs with
  | nil => exact Nat.le_refl _
  | cons f fs ih =>
    rw [countedLength, writtenLength, qosBytes]
    split_ifs <;> omega

/-- Every invalid filter is counted one byte short. -/
theorem valid_of_countedLength {fs : List Bytes} (h : writtenLength fs ≤ countedLength fs) :
    ∀ f ∈ fs, (isTopicFilterValid f).1 = true := by
  induction fs with
  | nil => exact fun _ hf => absurd hf List.not_mem_nil
  | cons f fs ih =>
    have hle := countedLength_le fs
    rw [countedLength, writtenLength, qosBytes] at h
    split_ifs at h with hf
    · exact List.forall_mem_cons.2 ⟨hf, ih (by omega)⟩
    · omega

/-- The loop goes on until it has counted the remaining length. -/
theorem le_countedLength {fuel : Nat} {remain : Int} (hf : remain ≤ fuel) {s r : Bytes}
    {entries : List SubscribeEntry} (h : decodeSubscribeLoop fuel remain s = .ok (entries, r)) :
    remain ≤ countedLength (entries.map SubscribeEntry.topicFilter) := by
  induction fuel generalizing remain s entries with
  | zero => exact Int.le_trans hf (Int.natCast_nonneg _)
  | succ fuel ih =>
    rw [decodeSubscribeLoop] at h
    split_ifs at h with h0
    · exact Int.le_trans h0 (Int.natCast_nonneg _)
    obtain ⟨topic, s₁, -, h⟩ := bind_eq_ok h
    obtain ⟨-, h⟩ := rejectIf_bind_eq_ok h
    split_ifs at h with hv
    · obtain ⟨maxQos, s₂, -, h⟩ := bind_eq_ok h
      obtain ⟨-, h⟩ := rejectIf_bind_eq_ok h
      obtain ⟨rest, s₃, h3, h⟩ := bind_eq_ok h
      cases h
      have hrest := ih (by omega) h3
      rw [List.map_cons, countedLength, qosBytes, if_pos hv]
      dsimp only
      omega
    · obtain ⟨rest, s₂, h2, h⟩ := bind_eq_ok h
      cases h
      have hrest := ih (by omega) h2
      rw [List.map_cons, countedLength, qosBytes, if_neg hv]
      dsimp only
      omega

/-! ## What is written -/

/-- The bytes of a request. -/
def requestBytes (request : Bytes × Nat) : Bytes :=
  lengthPrefixed request.1 ++ [UInt8.ofNat request.2]

/-- The SUBSCRIBE after the requests are added. -/
theorem foldlM_addTopicFilter {requests : List (Bytes × Nat)}
    (hq : ∀ request ∈ requests, request.2 < 3) (p : MqttSubscribe)
    (hlen : p.remainingLength + writtenLength (requests.map Prod.fst) < 2 ^ 32) :
    requests.foldlM (fun p request => p.addTopicFilter request.1 request.2) p = .ok { p with
      remainingLength := p.remainingLength + writtenLength (requests.map Prod.fst)
      topicFilters := p.topicFilters ++ requests.map fun request => ⟨request.1, request.2, false⟩ } := by
  induction requests generalizing p with
  | nil => simp [writtenLength, pure, Except.pure]
  | cons request requests ih =>
    obtain ⟨hrequest, hq⟩ := List.forall_mem_cons.1 hq
    rw [List.map_cons, writtenLength] at hlen ⊢
    have hadd : p.addTopicFilter request.1 request.2 = .ok { p with
        remainingLength := p.remainingLength + (request.1.length + 3)
        topicFilters := p.topicFilters ++ [⟨request.1, request.2, false⟩] } := by
      have hmod : ((p.remainingLength + (2 + request.1.length) % 2 ^ 32) % 2 ^ 32 + 1) % 2 ^ 32 =
          p.remainingLength + (request.1.length + 3) := by omega
      rw [MqttSubscribe.addTopicFilter, if_neg (by omega), hmod]
    rw [List.foldlM_cons, hadd]
    refine (ih hq _ (by dsimp only; omega)).trans ?_
    simp only [List.map_cons, List.append_assoc, List.singleton_append, Nat.add_assoc]

theorem encodeTopicFilters_eq {requests : List (Bytes × Nat)}
    (hlen : ∀ request ∈ requests, request.1.length ≤ 0xffff) :
    encodeTopicFilters (requests.map fun request => ⟨request.1, request.2, false⟩) =
      .ok (requests.flatMap requestBytes) := by
  induction requests with
  | nil => rfl
  | cons request requests ih =>
    obtain ⟨hrequest, hlen⟩ := List.forall_mem_cons.1 hlen
    rw [List.map_cons, encodeTopicFilters, encodeString, if_neg (Nat.not_lt.2 hrequest), ih hlen]
    rfl

/-! ## What is read -/

/-- The entry a valid request is decoded to. -/
def decodedEntry (request : Bytes × Nat) : SubscribeEntry :=
  ⟨request.1, request.2, (isTopicFilterValid request.1).2⟩

/-- The filters a client may request: text that is not empty, with a QoS. -/
def Requestable (request : Bytes × Nat) : Prop :=
  request.1 ≠ [] ∧ MqttUtf8 request.1 ∧ request.1.length ≤ 0xffff ∧ request.2 ≤ 2

/-- Valid filters are read one after the other. -/
theorem reads_decodeSubscribeLoop {requests : List (Bytes × Nat)}
    (hreq : ∀ request ∈ requests, Requestable request)
    (hvalid : ∀ request ∈ requests, (isTopicFilterValid request.1).1 = true) {fuel : Nat}
    (hf : writtenLength (requests.map Prod.fst) ≤ fuel) :
    Reads (decodeSubscribeLoop fuel (writtenLength (requests.map Prod.fst)))
      (requests.flatMap requestBytes) (requests.map decodedEntry) := by
  induction requests generalizing fuel with
  | nil => cases fuel <;> exact reads_pure _
  | cons request requests ih =>
    obtain ⟨⟨hne, hutf, hlen, hq⟩, hreq⟩ := List.forall_mem_cons.1 hreq
    obtain ⟨hv, hvalid⟩ := List.forall_mem_cons.1 hvalid
    rw [List.map_cons, writtenLength] at hf ⊢
    obtain ⟨fuel, rfl⟩ : ∃ n, fuel = n + 1 := ⟨fuel - 1, by omega⟩
    have hqos : (UInt8.ofNat request.2).toNat = request.2 := by
      rw [UInt8.toNat_ofNat']
      omega
    rw [decodeSubscribeLoop, if_neg (by omega), List.flatMap_cons, requestBytes, List.append_assoc]
    refine reads_bind (reads_decodeString_of_mqttUtf8 hlen hutf) (reads_rejectIf_bind hne ?_)
    rw [if_pos hv]
    refine reads_bind (reads_readUInt8 _) (reads_rejectIf_bind (by omega) ?_)
    rw [hqos]
    have hremain : ((request.1.length + 3 + writtenLength (requests.map Prod.fst) : Nat) : Int) -
        (request.1.length + 2 : Nat) - 1 = writtenLength (requests.map Prod.fst) := by omega
    rw [hremain]
    exact reads_bind_pure (f := fun entries => decodedEntry request :: entries)
      (ih hreq hvalid (by omega))

/-- The bytes of a SUBSCRIBE that is built for requests. -/
theorem exists_requestBytes (packetId : UInt16) {requests : List (Bytes × Nat)}
    (hreq : ∀ request ∈ requests, Requestable request)
    (hlen : 2 + writtenLength (requests.map Prod.fst) < 2 ^ 21) :
    ∃ p header, requestSubscribe packetId requests = .ok p ∧
      p.serialize = .ok (header ++ writeUInt16 packetId ++ requests.flatMap requestBytes) ∧
      Reads decodeFixedHeader header
        ⟨.subscribe, 2, 2 + writtenLength (requests.map Prod.fst)⟩ := by
  have hfh : FixedHeader.Sound ⟨.subscribe, 2, 2 + writtenLength (requests.map Prod.fst)⟩ :=
    FixedHeader.Sound.withLength (m := 2) (by decide) hlen
  obtain ⟨header, hheader, -, hread⟩ := hfh.exists_serialize
  have hq : ∀ request ∈ requests, request.2 < 3 :=
    fun request hr => Nat.lt_succ_of_le (hreq request hr).2.2.2
  have hp := foldlM_addTopicFilter hq (mqttSubscribe packetId) (by
    have : (mqttSubscribe packetId).remainingLength = 2 := rfl
    omega)
  refine ⟨_, header, hp, ?_, hread⟩
  have htopics := encodeTopicFilters_eq fun request hr => (hreq request hr).2.2.1
  rw [MqttSubscribe.serialize]
  simp only [mqttSubscribe, List.nil_append, hheader, htopics]
  rfl

/-- A SUBSCRIBE for valid filters is read back. -/
theorem reads_readSubscribe {packetId : UInt16} {requests : List (Bytes × Nat)}
    (hne : requests ≠ []) (hreq : ∀ request ∈ requests, Requestable request)
    (hvalid : ∀ request ∈ requests, (isTopicFilterValid request.1).1 = true) {header : Bytes}
    {fh : FixedHeader} (hfh : fh.remainingLength = 2 + writtenLength (requests.map Prod.fst))
    (hread : Reads decodeFixedHeader header fh) :
    Reads readSubscribe (header ++ (writeUInt16 packetId ++ requests.flatMap requestBytes))
      { fh with packetId := packetId, topicFilters := requests.map decodedEntry } := by
  refine reads_bind hread (reads_bind (reads_readUInt16 packetId) ?_)
  have hremain : (fh.remainingLength : Int) - 2 = writtenLength (requests.map Prod.fst) := by omega
  rw [hremain]
  refine reads_bind_nil (reads_decodeSubscribeLoop hreq hvalid (by omega)) ?_
  refine reads_rejectIf_bind ?_ (reads_pure _)
  exact fun h => hne (List.map_eq_nil_iff.1 h)

/-- A SUBSCRIBE is decoded to what it was built for exactly when every filter in
    it is valid. -/
theorem subscribe_reads_back_iff (packetId : UInt16) (requests : List (Bytes × Nat)) (tail : Bytes)
    (hne : requests ≠ []) (hreq : ∀ request ∈ requests, Requestable request)
    (hlen : 2 + writtenLength (requests.map Prod.fst) < 2 ^ 21) :
    SubscribeReadsBack packetId requests tail ↔
      ∀ request ∈ requests, (isTopicFilterValid request.1).1 = true := by
  obtain ⟨p, header, hp, hs, hread⟩ := exists_requestBytes packetId hreq hlen
  rw [List.append_assoc] at hs
  constructor
  · rintro ⟨p', bytes, q, hp', hs', hdecode, -, hentries⟩
    obtain rfl := Except.ok.inj (hp.symm.trans hp')
    obtain rfl := Except.ok.inj (hs.symm.trans hs')
    rw [readSubscribe, List.append_assoc, bind_apply_of_ok (hread _)] at hdecode
    obtain ⟨n, s₁, -, h⟩ := bind_eq_ok hdecode
    obtain ⟨entries, s₂, hloop, h⟩ := bind_eq_ok h
    obtain ⟨-, h⟩ := rejectIf_bind_eq_ok h
    cases h
    -- The loop counted all of the remaining length, for the filters that were asked for.
    have hcount := le_countedLength (by dsimp only; omega) hloop
    have hfilters := congrArg (List.map Prod.fst) hentries
    simp only [List.map_map, Function.comp_def] at hfilters
    rw [show entries.map SubscribeEntry.topicFilter = requests.map Prod.fst from hfilters] at hcount
    refine List.forall_mem_map.1 (valid_of_countedLength ?_)
    dsimp only at hcount
    omega
  · intro hvalid
    refine ⟨p, _, _, hp, hs, reads_readSubscribe hne hreq hvalid rfl hread tail, rfl, ?_⟩
    rw [List.map_map]
    refine List.map_congr_left fun request hr => ?_
    simp [decodedEntry, decodedQos, hvalid request hr]

/-- Two valid filters are read back. -/
theorem subscribe_reads_back_iff_two :
    SubscribeReadsBack 7 [(ascii ['a'], 1), (ascii ['b', '/', '#'], 0)] [0xc0] ↔
      ∀ request ∈ [(ascii ['a'], 1), (ascii ['b', '/', '#'], 0)],
        (isTopicFilterValid request.1).1 = true := by
  refine subscribe_reads_back_iff 7 _ [0xc0] (by decide) ?_ (by decide)
  refine List.forall_mem_cons.2 ⟨?_, List.forall_mem_singleton.2 ?_⟩
  · exact ⟨by decide, ⟨['a'], by decide, by decide⟩, by decide, by decide⟩
  · exact ⟨by decide, ⟨['b', '/', '#'], by decide, by decide⟩, by decide, by decide⟩

/-- The filter `#a` is not valid. Its QoS is taken for the first byte of the
    length of the next filter, for which the bytes are missing. -/
theorem subscribe_misreads_invalid_filter : ¬∀ (packetId : UInt16) (requests : List (Bytes × Nat))
    (tail : Bytes), requests ≠ [] → (∀ request ∈ requests, Requestable request) →
    2 + writtenLength (requests.map Prod.fst) < 2 ^ 21 →
    SubscribeReadsBack packetId requests tail := by
  intro h
  have hreq : ∀ request ∈ [(ascii ['#', 'a'], 1), (ascii ['b'], 1)], Requestable request := by
    refine List.forall_mem_cons.2 ⟨?_, List.forall_mem_singleton.2 ?_⟩
    · exact ⟨by decide, ⟨['#', 'a'], by decide, by decide⟩, by decide, by decide⟩
    · exact ⟨by decide, ⟨['b'], by decide, by decide⟩, by decide, by decide⟩
  obtain ⟨p, bytes, q, hp, hs, hread, -⟩ := h 7 _ [] (by decide) hreq (by decide)
  have hbytes : (requestSubscribe 7 [(ascii ['#', 'a'], 1), (ascii ['b'], 1)] >>=
      MqttSubscribe.serialize) =
      .ok [0x82, 0x0b, 0x00, 0x07, 0x00, 0x02, 0x23, 0x61, 0x01, 0x00, 0x01, 0x62, 0x01] := by rfl
  rw [hp] at hbytes
  obtain rfl := Except.ok.inj (hs.symm.trans hbytes)
  have herror : readSubscribe
      [0x82, 0x0b, 0x00, 0x07, 0x00, 0x02, 0x23, 0x61, 0x01, 0x00, 0x01, 0x62, 0x01] =
      .error .notEnough := by rfl
  rw [List.append_nil, herror] at hread
  cases hread

end MqttBroker
