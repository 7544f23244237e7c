import MqttBroker.Codec.Strings
import MqttBroker.Delivery.Granting
import MqttBroker.Directory.Leaving

/-!
# UNSUBSCRIBE packets

The broker only reads an UNSUBSCRIBE, so that what is read back is MQTT's encoding
of it (`encodeUnsubscribe`). A filter is found wild by the same function as in a
SUBSCRIBE, though it need not be valid here: `handle_unsubscribe` looks for it in
the table where `handle_subscribe` entered it (`unsubscribe_reads_back`).
-/

namespace MqttBroker

open Reader

/-! ## Reading an UNSUBSCRIBE -/

/-- The packet id, and each topic filter with its length. -/
def unsubscribeBody (packetId : UInt16) (filters : List Bytes) : Bytes :=
  writeUInt16 packetId ++ filters.flatMap lengthPrefixed

/-- An UNSUBSCRIBE in MQTT. -/
def encodeUnsubscribe (packetId : UInt16) (filters : List Bytes) : Except String Bytes := do
  let header ← FixedHeader.serialize ⟨.unsubscribe, 2, (unsubscribeBody packetId filters).length⟩
  pure (header ++ unsubscribeBody packetId filters)

/-- An UNSUBSCRIBE, from its fixed header on. -/
def readUnsubscribe : PacketReader MqttUnsubscribe := do
  let fh ← decodeFixedHeader
  decodeUnsubscribe fh

/-- The UNSUBSCRIBE for the filters is decoded to them, `tail` being left. -/
def UnsubscribeReadsBack (packetId : UInt16) (filters : List Bytes) (tail : Bytes) : Prop :=
  ∃ bytes q, encodeUnsubscribe packetId filters = .ok bytes ∧
    readUnsubscribe (bytes ++ tail) = .ok (q, tail) ∧ q.packetId = packetId ∧
    q.topicFilters.map UnsubscribeEntry.topicFilter = filters

/-- The entry a filter is decoded to. -/
def unsubscribedEntry (f : Bytes) : UnsubscribeEntry := ⟨f, (isTopicFilterValid f).2⟩

/-- The loop ends with the filters, as it counts the bytes that each of them takes. -/
theorem reads_decodeUnsubscribeLoop {filters : List Bytes}
    (hfilters : ∀ f ∈ filters, f ≠ [] ∧ MqttUtf8 f ∧ f.length ≤ 0xffff) {fuel : Nat}
    (hf : (filters.flatMap lengthPrefixed).length ≤ fuel) :
    Reads (decodeUnsubscribeLoop fuel (filters.flatMap lengthPrefixed).length)
      (filters.flatMap lengthPrefixed) (filters.map unsubscribedEntry) := by
  induction filters generalizing fuel with
  | nil => cases fuel <;> exact reads_pure _
  | cons f filters ih =>
    obtain ⟨⟨hne, hutf, hlen⟩, hfilters⟩ := List.forall_mem_cons.1 hfilters
    rw [List.flatMap_cons, List.length_append, length_lengthPrefixed] at hf ⊢
    obtain ⟨fuel, rfl⟩ : ∃ n, fuel = n + 1 := ⟨fuel - 1, by omega⟩
    rw [decodeUnsubscribeLoop, if_neg (by omega)]
    refine reads_bind (reads_decodeString_of_mqttUtf8 hlen hutf) (reads_rejectIf_bind hne ?_)
    have hremain : ((f.length + 2 + (filters.flatMap lengthPrefixed).length : Nat) : Int) -
        (f.length + 2 : Nat) = (filters.flatMap lengthPrefixed).length := by omega
    rw [hremain]
    exact reads_bind_pure (f := fun entries => unsubscribedEntry f :: entries)
      (ih hfilters (by omega))

/-- An UNSUBSCRIBE for filters that are text is read back. -/
theorem unsubscribe_readsBack (packetId : UInt16) {filters : List Bytes} (hne : filters ≠ [])
    (hfilters : ∀ f ∈ filters, f ≠ [] ∧ MqttUtf8 f ∧ f.length ≤ 0xffff)
    (hlen : (unsubscribeBody packetId filters).length < 2 ^ 21) (tail : Bytes) :
    UnsubscribeReadsBack packetId filters tail := by
  have hfh : FixedHeader.Sound ⟨.unsubscribe, 2, (unsubscribeBody packetId filters).length⟩ :=
    FixedHeader.Sound.withLength (m := 0) (by decide) hlen
  obtain ⟨header, hheader, -, hread⟩ := hfh.exists_serialize
  have hbody : (unsubscribeBody packetId filters).length =
      2 + (filters.flatMap lengthPrefixed).length := List.length_append
  have hremain : ((unsubscribeBody packetId filters).length : Int) - 2 =
      (filters.flatMap lengthPrefixed).length := by omega
  have hreads : Reads readUnsubscribe (header ++ unsubscribeBody packetId filters)
      ⟨⟨.unsubscribe, 2, (unsubscribeBody packetId filters).length⟩, packetId,
        filters.map unsubscribedEntry⟩ := by
    refine reads_bind hread (reads_bind (reads_readUInt16 packetId) ?_)
    dsimp only
    rw [hremain]
    refine reads_bind_nil (reads_decodeUnsubscribeLoop hfilters (by omega))
      (reads_rejectIf_bind ?_ (reads_pure _))
    exact fun h => hne (List.map_eq_nil_iff.1 h)
  refine ⟨_, _, ?_, hreads tail, rfl, ?_⟩
  · rw [encodeUnsubscribe, hheader]
    rfl
  · simp [unsubscribedEntry, Function.comp_def]

/-! ## The table of a filter -/

/-- The entry of an UNSUBSCRIBE is for the table in which that of a SUBSCRIBE is entered:
    there a client that is entered is found, and taken out. -/
def SubscribeEntry.UndoneBy (entry : SubscribeEntry) (entry' : UnsubscribeEntry) : Prop :=
  entry'.isWild = entry.isWild ∧ ∀ (w : World) (c : MqttClient),
    (w.subscribe c entry.topicFilter entry.maxQos entry.isWild).subscriberAt
      (.entry entry'.isWild entry'.topicFilter) c.clientId = some ⟨c, entry.maxQos⟩ ∧
    ((w.subscribe c entry.topicFilter entry.maxQos entry.isWild).unsubscribeEntry c
      entry').subscriberAt (.entry entry'.isWild entry'.topicFilter) c.clientId = none

theorem undoneBy_of_isWild {entry : SubscribeEntry} {entry' : UnsubscribeEntry}
    (hf : entry'.topicFilter = entry.topicFilter) (hwild : entry'.isWild = entry.isWild) :
    entry.UndoneBy entry' := by
  refine ⟨hwild, fun w c => ⟨?_, ?_⟩⟩
  · rw [subscriberAt_subscribe, hf, hwild, if_pos ⟨rfl, rfl⟩]
  · refine Option.eq_none_iff_forall_ne_some.2 fun s hs => ?_
    have hid := List.find?_some hs
    rw [decide_eq_true_eq] at hid
    exact (mem_subscribersAt_unsubscribeEntry.1 (List.mem_of_find?_eq_some hs)).2 ⟨rfl, hid⟩

/-- An UNSUBSCRIBE for filters that are text is decoded to them, and what a SUBSCRIBE was
    decoded to and granted is undone by an UNSUBSCRIBE for the same filter. -/
theorem unsubscribe_reads_back :
    (∀ (packetId : UInt16) (filters : List Bytes) (tail : Bytes), filters ≠ [] →
      (∀ f ∈ filters, f ≠ [] ∧ MqttUtf8 f ∧ f.length ≤ 0xffff) →
      (unsubscribeBody packetId filters).length < 2 ^ 21 →
      UnsubscribeReadsBack packetId filters tail) ∧
    ∀ (fh fh' : FixedHeader) (s r s' r' : Bytes) (p : MqttSubscribe) (q : MqttUnsubscribe),
      decodeSubscribe fh s = .ok (p, r) → decodeUnsubscribe fh' s' = .ok (q, r') →
      ∀ entry ∈ p.topicFilters, (isTopicFilterValid entry.topicFilter).1 = true →
      ∀ entry' ∈ q.topicFilters, entry'.topicFilter = entry.topicFilter →
        entry.UndoneBy entry' := by
  refine ⟨fun packetId filters tail hne hfilters hlen =>
    unsubscribe_readsBack packetId hne hfilters hlen tail, ?_⟩
  intro fh fh' s r s' r' p q hp hq entry hentry hvalid entry' hentry' hf
  have hread := (decodeSubscribe_read hp entry hentry).2
  rw [if_pos hvalid] at hread
  refine undoneBy_of_isWild hf ?_
  rw [(decodeUnsubscribe_decoded hq entry' hentry').2, hf, hread.2]

/-- Two filters are read back, and the wild one is looked for in the table where a
    SUBSCRIBE enters it. -/
theorem unsubscribe_reads_back_two :
    UnsubscribeReadsBack 7 [ascii ['a'], ascii ['b', '/', '#']] [0xc0] ∧
      SubscribeEntry.UndoneBy ⟨ascii ['b', '/', '#'], 1, true⟩ ⟨ascii ['b', '/', '#'], true⟩ := by
  obtain ⟨hreads, hundone⟩ := unsubscribe_reads_back
  refine ⟨hreads 7 _ [0xc0] (by decide) ?_ (by decide), ?_⟩
  · refine List.forall_mem_cons.2 ⟨?_, List.forall_mem_singleton.2 ?_⟩
    · exact ⟨by decide, ⟨['a'], by decide, by decide⟩, by decide⟩
    · exact ⟨by decide, ⟨['b', '/', '#'], by decide, by decide⟩, by decide⟩
  · have hp : decodeSubscribe ⟨.subscribe, 2, 8⟩ [0x00, 0x07, 0x00, 0x03, 0x62, 0x2f, 0x23, 0x01] =
        .ok (⟨⟨.subscribe, 2, 8⟩, 7, [⟨ascii ['b', '/', '#'], 1, true⟩]⟩, []) := by decide +kernel
    have hq : decodeUnsubscribe ⟨.unsubscribe, 2, 7⟩ [0x00, 0x07, 0x00, 0x03, 0x62, 0x2f, 0x23] =
        .ok (⟨⟨.unsubscribe, 2, 7⟩, 7, [⟨ascii ['b', '/', '#'], true⟩]⟩, []) := by decide +kernel
    exact hundone _ _ _ _ _ _ _ _ hp hq _ List.mem_cons_self (by decide) _ List.mem_cons_self rfl

end MqttBroker
