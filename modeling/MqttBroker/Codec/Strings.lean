import Mathlib.Data.Set.List
import MqttBroker.Codec.RoundTrip
import MqttBroker.Lib.Utf8

/-!
# What `decode_string` takes for a string

The loop goes from one first byte to the next by what the byte announces
(`sequences`), and throws at three kinds of sequences only (`SequenceRejected`):
those that start with U+0000, the surrogates, and one that is cut by the length.
It neither looks at continuation bytes nor at the ranges of the first byte, and
skips what cannot be a first byte at all.

* `reads_decodeString_of_sequences`, `decodeString_rejects`: what is decoded, and
  what is thrown at;
* `sequences_encode`: the sequences of well-formed text are its characters;
* `decodesMqttUtf8_iff`: which buffers are decoded as MQTT demands.
-/

namespace MqttBroker

open Reader

/-! ## The sequences of a string -/

/-- The bytes from each first byte to the next, as the loop moves its index; the
    last may be cut. -/
def sequences : Bytes → List Bytes
  | [] => []
  | ch :: s =>
    (ch :: s.take (codePointWidth ch - 1)) :: sequences (s.drop (codePointWidth ch - 1))
termination_by s => s.length
decreasing_by
  rw [List.length_drop, List.length_cons]
  omega

/-- The sequences the loop throws at. -/
def SequenceRejected (seq : Bytes) : Prop :=
  ∃ ch v, seq = ch :: v ∧
    (ch = 0x00 ∨ v.length + 1 < codePointWidth ch ∨ ch = 0xed ∧ ∃ ch2 ∈ v.head?, 0xa0 ≤ ch2)

/-- What the loop pushes for a sequence: nothing for a byte that is no first
    byte. -/
def pushedBytes : Bytes → Bytes
  | [] => []
  | ch :: v => if ch ≤ 0xf7 then ch :: v else []

theorem sequences_nil : sequences [] = [] := by rw [sequences]

theorem sequences_cons (ch : UInt8) (s : Bytes) : sequences (ch :: s) =
    (ch :: s.take (codePointWidth ch - 1)) :: sequences (s.drop (codePointWidth ch - 1)) := by
  rw [sequences]

theorem codePointWidth_pos (ch : UInt8) : 0 < codePointWidth ch := by
  rw [codePointWidth]
  split_ifs <;> decide

theorem sequences_append {ch : UInt8} {v : Bytes} (hv : v.length + 1 = codePointWidth ch)
    (u : Bytes) : sequences (ch :: (v ++ u)) = (ch :: v) :: sequences u := by
  have hwidth : codePointWidth ch - 1 = v.length := by omega
  rw [sequences_cons, hwidth, List.take_left, List.drop_left]

theorem sequences_cut {ch : UInt8} {s : Bytes} (hs : s.length + 1 < codePointWidth ch) :
    sequences (ch :: s) = [ch :: s] := by
  rw [sequences_cons, List.take_of_length_le (by omega), List.drop_of_length_le (by omega),
    sequences_nil]

/-- A string is empty, or begins with a sequence that is cut, or with a whole
    one. -/
theorem sequences_induction {P : Bytes → Prop} (nil : P [])
    (cut : ∀ ch s, s.length + 1 < codePointWidth ch → P (ch :: s))
    (whole : ∀ ch v u, v.length + 1 = codePointWidth ch → P u → P (ch :: (v ++ u))) (u : Bytes) :
    P u := by
  induction hn : u.length using Nat.strong_induction_on generalizing u with
  | h n ih =>
    rcases u with _ | ⟨ch, s⟩
    · exact nil
    by_cases hs : s.length + 1 < codePointWidth ch
    · exact cut ch s hs
    · have hpos := codePointWidth_pos ch
      rw [← List.take_append_drop (codePointWidth ch - 1) s]
      rw [List.length_cons] at hn
      refine whole ch _ _ ?_ (ih _ ?_ _ rfl)
      · rw [List.length_take]
        omega
      · rw [List.length_drop]
        omega

theorem sequenceRejected_cons {ch : UInt8} {v : Bytes} : SequenceRejected (ch :: v) ↔
    ch = 0x00 ∨ v.length + 1 < codePointWidth ch ∨ ch = 0xed ∧ ∃ ch2 ∈ v.head?, 0xa0 ≤ ch2 := by
  constructor
  · rintro ⟨_, _, ⟨⟩, h⟩
    exact h
  · exact fun h => ⟨ch, v, rfl, h⟩

/-! ## The loop -/

/-- One sequence is read whole, when it is not thrown at. -/
theorem reads_decodeCodePoint {ch : UInt8} {v : Bytes} (hv : v.length + 1 = codePointWidth ch)
    (h : ¬SequenceRejected (ch :: v)) :
    Reads (decodeCodePoint ch) v (pushedBytes (ch :: v), codePointWidth ch) := by
  rw [sequenceRejected_cons, not_or, not_or] at h
  obtain ⟨h0, -, hs⟩ := h
  have hpushed {b : UInt8} (hb : b ≤ 0xf7) (hch : ch ≤ b) : pushedBytes (ch :: v) = ch :: v :=
    if_pos (UInt8.le_trans hch hb)
  rw [decodeCodePoint, if_neg h0, ← hv]
  rw [codePointWidth] at hv
  by_cases h1 : ch ≤ 0x7f
  · rw [if_pos h1] at hv ⊢
    obtain rfl : v = [] := List.eq_nil_of_length_eq_zero (by omega)
    rw [hpushed (by decide) h1]
    exact reads_pure _
  rw [if_neg h1] at hv ⊢
  by_cases h2 : ch ≤ 0xdf
  · rw [if_pos h2] at hv ⊢
    obtain ⟨c2, rfl⟩ := List.length_eq_one_iff.1 (show v.length = 1 by omega)
    rw [hpushed (by decide) h2]
    exact reads_bind_pure (reads_readUInt8 c2)
  rw [if_neg h2] at hv ⊢
  by_cases h3 : ch ≤ 0xef
  · rw [if_pos h3] at hv ⊢
    obtain ⟨c2, c3, rfl⟩ := List.length_eq_two.1 (show v.length = 2 by omega)
    rw [hpushed (by decide) h3]
    -- Only here is the second byte looked at, for a surrogate.
    refine reads_bind_cons (reads_readUInt8 c2) (reads_rejectIf_bind ?_ ?_)
    · exact fun hc => hs ⟨hc.1, c2, rfl, hc.2⟩
    · exact reads_bind_pure (reads_readUInt8 c3)
  rw [if_neg h3] at hv ⊢
  by_cases h4 : ch ≤ 0xf7
  · rw [if_pos h4] at hv ⊢
    obtain ⟨c2, c3, c4, rfl⟩ := List.length_eq_three.1 (show v.length = 3 by omega)
    rw [hpushed (by decide) h4]
    refine reads_bind_cons (reads_readUInt8 c2) ?_
    exact reads_bind_cons (reads_readUInt8 c3) (reads_bind_pure (reads_readUInt8 c4))
  · -- No branch of `decode_string` is for such a byte: it is counted, and not pushed.
    rw [if_neg h4] at hv ⊢
    obtain rfl : v = [] := List.eq_nil_of_length_eq_zero (by omega)
    rw [pushedBytes, if_neg h4]
    exact reads_pure _

/-- A code point that was decoded was not thrown at. -/
theorem not_rejected_of_decodeCodePoint {ch : UInt8} {v r : Bytes} {x : Bytes × Nat}
    (hv : v.length + 1 = codePointWidth ch) (h : decodeCodePoint ch (v ++ r) = .ok (x, r)) :
    ¬SequenceRejected (ch :: v) := by
  rw [sequenceRejected_cons]
  rintro (rfl | hcut | ⟨rfl, ch2, hch2, hle⟩)
  · rw [decodeCodePoint, if_pos rfl] at h
    cases h
  · omega
  · -- The second byte of a surrogate is read, and thrown at.
    obtain ⟨w, rfl⟩ : ∃ w, v = ch2 :: w := ⟨v.tail, (List.eq_cons_of_mem_head? hch2)⟩
    rw [decodeCodePoint, if_neg (by decide), if_neg (by decide), if_neg (by decide),
      if_pos (by decide)] at h
    obtain ⟨b, s, hb, h⟩ := bind_eq_ok h
    obtain ⟨hok, -⟩ := rejectIf_bind_eq_ok h
    obtain ⟨rfl, -⟩ := List.cons.inj (next_eq_ok hb)
    exact hok ⟨rfl, hle⟩

/-- Where no sequence is thrown at, the loop takes all the bytes. -/
theorem reads_decodeStringLoop {u : Bytes} (h : ∀ seq ∈ sequences u, ¬SequenceRejected seq)
    {fuel : Nat} (hf : u.length ≤ fuel) :
    Reads (decodeStringLoop fuel u.length) u ((sequences u).flatMap pushedBytes) := by
  induction u using sequences_induction generalizing fuel with
  | nil =>
    rw [sequences_nil]
    cases fuel <;> exact reads_pure _
  | cut ch s hs =>
    rw [sequences_cut hs] at h
    exact absurd (sequenceRejected_cons.2 (.inr (.inl hs))) (h _ List.mem_cons_self)
  | whole ch v u hv ih =>
    rw [sequences_append hv] at h ⊢
    obtain ⟨hch, hrest⟩ := List.forall_mem_cons.1 h
    simp only [List.length_cons, List.length_append] at hf ⊢
    obtain ⟨fuel, rfl⟩ : ∃ n, fuel = n + 1 := ⟨fuel - 1, by omega⟩
    rw [decodeStringLoop, if_neg (by omega), List.flatMap_cons]
    refine reads_bind_cons (reads_readUInt8 ch) (reads_bind (reads_decodeCodePoint hv hch) ?_)
    have hleft : v.length + u.length + 1 - codePointWidth ch = u.length := by omega
    refine reads_rejectIf_bind (by omega) ?_
    rw [hleft]
    exact reads_bind_pure (ih hrest (by omega))

/-- A string the loop took was not thrown at. -/
theorem not_rejected_of_decodeStringLoop {u t : Bytes} {fuel : Nat} {x : Bytes × Bytes}
    (hf : u.length ≤ fuel) (h : decodeStringLoop fuel u.length (u ++ t) = .ok x) :
    ∀ seq ∈ sequences u, ¬SequenceRejected seq := by
  induction u using sequences_induction generalizing fuel x with
  | nil =>
    rw [sequences_nil]
    exact fun _ hs => absurd hs List.not_mem_nil
  | cut ch s hs =>
    obtain ⟨fuel, rfl⟩ : ∃ n, fuel = n + 1 := ⟨fuel - 1, by rw [List.length_cons] at hf; omega⟩
    rw [decodeStringLoop, if_neg (by simp)] at h
    obtain ⟨b, s₁, h1, h⟩ := bind_eq_ok h
    obtain ⟨⟨pushed, moved⟩, s₂, h2, h⟩ := bind_eq_ok h
    obtain ⟨hm, -⟩ := rejectIf_bind_eq_ok h
    obtain ⟨rfl, rfl⟩ := List.cons.inj (next_eq_ok h1)
    obtain ⟨-, -, hmoved, -, -⟩ := decodeCodePoint_spec h2
    -- The bytes behind the string may make up for what is cut; the index does not.
    rw [List.length_cons] at hm
    simp only at hmoved
    omega
  | whole ch v u hv ih =>
    simp only [List.length_cons, List.length_append, List.cons_append, List.append_assoc] at hf h
    obtain ⟨fuel, rfl⟩ : ∃ n, fuel = n + 1 := ⟨fuel - 1, by omega⟩
    rw [decodeStringLoop, if_neg (by omega)] at h
    obtain ⟨b, s₁, h1, h⟩ := bind_eq_ok h
    obtain ⟨⟨pushed, moved⟩, s₂, h2, h⟩ := bind_eq_ok h
    obtain ⟨-, h⟩ := rejectIf_bind_eq_ok h
    obtain ⟨rest, s₃, h3, -⟩ := bind_eq_ok h
    obtain ⟨rfl, rfl⟩ := List.cons.inj (next_eq_ok h1)
    obtain ⟨w, hw, hmoved, hwlen, -⟩ := decodeCodePoint_spec h2
    simp only at hmoved
    obtain ⟨rfl, rfl⟩ := List.append_inj hw (by omega)
    rw [sequences_append hv]
    have hleft : v.length + u.length + 1 - moved = u.length := by omega
    rw [hleft] at h3
    exact List.forall_mem_cons.2 ⟨not_rejected_of_decodeCodePoint hv h2, ih (by omega) h3⟩

/-! ## Strings -/

/-- A string none of whose sequences is thrown at is decoded; what cannot be a
    first byte is dropped. -/
theorem reads_decodeString_of_sequences {u : Bytes} (hu : u.length ≤ 0xffff)
    (h : ∀ seq ∈ sequences u, ¬SequenceRejected seq) :
    Reads decodeString (lengthPrefixed u) ((sequences u).flatMap pushedBytes) := by
  rw [lengthPrefixed_eq hu]
  refine reads_bind (reads_readUInt16 _) ?_
  rw [toNat_ofNat_length hu]
  exact reads_decodeStringLoop h (Nat.le_refl _)

/-- Of a string that was decoded no sequence is thrown at. -/
theorem not_rejected_of_decodeString {u t : Bytes} (hu : u.length ≤ 0xffff) {x : Bytes × Bytes}
    (h : decodeString (lengthPrefixed u ++ t) = .ok x) :
    ∀ seq ∈ sequences u, ¬SequenceRejected seq := by
  rw [lengthPrefixed_eq hu, List.append_assoc] at h
  obtain ⟨n, s, h1, h⟩ := bind_eq_ok h
  rw [reads_readUInt16] at h1
  obtain ⟨rfl, rfl⟩ := Prod.mk.inj (Except.ok.inj h1)
  rw [toNat_ofNat_length hu] at h
  exact not_rejected_of_decodeStringLoop (Nat.le_refl _) h

/-! ## Text -/

/-- Well-formed UTF-8 without U+0000: the bytes of a sequence of characters. -/
def MqttUtf8 (u : Bytes) : Prop :=
  ∃ cs : List Char, Char.ofNat 0 ∉ cs ∧ u = cs.flatMap String.utf8EncodeChar

/-- The bytes of a character are what its first byte announces, and none of them
    is dropped. -/
theorem width_of_isSequence {ch : UInt8} {v : Bytes} (h : Utf8.IsSequence (ch :: v)) :
    v.length + 1 = codePointWidth ch ∧ ch ≤ 0xf7 ∧ ¬(ch = 0xed ∧ ∃ ch2 ∈ v.head?, 0xa0 ≤ ch2) := by
  rcases v with _ | ⟨b, _ | ⟨c, _ | ⟨d, _ | ⟨e, v⟩⟩⟩⟩
  all_goals
    simp only [Utf8.IsSequence, Utf8.IsTail, codePointWidth, UInt8.le_iff_toNat_le,
      ← UInt8.toNat_inj, UInt8.reduceToNat, List.length_cons, List.length_nil, List.head?_cons,
      List.head?_nil, Option.mem_def, Option.some.injEq, reduceCtorEq, false_and,
      exists_false] at h ⊢
  · rw [if_pos h]
    omega
  · split_ifs <;> omega
  · split_ifs <;> omega
  · split_ifs <;> omega

theorem flatten_sequences (u : Bytes) : (sequences u).flatten = u := by
  induction u using sequences_induction with
  | nil => rw [sequences_nil, List.flatten_nil]
  | cut ch s hs => rw [sequences_cut hs, List.flatten_singleton]
  | whole ch v u hv ih => rw [sequences_append hv, List.flatten_cons, ih, List.cons_append]

/-- The sequences of well-formed text are its characters. -/
theorem sequences_encode (cs : List Char) :
    sequences (cs.flatMap String.utf8EncodeChar) = cs.map String.utf8EncodeChar := by
  induction cs with
  | nil => exact sequences_nil
  | cons c cs ih =>
    have hc := Utf8.isSequence_encode c
    rw [List.flatMap_cons, List.map_cons]
    rcases hseq : String.utf8EncodeChar c with _ | ⟨ch, v⟩
    · rw [hseq] at hc
      exact hc.elim
    · rw [hseq] at hc
      rw [List.cons_append, sequences_append (width_of_isSequence hc).1, ih]

/-- A character is not thrown at, unless it is U+0000. -/
theorem not_rejected_of_isSequence {seq : Bytes} (h : Utf8.IsSequence seq) :
    SequenceRejected seq ↔ seq.head? = some 0 := by
  constructor
  · rintro ⟨ch, v, rfl, rfl | hcut | hs⟩
    · rfl
    · exact absurd (width_of_isSequence h).1 (by omega)
    · exact absurd hs (width_of_isSequence h).2.2
  · rcases seq with _ | ⟨ch, v⟩
    · exact fun hz => absurd hz (by simp)
    · exact fun hz => ⟨ch, v, rfl, .inl (Option.some.inj hz)⟩

/-- Text is made of characters none of which is thrown at. -/
theorem mqttUtf8_iff {u : Bytes} : MqttUtf8 u ↔
    (∀ seq ∈ sequences u, Utf8.IsSequence seq) ∧ ∀ seq ∈ sequences u, ¬SequenceRejected seq := by
  constructor
  · rintro ⟨cs, hcs, rfl⟩
    rw [sequences_encode, List.forall_mem_map, List.forall_mem_map]
    refine ⟨fun c _ => Utf8.isSequence_encode c, fun c hc hrej => hcs ?_⟩
    rw [not_rejected_of_isSequence (Utf8.isSequence_encode c), Utf8.head_encode_eq_zero] at hrej
    rwa [← hrej]
  · rintro ⟨hseq, hrej⟩
    obtain ⟨cs, hcs⟩ : sequences u ∈ Set.range (List.map String.utf8EncodeChar) := by
      rw [Set.range_list_map]
      intro seq hs
      obtain ⟨c, rfl⟩ := Utf8.exists_encode (hseq seq hs)
      exact ⟨c, rfl⟩
    have hu : u = cs.flatMap String.utf8EncodeChar := by
      rw [List.flatMap_def, hcs, flatten_sequences]
    refine ⟨cs, fun hz => ?_, hu⟩
    refine hrej (String.utf8EncodeChar (Char.ofNat 0)) (hcs ▸ List.mem_map_of_mem hz) ?_
    exact (not_rejected_of_isSequence (Utf8.isSequence_encode _)).2 (Utf8.head_encode_eq_zero.2 rfl)

/-- Nothing of text is dropped. -/
theorem flatMap_pushedBytes {u : Bytes} (h : ∀ seq ∈ sequences u, Utf8.IsSequence seq) :
    (sequences u).flatMap pushedBytes = u := by
  have hpushed : (sequences u).map pushedBytes = (sequences u).map id := by
    refine List.map_congr_left fun seq hs => ?_
    rcases seq with _ | ⟨ch, v⟩
    · rfl
    · exact if_pos (width_of_isSequence (h _ hs)).2.1
  rw [List.flatMap_def, hpushed, List.map_id, flatten_sequences]

/-- Text is decoded as it is. -/
theorem reads_decodeString_of_mqttUtf8 {u : Bytes} (hlen : u.length ≤ 0xffff) (hu : MqttUtf8 u) :
    Reads decodeString (lengthPrefixed u) u := by
  obtain ⟨hseq, hrej⟩ := mqttUtf8_iff.1 hu
  have hread := reads_decodeString_of_sequences hlen hrej
  rwa [flatMap_pushedBytes hseq] at hread

/-! ## Exactly MQTT's strings -/

/-- From this buffer a string is decoded exactly if the bytes of the announced
    length are there and are text, and what is decoded is these bytes, the buffer
    being left with what follows them. -/
def DecodesMqttUtf8 (sb : Bytes) : Prop :=
  ((∃ a rest, decodeString sb = .ok (a, rest)) ↔
    ∃ u rest, sb = lengthPrefixed u ++ rest ∧ u.length ≤ 0xffff ∧ MqttUtf8 u) ∧
  ∀ a rest, decodeString sb = .ok (a, rest) →
    a.length ≤ 0xffff ∧ sb = lengthPrefixed a ++ rest

/-- `decode_string` decodes exactly MQTT's strings from the buffers that end
    before the announced length, and from those where a sequence is thrown at or
    all of them are the bytes of characters. -/
theorem decodesMqttUtf8_iff (sb : Bytes) : DecodesMqttUtf8 sb ↔
    ∀ u rest, sb = lengthPrefixed u ++ rest → u.length ≤ 0xffff →
      (∃ seq ∈ sequences u, SequenceRejected seq) ∨ ∀ seq ∈ sequences u, Utf8.IsSequence seq := by
  constructor
  · rintro ⟨hiff, -⟩ u rest rfl hlen
    by_contra hnot
    rw [not_or] at hnot
    have hrej : ∀ seq ∈ sequences u, ¬SequenceRejected seq := by
      intro seq hs hr
      exact hnot.1 ⟨seq, hs, hr⟩
    obtain ⟨u', rest', hsb, hlen', hutf⟩ :=
      hiff.1 ⟨_, rest, reads_decodeString_of_sequences hlen hrej rest⟩
    obtain ⟨rfl, -⟩ := lengthPrefixed_append_inj hlen hlen' hsb
    exact hnot.2 (mqttUtf8_iff.1 hutf).1
  · intro h
    have hdecoded {a rest : Bytes} (hd : decodeString sb = .ok (a, rest)) :
        sb = lengthPrefixed a ++ rest ∧ a.length ≤ 0xffff ∧ MqttUtf8 a := by
      obtain ⟨u, rfl, hlen, -⟩ := decodeString_spec hd
      have hrej := not_rejected_of_decodeString hlen hd
      have hseq := (h u rest rfl hlen).resolve_left fun hex => by
        obtain ⟨seq, hs, hr⟩ := hex
        exact hrej seq hs hr
      have hutf : MqttUtf8 u := mqttUtf8_iff.2 ⟨hseq, hrej⟩
      rw [reads_decodeString_of_mqttUtf8 hlen hutf] at hd
      obtain ⟨rfl, -⟩ := Prod.mk.inj (Except.ok.inj hd)
      exact ⟨rfl, hlen, hutf⟩
    refine ⟨⟨?_, ?_⟩, fun a rest hd => ⟨(hdecoded hd).2.1, (hdecoded hd).1⟩⟩
    · rintro ⟨a, rest, hd⟩
      exact ⟨a, rest, hdecoded hd⟩
    · rintro ⟨u, rest, rfl, hlen, hutf⟩
      exact ⟨u, rest, reads_decodeString_of_mqttUtf8 hlen hutf rest⟩

/-- The byte `0xff`, which is in no UTF-8, is decoded as the empty string. -/
theorem decodeString_drops_stray_byte : ¬∀ sb : Bytes, DecodesMqttUtf8 sb := by
  intro h
  obtain ⟨-, hexact⟩ := h [0x00, 0x01, 0xff]
  exact absurd (hexact [] [] (by decide)).2 (by decide)

end MqttBroker
