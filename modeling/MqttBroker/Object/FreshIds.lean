import MqttBroker.Lib.Search
import MqttBroker.Object.Session

/-!
# Fresh packet ids

`session::new_packet_id` counts up from `_next_packet_id`, modulo `2 ^ 16`, over
`0` and over the ids in one of the three lists of what is waiting for an answer
(`Session.Taken`). It is a search (`newPacketIdLoop_first`), which comes to an
end if any id is left (`newPacketId_fresh`).
-/

namespace MqttBroker

namespace Session

variable {s : Session} {id : UInt16}

/-- The id occurs in none of the lists of what is waiting for an answer. -/
def Unused (s : Session) (id : UInt16) : Prop :=
  (∀ p ∈ s.publishForAck, p.packetId ≠ id) ∧ (∀ p ∈ s.publishForRec, p.packetId ≠ id) ∧
    id ∉ s.packetIdForPubcomp

/-- The id cannot be given to a message. -/
def Taken (s : Session) (id : UInt16) : Prop := id = 0 ∨ ¬s.Unused id

theorem inUse_eq_false_iff : s.inUse id = false ↔ s.Unused id := by
  simp [inUse, Unused, and_assoc]

theorem taken_of_inUse (h : s.inUse id = true) : s.Taken id := by
  refine .inr fun hunused => ?_
  rw [inUse_eq_false_iff.2 hunused] at h
  cases h

theorem not_taken_iff : ¬s.Taken id ↔ id ≠ 0 ∧ s.Unused id := by
  rw [Taken, not_or, Classical.not_not]

/-- The loop is a search upwards, and leaves the counter behind what it finds. -/
theorem newPacketIdLoop_first {fuel : Nat} {next : UInt16} {r : UInt16 × UInt16}
    (h : s.newPacketIdLoop fuel next = some r) :
    FirstFrom (· + 1) s.Taken next r.1 ∧ r.2 = r.1 + 1 := by
  induction fuel generalizing next with
  | zero => cases h
  | succ fuel ih =>
    have hfree {n : UInt16} (h0 : n ≠ 0) (hu : ¬s.inUse n = true) : ¬s.Taken n :=
      not_taken_iff.2 ⟨h0, inUse_eq_false_iff.1 (Bool.eq_false_iff.2 hu)⟩
    rw [newPacketIdLoop] at h
    split_ifs at h with h0 hu hu
    · -- At `0` the loop looks at the next id in the same round.
      obtain ⟨hfirst, hnext⟩ := ih h
      exact ⟨.later (.inl h0) (.later (taken_of_inUse hu) hfirst), hnext⟩
    · cases h
      subst h0
      exact ⟨.later (.inl rfl) (.here (hfree (by decide) hu)), rfl⟩
    · obtain ⟨hfirst, hnext⟩ := ih h
      exact ⟨.later (taken_of_inUse hu) hfirst, hnext⟩
    · cases h
      exact ⟨.here (hfree h0 hu), rfl⟩

theorem iterate_succ (n : Nat) (next : UInt16) : (· + 1)^[n] next = next + UInt16.ofNat n := by
  induction n with
  | zero => exact (UInt16.add_zero next).symm
  | succ n ih =>
    rw [Function.iterate_succ_apply', ih, UInt16.ofNat_add, UInt16.add_assoc]
    rfl

/-- If an id other than `0` is unused, `new_packet_id` returns the first one that it
    meets from the counter upwards, and changes nothing but the counter. -/
theorem newPacketId_fresh (s : Session) (h : ∃ id, id ≠ 0 ∧ s.Unused id) :
    ∃ id, s.newPacketId = some (id, { s with nextPacketId := id + 1 }) ∧ id ≠ 0 ∧ s.Unused id ∧
      ∃ n, id = s.nextPacketId + UInt16.ofNat n ∧
        ∀ m < n, s.Taken (s.nextPacketId + UInt16.ofNat m) := by
  obtain ⟨id₀, h0, hunused⟩ := h
  cases hnew : s.newPacketId with
  | none =>
    have huse := newPacketId_eq_none.1 hnew id₀ h0
    rw [inUse_eq_false_iff.2 hunused] at huse
    cases huse
  | some r =>
    rw [newPacketId, Option.map_eq_some_iff] at hnew
    obtain ⟨⟨id, next⟩, hloop, rfl⟩ := hnew
    obtain ⟨hfirst, hnext⟩ := newPacketIdLoop_first hloop
    obtain rfl : next = id + 1 := hnext
    obtain ⟨hfree, n, hid, htaken⟩ := firstFrom_iff.1 hfirst
    obtain ⟨hne, hunused⟩ := not_taken_iff.1 hfree
    refine ⟨id, rfl, hne, hunused, n, hid.trans (iterate_succ n _), fun m hm => ?_⟩
    rw [← iterate_succ]
    exact htaken m hm

/-- From a counter at its end the search goes on at `1`. -/
theorem newPacketId_fresh_wraps : ∃ id,
    { Session.new with nextPacketId := 0xffff, packetIdForPubcomp := [0xffff] }.newPacketId =
      some (id, { Session.new with nextPacketId := id + 1, packetIdForPubcomp := [0xffff] }) ∧
      id = 1 := by
  obtain ⟨id, hid, -, -, -⟩ := newPacketId_fresh
    { Session.new with nextPacketId := 0xffff, packetIdForPubcomp := [0xffff] }
    ⟨1, by decide, by decide, by decide, by decide⟩
  refine ⟨id, hid, ?_⟩
  have h1 := congrArg (Option.map Prod.fst) hid
  exact (Option.some.inj (h1.symm.trans (by decide +kernel)))

end Session

end MqttBroker
