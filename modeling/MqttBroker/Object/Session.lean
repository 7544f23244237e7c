import Mathlib.Tactic.Common
import MqttBroker.Lib.Keyed
import MqttBroker.Packet.Basic

/-!
# Sessions

`object/subscription.h` and `object/session.cpp`: what the broker keeps of a
client between its connections. A session has its subscriptions, the ids of the
QoS 2 messages it has received and not released (`packetIdForPubrel`), and,
as the sender, the messages and the releases without an answer.

`Session.newPacketId` searches for a free id, and never returns when there is
none: its loop runs on fuel here, which ends exactly in that case
(`newPacketId_eq_none`).
-/

namespace MqttBroker

/-- `subscription`. -/
structure Subscription where
  topicFilter : Bytes
  maxQos : Nat
  isWild : Bool
  deriving DecidableEq

/-- `session`; the subscriptions are a set ordered by their topic filters. -/
structure Session where
  nextPacketId : UInt16
  subscriptions : Keyed Subscription.topicFilter
  packetIdForPubrel : List UInt16
  publishForAck : List MqttPublish
  publishForRec : List MqttPublish
  packetIdForPubcomp : List UInt16

namespace Session

/-- `session()`. -/
def new : Session where
  nextPacketId := 1
  subscriptions := Keyed.empty
  packetIdForPubrel := []
  publishForAck := []
  publishForRec := []
  packetIdForPubcomp := []

variable (s : Session)

/-! ## Packet ids -/

/-- The id belongs to a PUBLISH or a PUBREL waiting for its answer. -/
def inUse (id : UInt16) : Bool :=
  s.publishForAck.any (fun p => p.packetId = id) || s.publishForRec.any (fun p => p.packetId = id) ||
    s.packetIdForPubcomp.contains id

/-- The loop of `session::new_packet_id`, from the counter `next`: the new id
    and the counter after it. -/
def newPacketIdLoop : Nat → UInt16 → Option (UInt16 × UInt16)
  | 0, _ => none
  | fuel + 1, next =>
    let newId := if next = 0 then next + 1 else next
    if s.inUse newId then newPacketIdLoop fuel (newId + 1) else some (newId, newId + 1)

/-- `session::new_packet_id`; `none` when it does not return. -/
def newPacketId : Option (UInt16 × Session) :=
  (s.newPacketIdLoop 65536 s.nextPacketId).map fun (id, next) =>
    (id, { s with nextPacketId := next })

variable {s}

theorem newPacketIdLoop_eq_some {fuel : Nat} {next : UInt16} {r : UInt16 × UInt16}
    (h : s.newPacketIdLoop fuel next = some r) : r.1 ≠ 0 ∧ s.inUse r.1 = false := by
  induction fuel generalizing next with
  | zero => cases h
  | succ fuel ih =>
    rw [newPacketIdLoop] at h
    split_ifs at h with h0 hu hu
    · exact ih h
    · cases h
      subst h0
      exact ⟨by decide, Bool.eq_false_iff.2 hu⟩
    · exact ih h
    · cases h
      exact ⟨h0, Bool.eq_false_iff.2 hu⟩

/-- A new packet id is not zero and not in use; only the counter moves. -/
theorem newPacketId_eq_some {r : UInt16 × Session} (h : s.newPacketId = some r) :
    r.1 ≠ 0 ∧ s.inUse r.1 = false ∧ r.2 = { s with nextPacketId := r.2.nextPacketId } := by
  rw [newPacketId, Option.map_eq_some_iff] at h
  obtain ⟨⟨i, next⟩, hl, he⟩ := h
  cases he
  obtain ⟨h0, hu⟩ := newPacketIdLoop_eq_some hl
  exact ⟨h0, hu, rfl⟩

theorem inUse_of_newPacketIdLoop_eq_none {fuel : Nat} {next : UInt16}
    (h : s.newPacketIdLoop fuel next = none) (j : Nat) (hj : j < fuel)
    (h0 : next + UInt16.ofNat j ≠ 0) : s.inUse (next + UInt16.ofNat j) = true := by
  induction fuel generalizing next j with
  | zero => exact absurd hj (Nat.not_lt_zero j)
  | succ fuel ih =>
    have hstep : ∀ (n : UInt16) (m : Nat), n + 1 + UInt16.ofNat m = n + UInt16.ofNat (m + 1) := by
      intro n m
      rw [UInt16.ofNat_add, UInt16.add_comm (UInt16.ofNat m), UInt16.add_assoc]
      rfl
    rw [newPacketIdLoop] at h
    split_ifs at h with hz hu hu
    · -- The counter is at `0`, which is skipped, so two ids are covered.
      subst hz
      match j, hj, h0 with
      | 0, _, h0 => exact absurd rfl h0
      | 1, _, _ => exact hu
      | j + 2, hj, h0 =>
        rw [← hstep, ← hstep] at h0 ⊢
        exact ih h j (by omega) h0
    · match j, hj, h0 with
      | 0, _, _ =>
        rw [show next + UInt16.ofNat 0 = next from UInt16.add_zero next]
        exact hu
      | j + 1, hj, h0 =>
        rw [← hstep] at h0 ⊢
        exact ih h j (by omega) h0

/-- `new_packet_id` does not return exactly when every id but zero is in use. -/
theorem newPacketId_eq_none : s.newPacketId = none ↔ ∀ id, id ≠ 0 → s.inUse id = true := by
  rw [newPacketId, Option.map_eq_none_iff]
  constructor
  · intro h id h0
    have hid : s.nextPacketId + UInt16.ofNat (id - s.nextPacketId).toNat = id := by
      rw [UInt16.ofNat_toNat, UInt16.add_comm, UInt16.sub_add_cancel]
    rw [← hid] at h0 ⊢
    exact inUse_of_newPacketIdLoop_eq_none h _ (UInt16.toNat_lt _) h0
  · intro h
    cases hl : s.newPacketIdLoop 65536 s.nextPacketId with
    | none => rfl
    | some r =>
      obtain ⟨h0, hu⟩ := newPacketIdLoop_eq_some hl
      rw [h _ h0] at hu
      cases hu

variable (s)

/-! ## Subscriptions -/

/-- `session::add_subscription`. -/
def addSubscription (topicFilter : Bytes) (maxQos : Nat) (isWild : Bool) : Session :=
  { s with subscriptions := s.subscriptions.put ⟨topicFilter, maxQos, isWild⟩ }

/-- `session::delete_subscription`. -/
def deleteSubscription (topicFilter : Bytes) : Session :=
  { s with subscriptions := s.subscriptions.erase topicFilter }

/-! ## Messages without an answer -/

/-- `session::add_packet_id_for_pubrel`. -/
def addPacketIdForPubrel (packetId : UInt16) : Session :=
  { s with packetIdForPubrel := s.packetIdForPubrel ++ [packetId] }

/-- `session::release_packet_id_for_pubrel`. -/
def releasePacketIdForPubrel (packetId : UInt16) : Session :=
  { s with packetIdForPubrel := s.packetIdForPubrel.erase packetId }

/-- `session::add_packet_id_for_pubcomp`. -/
def addPacketIdForPubcomp (packetId : UInt16) : Session :=
  { s with packetIdForPubcomp := s.packetIdForPubcomp ++ [packetId] }

/-- `session::release_packet_id_for_pubcomp`. -/
def releasePacketIdForPubcomp (packetId : UInt16) : Session :=
  { s with packetIdForPubcomp := s.packetIdForPubcomp.erase packetId }

/-- `session::add_publish_for_ack`. -/
def addPublishForAck (publish : MqttPublish) : Session :=
  { s with publishForAck := s.publishForAck ++ [publish] }

/-- `session::release_publish_for_ack`. -/
def releasePublishForAck (packetId : UInt16) : Session :=
  { s with publishForAck := s.publishForAck.eraseP fun p => p.packetId = packetId }

/-- `session::add_publish_for_rec`. -/
def addPublishForRec (publish : MqttPublish) : Session :=
  { s with publishForRec := s.publishForRec ++ [publish] }

/-- `session::release_publish_for_rec`. -/
def releasePublishForRec (packetId : UInt16) : Session :=
  { s with publishForRec := s.publishForRec.eraseP fun p => p.packetId = packetId }

end Session

end MqttBroker
