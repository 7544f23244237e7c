import Mathlib.Logic.Function.Basic
import Mathlib.Logic.Relation
import Mathlib.Tactic.Common
import MqttBroker.Object.Topic

/-!
# The directory

Who is connected and who receives what, without the messages: the clients at the
channels, the registered clients, the stored sessions with their subscriptions,
and the subscribers, by topic filter and client id. It is changed by a handful
of operations only (`Directory.Step` and `Directory.connect`), each one a
complete change, where the broker goes through several.

Client ids may be of several kinds, and not all of them are treated with care:
the invariant `Directory.Valid P` is about the ids satisfying `P`. It ties the
tables together for those:

* the client at a channel is the registered one;
* a registered client has the session stored under its id, and every
  subscription of that session is entered with this very client;
* a session is stored under one id.

Every step keeps it (`Valid.step`), and so do the parts of a connection.
-/

namespace MqttBroker

/-- The state of the connections and of the subscriptions. A subscription is a
    maximum QoS and a table; so is a subscriber, with the client for the table. -/
@[ext]
structure Directory where
  holder : ChannelId → Option MqttClient
  client : Bytes → Option MqttClient
  session : Bytes → Option SessionRef
  subscription : SessionRef → Bytes → Option (Nat × Bool)
  subscriber : Bool → Bytes → Bytes → Option (MqttClient × Nat)
  nextSession : SessionRef
  nextAddr : Nat

namespace Directory

variable (d : Directory)

/-! ## Operations -/

/-- Another object is made. -/
def allocate : Directory := { d with nextAddr := d.nextAddr + 1 }

/-- The client at the channel `k` subscribes. -/
def subscribe (c : MqttClient) (f : Bytes) (q : Nat) (b : Bool) : Directory :=
  { d with
    subscription := fun s g =>
      if s = c.session ∧ g = f then some (q, b) else d.subscription s g
    subscriber := fun b' g x =>
      if b' = b ∧ g = f ∧ x = c.clientId then some (c, q) else d.subscriber b' g x }

/-- The client unsubscribes. -/
def unsubscribe (c : MqttClient) (f : Bytes) (b : Bool) : Directory :=
  { d with
    subscription := fun s g => if s = c.session ∧ g = f then none else d.subscription s g
    subscriber := fun b' g x =>
      if b' = b ∧ g = f ∧ x = c.clientId then none else d.subscriber b' g x }

/-- The client at the channel `k` leaves it. -/
def leave (k : ChannelId) (c : MqttClient) : Directory :=
  { d with
    holder := Function.update d.holder k none
    client := Function.update d.client c.clientId none
    session := if c.cleanSession then Function.update d.session c.clientId none else d.session
    subscriber := fun b f x =>
      if x = c.clientId ∧ (d.subscription c.session f).map Prod.snd = some b then none
      else d.subscriber b f x }

/-- The client `old`, registered under the id `x`, is displaced. -/
def displace (old : MqttClient) (x : Bytes) : Directory :=
  { d with
    holder := Function.update d.holder old.channelId none
    client := Function.update d.client x none }

/-- The client registered under the id `x`, if there is one, is displaced. -/
def takeOver (x : Bytes) : Directory :=
  match d.client x with
  | none => d
  | some old => d.displace old x

/-- A new session is stored under the id of the client. -/
def makeSession (x : Bytes) : Directory :=
  { d with
    session := Function.update d.session x (some d.nextSession)
    subscription := Function.update d.subscription d.nextSession fun _ => none
    nextSession := d.nextSession + 1 }

/-- The client is given its session. The flag tells whether it is a stored one. -/
def attach (c : MqttClient) : MqttClient × Bool × Directory :=
  match if c.cleanSession then none else d.session c.clientId with
  | some s => (c.setSessionPtr s, true, d)
  | none => (c.setSessionPtr d.nextSession, false, d.makeSession c.clientId)

/-- The client is registered, unless its id is taken, and put at the channel `k`. -/
def register (k : ChannelId) (c : MqttClient) : Directory :=
  { d with
    holder := Function.update d.holder k (some c)
    client := fun x => if x = c.clientId ∧ d.client x = none then some c else d.client x }

/-- The client is entered under the subscriptions of its session. -/
def resubscribe (c : MqttClient) : Directory :=
  { d with
    subscriber := fun b f x =>
      match if x = c.clientId then d.subscription c.session f else none with
      | some (q, b') => if b' = b then some (c, q) else d.subscriber b f x
      | none => d.subscriber b f x }

/-- The client, which has its session, enters. -/
def enter (k : ChannelId) (c : MqttClient) : Directory := (d.register k c).resubscribe c

/-- A client connects at the channel `k`, displacing the one registered under
    the id `x`. -/
def connect (k : ChannelId) (c : MqttClient) (x : Bytes) : Directory :=
  let r := (d.takeOver x).attach c
  r.2.2.enter k r.1

/-- What happens to a directory but for connections. A topic filter goes to the
    table `wildOf` tells. -/
inductive Step (wildOf : Bytes → Bool) (d : Directory) : Directory → Prop
  | allocate : Step wildOf d d.allocate
  | subscribe {k : ChannelId} {c : MqttClient} {f : Bytes} {q : Nat} :
      d.holder k = some c → Step wildOf d (d.subscribe c f q (wildOf f))
  | unsubscribe {k : ChannelId} {c : MqttClient} {f : Bytes} :
      d.holder k = some c → Step wildOf d (d.unsubscribe c f (wildOf f))
  | leave {k : ChannelId} {c : MqttClient} :
      d.holder k = some c → Step wildOf d (d.leave k c)

/-! ## The invariant -/

/-- The tables fit together, for the client ids satisfying `P`. -/
structure Valid (P : Bytes → Prop) (d : Directory) : Prop where
  holder_channel {k c} : d.holder k = some c → c.channelId = k
  holder_client {k c} : d.holder k = some c → P c.clientId → d.client c.clientId = some c
  holder_lt {k c} : d.holder k = some c → c.session < d.nextSession
  holder_alone {k c x} : d.holder k = some c → d.session x = some c.session → x = c.clientId
  client_id {x c} : d.client x = some c → c.clientId = x
  client_session {x c} : d.client x = some c → P x → d.session x = some c.session
  client_subscriber {x c f q b} : d.client x = some c → P x →
    d.subscription c.session f = some (q, b) → d.subscriber b f x = some (c, q)
  session_lt {x s} : d.session x = some s → s < d.nextSession
  session_inj {x y s} : d.session x = some s → d.session y = some s → x = y

variable {d} {P : Bytes → Prop} {wildOf : Bytes → Bool} {k k' : ChannelId} {c c' : MqttClient}
  {x y : Bytes} {s : SessionRef}

/-! ## What the operations leave -/

/-- A table that the entry of `a` is taken out of. -/
theorem update_none_eq_some {α β : Type} [DecidableEq α] {g : α → Option β} {a a' : α} {b : β} :
    Function.update g a none a' = some b ↔ a' ≠ a ∧ g a' = some b := by
  rw [Function.update_apply]
  split_ifs with h <;> simp [h]

theorem leave_holder : (d.leave k c).holder k' = some c' ↔ k' ≠ k ∧ d.holder k' = some c' :=
  update_none_eq_some

theorem leave_client :
    (d.leave k c).client x = some c' ↔ x ≠ c.clientId ∧ d.client x = some c' :=
  update_none_eq_some

/-- The session of a client that leaves stays, unless it is a clean one. -/
theorem leave_session : (d.leave k c).session x = some s ↔
    (c.cleanSession = true → x ≠ c.clientId) ∧ d.session x = some s := by
  simp only [leave]
  split_ifs with hc
  · rw [update_none_eq_some]
    simp [hc]
  · simp [hc]

theorem displace_holder : (d.displace c x).holder k = some c' ↔
    k ≠ c.channelId ∧ d.holder k = some c' :=
  update_none_eq_some

theorem displace_client : (d.displace c x).client y = some c' ↔ y ≠ x ∧ d.client y = some c' :=
  update_none_eq_some

theorem makeSession_session : (d.makeSession x).session y = some s ↔
    y = x ∧ s = d.nextSession ∨ y ≠ x ∧ d.session y = some s := by
  simp only [makeSession, Function.update_apply]
  split_ifs with h <;> simp [h, eq_comm]

theorem enter_holder : (d.enter k c).holder k' = some c' ↔
    k' = k ∧ c' = c ∨ k' ≠ k ∧ d.holder k' = some c' := by
  simp only [enter, register, resubscribe, Function.update_apply]
  split_ifs with h <;> simp [h, eq_comm]

/-- A client that enters is registered, if its id is free. -/
theorem enter_client : (d.enter k c).client x = some c' ↔
    x = c.clientId ∧ d.client x = none ∧ c' = c ∨ d.client x = some c' := by
  simp only [enter, register, resubscribe]
  split_ifs with h
  · simp [h.1, h.1 ▸ h.2, eq_comm]
  · rw [or_iff_right fun hx => h ⟨hx.1, hx.2.1⟩]

/-! ## The steps keep the invariant -/

namespace Valid

/-- The session of the client at a channel is not that of another client. -/
theorem eq_of_session (h : d.Valid P) (hk : d.holder k = some c)
    (hx : d.client x = some c') (hP : P x) (hs : c'.session = c.session) :
    x = c.clientId ∧ c' = c := by
  have hx' := h.holder_alone hk (hs ▸ h.client_session hx hP)
  subst hx'
  exact ⟨rfl, Option.some.inj (hx.symm.trans (h.holder_client hk hP))⟩

theorem subscribe (h : d.Valid P) (hk : d.holder k = some c) (f : Bytes) (q : Nat) (b : Bool) :
    (d.subscribe c f q b).Valid P where
  holder_channel := h.holder_channel
  holder_client := h.holder_client
  holder_lt := h.holder_lt
  holder_alone := h.holder_alone
  client_id := h.client_id
  client_session := h.client_session
  client_subscriber := by
    intro x c' g q' b' hx hP hs
    simp only [Directory.subscribe] at hx hs ⊢
    split_ifs at hs with hnew
    · obtain ⟨hsame, rfl⟩ := hnew
      obtain ⟨rfl, rfl⟩ := h.eq_of_session hk hx hP hsame
      cases hs
      rw [if_pos ⟨rfl, rfl, rfl⟩]
    · rw [if_neg, h.client_subscriber hx hP hs]
      rintro ⟨-, hg, rfl⟩
      cases hx.symm.trans (h.holder_client hk hP)
      exact hnew ⟨rfl, hg⟩
  session_lt := h.session_lt
  session_inj := h.session_inj

theorem unsubscribe (h : d.Valid P) (hk : d.holder k = some c) (f : Bytes) (b : Bool) :
    (d.unsubscribe c f b).Valid P where
  holder_channel := h.holder_channel
  holder_client := h.holder_client
  holder_lt := h.holder_lt
  holder_alone := h.holder_alone
  client_id := h.client_id
  client_session := h.client_session
  client_subscriber := by
    intro x c' g q' b' hx hP hs
    simp only [Directory.unsubscribe] at hx hs ⊢
    split_ifs at hs with hgone
    rw [if_neg, h.client_subscriber hx hP hs]
    rintro ⟨-, hg, rfl⟩
    cases hx.symm.trans (h.holder_client hk hP)
    exact hgone ⟨rfl, hg⟩
  session_lt := h.session_lt
  session_inj := h.session_inj

theorem leave (h : d.Valid P) (hk : d.holder k = some c) : (d.leave k c).Valid P where
  holder_channel hk' := h.holder_channel (leave_holder.1 hk').2
  holder_client := by
    intro k' c' hk' hP
    obtain ⟨hkk, hkd⟩ := leave_holder.1 hk'
    have hc' := h.holder_client hkd hP
    refine leave_client.2 ⟨fun hid => ?_, hc'⟩
    -- Two clients registered under one id are one, at one channel.
    rw [hid] at hP hc'
    obtain rfl := Option.some.inj (hc'.symm.trans (h.holder_client hk hP))
    exact hkk ((h.holder_channel hkd).symm.trans (h.holder_channel hk))
  holder_lt hk' := h.holder_lt (leave_holder.1 hk').2
  holder_alone hk' hx := h.holder_alone (leave_holder.1 hk').2 (leave_session.1 hx).2
  client_id hx := h.client_id (leave_client.1 hx).2
  client_session := by
    intro x c' hx hP
    obtain ⟨hne, hx⟩ := leave_client.1 hx
    exact leave_session.2 ⟨fun _ => hne, h.client_session hx hP⟩
  client_subscriber := by
    intro x c' f q b hx hP hs
    obtain ⟨hne, hx⟩ := leave_client.1 hx
    simp only [Directory.leave] at hs ⊢
    rw [if_neg fun hc => hne hc.1, h.client_subscriber hx hP hs]
  session_lt hx := h.session_lt (leave_session.1 hx).2
  session_inj hx hy := h.session_inj (leave_session.1 hx).2 (leave_session.1 hy).2

theorem allocate (h : d.Valid P) : d.allocate.Valid P := { h with }

/-- Every step keeps the invariant. -/
theorem step {d' : Directory} (h : d.Valid P) (hd : d.Step wildOf d') : d'.Valid P := by
  cases hd with
  | allocate => exact h.allocate
  | subscribe hk => exact h.subscribe hk _ _ _
  | unsubscribe hk => exact h.unsubscribe hk _ _
  | leave hk => exact h.leave hk

theorem steps {d' : Directory} (h : d.Valid P) (hd : Relation.ReflTransGen (Step wildOf) d d') :
    d'.Valid P := by
  induction hd with
  | refl => exact h
  | tail _ hs ih => exact ih.step hs

/-! ## Connections keep the invariant -/

theorem displace (h : d.Valid P) {old : MqttClient} (hold : d.client x = some old) :
    (d.displace old x).Valid P where
  holder_channel hk' := h.holder_channel (displace_holder.1 hk').2
  holder_client := by
    intro k' c' hk' hP
    obtain ⟨hkk, hkd⟩ := displace_holder.1 hk'
    have hc' := h.holder_client hkd hP
    refine displace_client.2 ⟨?_, hc'⟩
    -- A client at a channel that is registered under the id is the displaced one.
    rintro rfl
    obtain rfl := Option.some.inj (hc'.symm.trans hold)
    exact hkk (h.holder_channel hkd).symm
  holder_lt hk' := h.holder_lt (displace_holder.1 hk').2
  holder_alone hk' hy := h.holder_alone (displace_holder.1 hk').2 hy
  client_id hy := h.client_id (displace_client.1 hy).2
  client_session hy hP := h.client_session (displace_client.1 hy).2 hP
  client_subscriber hy hP hs := h.client_subscriber (displace_client.1 hy).2 hP hs
  session_lt := h.session_lt
  session_inj := h.session_inj

theorem takeOver (h : d.Valid P) (x : Bytes) : (d.takeOver x).Valid P := by
  rw [Directory.takeOver]
  split
  · exact h
  · next hold => exact h.displace hold

theorem makeSession (h : d.Valid P) (hfree : P x → d.client x = none) :
    (d.makeSession x).Valid P where
  holder_channel := h.holder_channel
  holder_client := h.holder_client
  holder_lt hk := Nat.lt_succ_of_lt (h.holder_lt hk)
  holder_alone := by
    intro k c y hk hy
    rcases makeSession_session.1 hy with ⟨-, hs⟩ | ⟨-, hy⟩
    · exact absurd hs (Nat.ne_of_lt (h.holder_lt hk))
    · exact h.holder_alone hk hy
  client_id := h.client_id
  client_session := by
    intro y c hy hP
    refine makeSession_session.2 (.inr ⟨?_, h.client_session hy hP⟩)
    rintro rfl
    cases hy.symm.trans (hfree hP)
  client_subscriber := by
    intro y c f q b hy hP hs
    -- The sessions stored so far are not the new one.
    have hne := Nat.ne_of_lt (h.session_lt (h.client_session hy hP))
    simp only [Directory.makeSession, Function.update_of_ne hne] at hs
    exact h.client_subscriber hy hP hs
  session_lt := by
    intro y s hy
    rcases makeSession_session.1 hy with ⟨-, rfl⟩ | ⟨-, hy⟩
    · exact Nat.lt_succ_self _
    · exact Nat.lt_succ_of_lt (h.session_lt hy)
  session_inj := by
    intro y z s hy hz
    rcases makeSession_session.1 hy with ⟨hyx, hs⟩ | ⟨-, hyd⟩ <;>
      rcases makeSession_session.1 hz with ⟨hzx, hs'⟩ | ⟨-, hzd⟩
    · rw [hyx, hzx]
    · exact absurd hs (Nat.ne_of_lt (h.session_lt hzd))
    · exact absurd hs' (Nat.ne_of_lt (h.session_lt hyd))
    · exact h.session_inj hyd hzd

theorem enter (h : d.Valid P) (hk : c.channelId = k) (hs : d.session c.clientId = some c.session)
    (hfree : P c.clientId → d.client c.clientId = none) : (d.enter k c).Valid P where
  holder_channel := by
    intro k' c' hk'
    rcases enter_holder.1 hk' with ⟨rfl, rfl⟩ | ⟨-, hk'⟩
    · exact hk
    · exact h.holder_channel hk'
  holder_client := by
    intro k' c' hk' hP
    rcases enter_holder.1 hk' with ⟨rfl, rfl⟩ | ⟨-, hk'⟩
    · exact enter_client.2 (.inl ⟨rfl, hfree hP, rfl⟩)
    · exact enter_client.2 (.inr (h.holder_client hk' hP))
  holder_lt := by
    intro k' c' hk'
    rcases enter_holder.1 hk' with ⟨rfl, rfl⟩ | ⟨-, hk'⟩
    · exact h.session_lt hs
    · exact h.holder_lt hk'
  holder_alone := by
    intro k' c' x hk' hx
    rcases enter_holder.1 hk' with ⟨rfl, rfl⟩ | ⟨-, hk'⟩
    · exact h.session_inj hx hs
    · exact h.holder_alone hk' hx
  client_id := by
    intro x c' hx
    rcases enter_client.1 hx with ⟨rfl, -, rfl⟩ | hx
    · rfl
    · exact h.client_id hx
  client_session := by
    intro x c' hx hP
    rcases enter_client.1 hx with ⟨rfl, -, rfl⟩ | hx
    · exact hs
    · exact h.client_session hx hP
  client_subscriber := by
    intro x c' f q b hx hP hsub
    simp only [Directory.enter, Directory.register, Directory.resubscribe]
    rcases enter_client.1 hx with ⟨rfl, -, rfl⟩ | hx
    · rw [if_pos rfl, show d.subscription c'.session f = some (q, b) from hsub]
      simp only [if_pos]
    · -- A client that was there before has another id, as this one was free.
      have hxc : x ≠ c.clientId := by
        rintro rfl
        cases hx.symm.trans (hfree hP)
      rw [if_neg hxc]
      exact h.client_subscriber hx hP hsub
  session_lt := h.session_lt
  session_inj := h.session_inj

end Valid

end Directory

end MqttBroker
