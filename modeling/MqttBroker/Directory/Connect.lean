import MqttBroker.Directory.Basic

/-!
# Connections in the directory

What a connection leaves behind, for the client ids satisfying `P`:

* the invariant `Valid P` is kept (`Valid.connect`);
* that nothing but the subscriptions of registered clients is entered (`Exact`)
  is kept, unless a client with subscriptions is displaced by one asking for a
  clean session; in that case its entries stay (`settled_connect_iff`);
* that a session made clean is stored only as long as its client is registered
  (`CleanLive`) is kept, unless such a client is displaced by one asking for the
  stored session; in that case the session is handed on (`CleanLive.connect`).
-/

namespace MqttBroker

namespace Directory

variable (d : Directory)

/-- The client that connects, with its session. -/
def newcomer (c : MqttClient) (x : Bytes) : MqttClient := ((d.takeOver x).attach c).1

/-- The client that connects is given a stored session. -/
def sessionPresent (c : MqttClient) (x : Bytes) : Bool := ((d.takeOver x).attach c).2.1

variable {d} {P : Bytes → Prop} {wildOf : Bytes → Bool} {k : ChannelId} {c : MqttClient}
  {x y : Bytes}

@[simp] theorem takeOver_session (d : Directory) (x : Bytes) :
    (d.takeOver x).session = d.session := by
  rw [takeOver]
  split <;> rfl

@[simp] theorem takeOver_subscription (d : Directory) (x : Bytes) :
    (d.takeOver x).subscription = d.subscription := by
  rw [takeOver]
  split <;> rfl

@[simp] theorem takeOver_subscriber (d : Directory) (x : Bytes) :
    (d.takeOver x).subscriber = d.subscriber := by
  rw [takeOver]
  split <;> rfl

@[simp] theorem takeOver_nextSession (d : Directory) (x : Bytes) :
    (d.takeOver x).nextSession = d.nextSession := by
  rw [takeOver]
  split <;> rfl

/-- A takeover detaches who is at the channel of the client it displaces. -/
theorem takeOver_holder : (d.takeOver x).holder k = some c ↔
    d.holder k = some c ∧ ∀ old, d.client x = some old → old.channelId ≠ k := by
  rw [takeOver]
  split
  · next hnone => simp [hnone]
  · next old hold =>
    rw [displace_holder, hold, and_comm]
    simp [eq_comm]

/-- Nobody is put at a channel. -/
theorem holder_of_takeOver (h : (d.takeOver x).holder k = some c) : d.holder k = some c :=
  (takeOver_holder.1 h).1

/-- Only a connection puts a client at a channel. -/
theorem Step.holder {d' : Directory} (hd : d.Step wildOf d') (h : d'.holder k = some c) :
    d.holder k = some c := by
  cases hd with
  | allocate => exact h
  | subscribe => exact h
  | unsubscribe => exact h
  | leave => exact (leave_holder.1 h).2

/-- Only a connection stores a session. -/
theorem Step.session {d' : Directory} (hd : d.Step wildOf d') {s : SessionRef}
    (h : d'.session x = some s) : d.session x = some s := by
  cases hd with
  | allocate => exact h
  | subscribe => exact h
  | unsubscribe => exact h
  | leave => exact (leave_session.1 h).2

/-- Only the id `x` loses its client. -/
theorem takeOver_client (d : Directory) (x y : Bytes) :
    (d.takeOver x).client y = if y = x then none else d.client y := by
  rw [takeOver]
  split
  · next hnone =>
    split_ifs with hyx
    · rw [hyx, hnone]
    · rfl
  · exact Function.update_apply _ _ _ _

/-- The directory after a connection with a stored session. -/
theorem connect_eq_of_present {s : SessionRef} (k : ChannelId) (hc : c.cleanSession = false)
    (hs : d.session c.clientId = some s) (x : Bytes) :
    d.newcomer c x = c.setSessionPtr s ∧ d.sessionPresent c x = true ∧
      d.connect k c x = (d.takeOver x).enter k (c.setSessionPtr s) := by
  have h : (d.takeOver x).attach c = (c.setSessionPtr s, true, d.takeOver x) := by
    rw [attach, takeOver_session, hc, hs]
    rfl
  exact ⟨by rw [newcomer, h], by rw [sessionPresent, h], by rw [connect, h]⟩

theorem attach_of_fresh (hc : c.cleanSession = true ∨ d.session c.clientId = none) (x : Bytes) :
    (d.takeOver x).attach c =
      (c.setSessionPtr d.nextSession, false, (d.takeOver x).makeSession c.clientId) := by
  rw [attach, takeOver_session]
  rcases hc with hc | hc
  · rw [hc, takeOver_nextSession]
    rfl
  · rw [hc, ite_self, takeOver_nextSession]

/-- The directory after a connection with a new session. -/
theorem connect_eq_of_fresh (k : ChannelId)
    (hc : c.cleanSession = true ∨ d.session c.clientId = none) (x : Bytes) :
    d.newcomer c x = c.setSessionPtr d.nextSession ∧ d.sessionPresent c x = false ∧
      d.connect k c x =
        ((d.takeOver x).makeSession c.clientId).enter k (c.setSessionPtr d.nextSession) := by
  have h := attach_of_fresh hc x
  exact ⟨by rw [newcomer, h], by rw [sessionPresent, h], by rw [connect, h]⟩

/-- A connection has one of two forms. -/
theorem connect_cases (d : Directory) (k : ChannelId) (c : MqttClient) (x : Bytes) :
    (∃ s, c.cleanSession = false ∧ d.session c.clientId = some s ∧
      d.newcomer c x = c.setSessionPtr s ∧ d.sessionPresent c x = true ∧
      d.connect k c x = (d.takeOver x).enter k (c.setSessionPtr s)) ∨
    ((c.cleanSession = true ∨ d.session c.clientId = none) ∧
      d.newcomer c x = c.setSessionPtr d.nextSession ∧ d.sessionPresent c x = false ∧
      d.connect k c x =
        ((d.takeOver x).makeSession c.clientId).enter k (c.setSessionPtr d.nextSession)) := by
  by_cases hc : c.cleanSession = true
  · exact .inr ⟨.inl hc, connect_eq_of_fresh k (.inl hc) x⟩
  · rw [Bool.not_eq_true] at hc
    rcases hs : d.session c.clientId with _ | s
    · exact .inr ⟨.inr rfl, connect_eq_of_fresh k (.inr hs) x⟩
    · exact .inl ⟨s, hc, rfl, connect_eq_of_present k hc hs x⟩

@[simp] theorem newcomer_clientId (d : Directory) (c : MqttClient) (x : Bytes) :
    (d.newcomer c x).clientId = c.clientId := by
  rcases connect_cases d 0 c x with ⟨_, -, -, hn, -⟩ | ⟨-, hn, -⟩ <;> rw [hn] <;> rfl

@[simp] theorem newcomer_cleanSession (d : Directory) (c : MqttClient) (x : Bytes) :
    (d.newcomer c x).cleanSession = c.cleanSession := by
  rcases connect_cases d 0 c x with ⟨_, -, -, hn, -⟩ | ⟨-, hn, -⟩ <;> rw [hn] <;> rfl

@[simp] theorem newcomer_channelId (d : Directory) (c : MqttClient) (x : Bytes) :
    (d.newcomer c x).channelId = c.channelId := by
  rcases connect_cases d 0 c x with ⟨_, -, -, hn, -⟩ | ⟨-, hn, -⟩ <;> rw [hn] <;> rfl

@[simp] theorem newcomer_addr (d : Directory) (c : MqttClient) (x : Bytes) :
    (d.newcomer c x).addr = c.addr := by
  rcases connect_cases d 0 c x with ⟨_, -, -, hn, -⟩ | ⟨-, hn, -⟩ <;> rw [hn] <;> rfl

@[simp] theorem connect_nextAddr (d : Directory) (k : ChannelId) (c : MqttClient) (x : Bytes) :
    (d.connect k c x).nextAddr = d.nextAddr := by
  have htake : (d.takeOver x).nextAddr = d.nextAddr := by
    rw [takeOver]
    split <;> rfl
  rcases connect_cases d k c x with ⟨_, -, -, -, -, heq⟩ | ⟨-, -, -, heq⟩ <;> rw [heq] <;> exact htake

@[simp] theorem connect_holder (d : Directory) (k : ChannelId) (c : MqttClient) (x : Bytes) :
    (d.connect k c x).holder =
      Function.update (d.takeOver x).holder k (some (d.newcomer c x)) := by
  rcases connect_cases d k c x with ⟨_, -, -, hn, -, heq⟩ | ⟨-, hn, -, heq⟩ <;> rw [heq, hn] <;> rfl

theorem connect_client (d : Directory) (k : ChannelId) (c : MqttClient) (x y : Bytes) :
    (d.connect k c x).client y =
      if y = c.clientId ∧ (d.takeOver x).client y = none then some (d.newcomer c x)
      else (d.takeOver x).client y := by
  rcases connect_cases d k c x with ⟨_, -, -, hn, -, heq⟩ | ⟨-, hn, -, heq⟩ <;> rw [heq, hn] <;> rfl

/-- The client that connects is registered, where it displaces its id. -/
theorem connect_client_self (hx : x = c.clientId) :
    (d.connect k c x).client c.clientId = some (d.newcomer c x) := by
  rw [connect_client, takeOver_client, if_pos hx.symm, if_pos ⟨rfl, rfl⟩]

/-- Nobody else is registered or displaced. -/
theorem connect_client_of_ne (hx : d.client x = none ∨ x = c.clientId) (hy : y ≠ c.clientId) :
    (d.connect k c x).client y = d.client y := by
  rw [connect_client, if_neg fun h => hy h.1, takeOver_client]
  split_ifs with hyx
  · subst hyx
    exact (hx.resolve_right hy).symm
  · rfl

theorem connect_session (d : Directory) (k : ChannelId) (c : MqttClient) (x y : Bytes) :
    (d.connect k c x).session y =
      if y = c.clientId then some (d.newcomer c x).session else d.session y := by
  rcases connect_cases d k c x with ⟨s, -, hs, hn, -, heq⟩ | ⟨-, hn, -, heq⟩ <;> rw [heq, hn]
  · simp only [enter, register, resubscribe, takeOver_session, MqttClient.setSessionPtr_session]
    split_ifs with hy
    · rw [hy, hs]
    · rfl
  · simp [enter, register, resubscribe, makeSession, Function.update_apply]

theorem connect_nextSession (d : Directory) (k : ChannelId) (c : MqttClient) (x : Bytes) :
    (d.connect k c x).nextSession =
      if d.sessionPresent c x = true then d.nextSession else d.nextSession + 1 := by
  rcases connect_cases d k c x with ⟨_, -, -, -, hp, heq⟩ | ⟨-, -, hp, heq⟩ <;> rw [heq, hp] <;>
    simp [enter, register, resubscribe, makeSession]

theorem connect_subscription (d : Directory) (k : ChannelId) (c : MqttClient) (x : Bytes)
    (s : SessionRef) (f : Bytes) : (d.connect k c x).subscription s f =
      if d.sessionPresent c x = false ∧ s = d.nextSession then none else d.subscription s f := by
  rcases connect_cases d k c x with ⟨_, -, -, -, hp, heq⟩ | ⟨-, -, hp, heq⟩ <;> rw [heq, hp]
  · simp [enter, register, resubscribe]
  · simp only [enter, register, resubscribe, makeSession, takeOver_subscription, takeOver_nextSession,
      Function.update_apply, true_and, apply_ite (fun g : Bytes → Option (Nat × Bool) => g f)]

theorem connect_subscriber (d : Directory) (k : ChannelId) (c : MqttClient) (x : Bytes) (b : Bool)
    (f y : Bytes) : (d.connect k c x).subscriber b f y =
      match if y = c.clientId then
        (d.connect k c x).subscription (d.newcomer c x).session f else none with
      | some (q, b') => if b' = b then some (d.newcomer c x, q) else d.subscriber b f y
      | none => d.subscriber b f y := by
  rcases connect_cases d k c x with ⟨_, -, -, hn, -, heq⟩ | ⟨-, hn, -, heq⟩ <;>
    rw [heq, hn, ← takeOver_subscriber d x] <;> rfl

/-- The session of the client is the stored one, or the next one. -/
theorem newcomer_session (d : Directory) (c : MqttClient) (x : Bytes) :
    if d.sessionPresent c x then
      c.cleanSession = false ∧ d.session c.clientId = some (d.newcomer c x).session
    else (d.newcomer c x).session = d.nextSession := by
  rcases connect_cases d 0 c x with ⟨s, hc, hs, hn, hp, -⟩ | ⟨-, hn, hp, -⟩ <;> rw [hp, hn]
  · exact ⟨hc, hs⟩
  · rfl

/-- A new session has no subscriptions to enter. -/
theorem register_eq_connect (k : ChannelId) (hp : d.sessionPresent c x = false) :
    ((d.takeOver x).attach c).2.2.register k (d.newcomer c x) = d.connect k c x := by
  rcases connect_cases d k c x with ⟨_, -, -, -, hp', -⟩ | ⟨hc, hn, -, -⟩
  · cases hp.symm.trans hp'
  · have hnone : ∀ f, (d.connect k c x).subscription (d.newcomer c x).session f = none := by
      intro f
      rw [connect_subscription, hn, if_pos ⟨hp, rfl⟩]
    refine Directory.ext rfl rfl rfl rfl (funext fun b => funext fun f => funext fun y => ?_) rfl rfl
    rw [connect_subscriber, hnone, ite_self, attach_of_fresh hc]
    show (d.takeOver x).subscriber b f y = d.subscriber b f y
    rw [takeOver_subscriber]

/-- A connection keeps the invariant, where it finds its client id free. -/
theorem Valid.connect (h : d.Valid P) (hk : c.channelId = k)
    (hfree : P c.clientId → (d.takeOver x).client c.clientId = none) :
    (d.connect k c x).Valid P := by
  rcases connect_cases d k c x with ⟨s, -, hs, -, -, heq⟩ | ⟨-, -, -, heq⟩
  · rw [heq]
    exact (h.takeOver x).enter hk (by rwa [takeOver_session]) hfree
  · rw [heq]
    refine ((h.takeOver x).makeSession hfree).enter hk ?_ hfree
    simp only [Directory.makeSession, takeOver_nextSession, MqttClient.setSessionPtr_clientId,
      MqttClient.setSessionPtr_session, Function.update_self]

/-! ## Subscriptions of displaced clients -/

/-- Nothing but the subscriptions of registered clients is entered, for the
    client ids satisfying `P`. -/
structure Exact (P : Bytes → Prop) (wildOf : Bytes → Bool) (d : Directory) : Prop where
  wild {s f q b} : d.subscription s f = some (q, b) → b = wildOf f
  entry {b f x c q} : d.subscriber b f x = some (c, q) → P x →
    d.client x = some c ∧ d.subscription c.session f = some (q, b)

namespace Exact

theorem subscribe (he : d.Exact P wildOf) (h : d.Valid P) (hk : d.holder k = some c) (f : Bytes)
    (q : Nat) : (d.subscribe c f q (wildOf f)).Exact P wildOf where
  wild := by
    intro s g q' b' hs
    simp only [Directory.subscribe] at hs
    split_ifs at hs with hnew
    · obtain ⟨-, rfl⟩ := hnew
      cases hs
      rfl
    · exact he.wild hs
  entry := by
    intro b g x c' q' hx hP
    simp only [Directory.subscribe] at hx ⊢
    split_ifs at hx with hnew
    · obtain ⟨rfl, rfl, rfl⟩ := hnew
      cases hx
      exact ⟨h.holder_client hk hP, if_pos ⟨rfl, rfl⟩⟩
    · obtain ⟨hc', hs⟩ := he.entry hx hP
      refine ⟨hc', ?_⟩
      rw [if_neg, hs]
      rintro ⟨hsame, rfl⟩
      exact hnew ⟨he.wild hs, rfl, (h.eq_of_session hk hc' hP hsame).1⟩

theorem unsubscribe (he : d.Exact P wildOf) (h : d.Valid P) (hk : d.holder k = some c) (f : Bytes) :
    (d.unsubscribe c f (wildOf f)).Exact P wildOf where
  wild := by
    intro s g q' b' hs
    simp only [Directory.unsubscribe] at hs
    split_ifs at hs
    exact he.wild hs
  entry := by
    intro b g x c' q' hx hP
    simp only [Directory.unsubscribe] at hx ⊢
    split_ifs at hx with hgone
    obtain ⟨hc', hs⟩ := he.entry hx hP
    refine ⟨hc', ?_⟩
    rw [if_neg, hs]
    rintro ⟨hsame, rfl⟩
    exact hgone ⟨he.wild hs, rfl, (h.eq_of_session hk hc' hP hsame).1⟩

theorem leave (he : d.Exact P wildOf) (h : d.Valid P) (hk : d.holder k = some c) :
    (d.leave k c).Exact P wildOf where
  wild := he.wild
  entry := by
    intro b g x c' q' hx hP
    simp only [Directory.leave] at hx
    split_ifs at hx with hgone
    obtain ⟨hc', hs⟩ := he.entry hx hP
    refine ⟨leave_client.2 ⟨?_, hc'⟩, hs⟩
    rintro rfl
    -- The entry is one of the client that leaves, so it is gone.
    cases hc'.symm.trans (h.holder_client hk hP)
    exact hgone ⟨rfl, by rw [hs]; rfl⟩

theorem allocate (he : d.Exact P wildOf) : d.allocate.Exact P wildOf := { he with }

/-- Every step keeps the entries exact. -/
theorem step {d' : Directory} (he : d.Exact P wildOf) (h : d.Valid P) (hd : d.Step wildOf d') :
    d'.Exact P wildOf := by
  cases hd with
  | allocate => exact he.allocate
  | subscribe hk => exact he.subscribe h hk _ _
  | unsubscribe hk => exact he.unsubscribe h hk _
  | leave hk => exact he.leave h hk

theorem steps {d' : Directory} (he : d.Exact P wildOf) (h : d.Valid P)
    (hd : Relation.ReflTransGen (Step wildOf) d d') : d'.Exact P wildOf := by
  induction hd with
  | refl => exact he
  | tail hs hlast ih => exact ih.step (h.steps hs) hlast

end Exact

/-- What is entered under the id of the client is a subscription of its own. -/
def Settled (d : Directory) (c : MqttClient) : Prop :=
  ∀ b f c' q, d.subscriber b f c.clientId = some (c', q) →
    c' = c ∧ (d.subscription c.session f).isSome

/-- No client with subscriptions is displaced by one asking for a clean session. -/
def Displaces (d : Directory) (c : MqttClient) (x : Bytes) : Prop :=
  ∃ old f, d.client x = some old ∧ c.cleanSession = true ∧
    (d.subscription old.session f).isSome

/-- An entry under the id of the client that connects is one of its session. -/
theorem subscription_newcomer (h : d.Valid P) (he : d.Exact P wildOf) (hP : P c.clientId)
    (hd : ¬d.Displaces c c.clientId) {b : Bool} {f : Bytes} {c' : MqttClient} {q : Nat}
    (hx : d.subscriber b f c.clientId = some (c', q)) :
    (d.connect k c c.clientId).subscription (d.newcomer c c.clientId).session f = some (q, b) := by
  obtain ⟨hc', hs'⟩ := he.entry hx hP
  have hstored := h.client_session hc' hP
  rcases connect_cases d k c c.clientId with ⟨s, -, hs, hn, hp, -⟩ | ⟨hc, -⟩
  · obtain rfl := Option.some.inj (hstored.symm.trans hs)
    rw [connect_subscription, hp, hn, if_neg (fun h => nomatch h.1)]
    exact hs'
  · rcases hc with hc | hc
    · exact absurd ⟨c', f, hc', hc, by rw [hs']; rfl⟩ hd
    · cases hstored.symm.trans hc

/-- The entries of the client that connects are its own exactly when it
    displaces no subscriptions. -/
theorem settled_connect_iff (h : d.Valid P) (he : d.Exact P wildOf) (hP : P c.clientId) :
    (d.connect k c c.clientId).Settled (d.newcomer c c.clientId) ↔
      ¬d.Displaces c c.clientId := by
  constructor
  · rintro hset ⟨old, f, hold, hc, hsub⟩
    obtain ⟨hn, hp, -⟩ := connect_eq_of_fresh (d := d) k (.inl hc) c.clientId
    obtain ⟨⟨q, b⟩, hsub⟩ := Option.isSome_iff_exists.1 hsub
    have hnone : (d.connect k c c.clientId).subscription (d.newcomer c c.clientId).session f =
        none := by
      rw [connect_subscription, hn, if_pos ⟨hp, rfl⟩]
    -- The entry of the displaced client is still there.
    have hentry : (d.connect k c c.clientId).subscriber b f c.clientId = some (old, q) := by
      rw [connect_subscriber, if_pos rfl, hnone]
      exact h.client_subscriber hold hP hsub
    have := (hset b f old q (by rwa [newcomer_clientId])).2
    rw [hnone] at this
    cases this
  · intro hd b f c' q hx
    rw [newcomer_clientId, connect_subscriber, if_pos rfl] at hx
    split at hx
    · next q' b' hsub =>
      refine ⟨?_, by rw [hsub]; rfl⟩
      split_ifs at hx with hb
      · cases hx
        rfl
      · cases hsub.symm.trans (subscription_newcomer h he hP hd hx)
        exact absurd rfl hb
    · next hnone => cases hnone.symm.trans (subscription_newcomer h he hP hd hx)

/-- A connection that displaces no subscriptions keeps the entries exact. -/
theorem Exact.connect (he : d.Exact P wildOf) (h : d.Valid P)
    (hx : d.client x = none ∨ x = c.clientId) (hxP : P c.clientId → x = c.clientId)
    (hd : P x → ¬d.Displaces c x) : (d.connect k c x).Exact P wildOf := by
  have hold : ∀ {s f q b}, (d.connect k c x).subscription s f = some (q, b) →
      d.subscription s f = some (q, b) := by
    intro s f q b hs
    rw [connect_subscription] at hs
    split_ifs at hs
    exact hs
  refine ⟨fun hs => he.wild (hold hs), ?_⟩
  intro b f y c' q hy hP
  by_cases hyc : y = c.clientId
  · subst hyc
    obtain rfl := hxP hP
    have hset := (settled_connect_iff (k := k) h he hP).2 (hd hP)
    obtain ⟨rfl, -⟩ := hset b f c' q (by rwa [newcomer_clientId])
    refine ⟨connect_client_self rfl, ?_⟩
    rw [connect_subscriber, if_pos rfl] at hy
    split at hy
    · next q' b' hsub =>
      split_ifs at hy with hb
      · cases hy
        rwa [hb] at hsub
      · exact subscription_newcomer h he hP (hd hP) hy
    · exact subscription_newcomer h he hP (hd hP) hy
  · rw [connect_subscriber, if_neg hyc] at hy
    obtain ⟨hc', hs⟩ := he.entry hy hP
    have hlt := h.session_lt (h.client_session hc' hP)
    constructor
    · rw [connect_client_of_ne hx hyc, hc']
    · rw [connect_subscription, if_neg fun h => Nat.ne_of_lt hlt h.2, hs]

/-! ## Sessions made clean -/

/-- A session made clean (`born`) is stored only as long as a client asking for a
    clean session is registered, for the client ids satisfying `P`. -/
structure CleanLive (P : Bytes → Prop) (born : SessionRef → Prop) (d : Directory) : Prop where
  lt {s} : born s → s < d.nextSession
  live {x s} : d.session x = some s → P x → born s →
    ∃ c, d.client x = some c ∧ c.cleanSession = true
  clean {y old} : d.client y = some old → P y → old.cleanSession = true → born old.session

/-- A client asking for a clean session is displaced by one asking for the
    stored session. -/
def Inherits (d : Directory) (c : MqttClient) (x : Bytes) : Prop :=
  ∃ old, d.client x = some old ∧ old.cleanSession = true ∧ c.cleanSession = false

namespace CleanLive

variable {born : SessionRef → Prop}

theorem allocate (hl : d.CleanLive P born) : d.allocate.CleanLive P born := { hl with }

/-- Every step keeps clean sessions with their clients. -/
theorem step {d' : Directory} (hl : d.CleanLive P born) (h : d.Valid P) (hd : d.Step wildOf d') :
    d'.CleanLive P born := by
  cases hd with
  | allocate => exact hl.allocate
  | subscribe => exact { hl with }
  | unsubscribe => exact { hl with }
  | leave hk =>
    refine ⟨hl.lt, fun hs hP hb => ?_, fun hx hP hclean => hl.clean (leave_client.1 hx).2 hP hclean⟩
    obtain ⟨hkept, hs⟩ := leave_session.1 hs
    obtain ⟨c', hc', hclean⟩ := hl.live hs hP hb
    refine ⟨c', leave_client.2 ⟨?_, hc'⟩, hclean⟩
    rintro rfl
    -- The client that leaves is the registered one, and takes its clean session along.
    cases hc'.symm.trans (h.holder_client hk hP)
    exact hkept hclean rfl

theorem steps {d' : Directory} (hl : d.CleanLive P born) (h : d.Valid P)
    (hd : Relation.ReflTransGen (Step wildOf) d d') : d'.CleanLive P born := by
  induction hd with
  | refl => exact hl
  | tail hs hlast ih => exact ih.step (h.steps hs) hlast

/-- The session given to a client is not one made clean, unless it inherits it. -/
theorem not_born_newcomer (hl : d.CleanLive P born) (hP : P c.clientId)
    (hp : d.sessionPresent c c.clientId = true) (hd : ¬d.Inherits c c.clientId) :
    ¬born (d.newcomer c c.clientId).session := by
  intro hb
  rcases connect_cases d 0 c c.clientId with ⟨s, hc, hs, hn, -⟩ | ⟨-, -, hp', -⟩
  · rw [hn] at hb
    obtain ⟨old, hold, hclean⟩ := hl.live hs hP hb
    exact hd ⟨old, hold, hclean, hc⟩
  · cases hp.symm.trans hp'

/-- A client that inherits is given a session made clean. -/
theorem born_newcomer (hl : d.CleanLive P born) (h : d.Valid P) (hP : P c.clientId)
    (hd : d.Inherits c c.clientId) : d.sessionPresent c c.clientId = true ∧
      born (d.newcomer c c.clientId).session := by
  obtain ⟨old, hold, hclean, hc⟩ := hd
  obtain ⟨hn, hp, -⟩ := connect_eq_of_present 0 hc (h.client_session hold hP) c.clientId
  have hb := hl.clean hold hP hclean
  rw [hn]
  exact ⟨hp, hb⟩

/-- A connection that does not inherit keeps clean sessions with their clients. -/
theorem connect (hl : d.CleanLive P born) (h : d.Valid P)
    (hx : d.client x = none ∨ x = c.clientId) (hxP : P c.clientId → x = c.clientId)
    (hd : P x → ¬d.Inherits c x) {born' : SessionRef → Prop}
    (hborn : ∀ s, born' s ↔ born s ∨
      s = d.nextSession ∧ d.sessionPresent c x = false ∧ c.cleanSession = true) :
    (d.connect k c x).CleanLive P born' where
  lt := by
    intro s hb
    rw [connect_nextSession]
    rcases (hborn s).1 hb with hb | ⟨rfl, hp, -⟩
    · split
      · exact hl.lt hb
      · exact Nat.lt_succ_of_lt (hl.lt hb)
    · rw [hp]
      exact Nat.lt_succ_self _
  live := by
    intro y s hs hP hb
    by_cases hyc : y = c.clientId
    · subst hyc
      obtain rfl := hxP hP
      refine ⟨_, connect_client_self rfl, ?_⟩
      rw [newcomer_cleanSession]
      rw [connect_session, if_pos rfl] at hs
      cases hs
      rcases (hborn _).1 hb with hb | ⟨-, -, hc⟩
      · -- A stored session is not inherited, and a new one was not made before.
        rcases connect_cases d k c c.clientId with ⟨_, -, -, -, hp, -⟩ | ⟨-, hn, -⟩
        · exact absurd hb (hl.not_born_newcomer hP hp (hd hP))
        · rw [hn] at hb
          exact absurd (hl.lt hb) (Nat.lt_irrefl _)
      · exact hc
    · -- Another id keeps its client and its session, which is not the new one.
      rw [connect_session, if_neg hyc] at hs
      rw [connect_client_of_ne hx hyc]
      refine hl.live hs hP ?_
      rcases (hborn s).1 hb with hb | ⟨rfl, -⟩
      · exact hb
      · exact absurd (h.session_lt hs) (Nat.lt_irrefl _)
  clean := by
    intro y old hy hP hclean
    by_cases hyc : y = c.clientId
    · subst hyc
      cases hy.symm.trans (connect_client_self (hxP hP))
      rw [newcomer_cleanSession] at hclean
      obtain ⟨hn, hp, -⟩ := connect_eq_of_fresh (d := d) k (.inl hclean) x
      exact (hborn _).2 (.inr ⟨by rw [hn]; rfl, hp, hclean⟩)
    · rw [connect_client_of_ne hx hyc] at hy
      exact (hborn _).2 (.inl (hl.clean hy hP hclean))

end CleanLive

end Directory

end MqttBroker
