import MqttBroker.Directory.Runs

/-!
# Owners of subscriptions

A session belongs to one client at a time, and so does a subscriber entry: what
is entered with a client at a channel is listed in its session
(`Directory.Owned`). A subscription is given up by going through that list, so
that nothing entered with the client is left behind.

Unlike `Directory.Exact`, this says nothing about the entries of clients that are
at no channel any more, and it holds in every reachable state
(`owned_of_reachable`). Of the entries of those clients this much is known, that
their sessions are used under no other client id (`apart_of_reachable`).
-/

namespace MqttBroker

namespace Directory

/-- The sessions of the clients at the channels are their own, and list what is
    entered with these very clients. -/
structure Owned (wildOf : Bytes → Bool) (d : Directory) : Prop where
  key {b f x c q} : d.subscriber b f x = some (c, q) → c.clientId = x
  older {b f x c q} : d.subscriber b f x = some (c, q) → c.addr < d.nextAddr
  holder_older {k c} : d.holder k = some c → c.addr < d.nextAddr
  alone {k k' c c'} : d.holder k = some c → d.holder k' = some c' → c.session = c'.session → k = k'
  wild {s f q b} : d.subscription s f = some (q, b) → b = wildOf f
  listed {k c b f x q} : d.holder k = some c → d.subscriber b f x = some (c, q) →
    (d.subscription c.session f).map Prod.snd = some b

variable {d : Directory} {P : Bytes → Prop} {wildOf : Bytes → Bool} {k : ChannelId} {c : MqttClient}
  {x : Bytes}

namespace Owned

/-- An entry of a client at a channel is in the table its filter is for. -/
theorem eq_wildOf (h : d.Owned wildOf) (hk : d.holder k = some c) {b : Bool} {f : Bytes} {q : Nat}
    (hs : d.subscriber b f x = some (c, q)) : b = wildOf f := by
  obtain ⟨⟨q', b'⟩, hsub, rfl⟩ := Option.map_eq_some_iff.1 (h.listed hk hs)
  exact h.wild hsub

theorem allocate (h : d.Owned wildOf) : d.allocate.Owned wildOf :=
  { h with
    older := fun hs => Nat.lt_succ_of_lt (h.older hs)
    holder_older := fun hk => Nat.lt_succ_of_lt (h.holder_older hk) }

theorem subscribe (h : d.Owned wildOf) (hk : d.holder k = some c) (f : Bytes) (q : Nat) :
    (d.subscribe c f q (wildOf f)).Owned wildOf where
  key hs := by
    simp only [Directory.subscribe] at hs
    split_ifs at hs with hnew
    · cases hs
      exact hnew.2.2.symm
    · exact h.key hs
  older hs := by
    simp only [Directory.subscribe] at hs
    split_ifs at hs
    · cases hs
      exact h.holder_older hk
    · exact h.older hs
  holder_older := h.holder_older
  alone := h.alone
  wild hs := by
    simp only [Directory.subscribe] at hs
    split_ifs at hs with hnew
    · cases hs
      rw [hnew.2]
    · exact h.wild hs
  listed {k' c' b g x q'} hk' hs := by
    simp only [Directory.subscribe] at hs ⊢
    split_ifs at hs with hnew
    · obtain ⟨rfl, rfl, -⟩ := hnew
      cases hs
      rw [if_pos ⟨rfl, rfl⟩]
      rfl
    · split_ifs with hlist
      · -- The session is that of the client itself, and the entry was there before.
        rw [hlist.2] at hs
        rw [h.eq_wildOf hk' hs]
        rfl
      · exact h.listed hk' hs

theorem unsubscribe (h : d.Owned wildOf) (hk : d.holder k = some c) (f : Bytes) :
    (d.unsubscribe c f (wildOf f)).Owned wildOf where
  key hs := by
    simp only [Directory.unsubscribe] at hs
    split_ifs at hs
    exact h.key hs
  older hs := by
    simp only [Directory.unsubscribe] at hs
    split_ifs at hs
    exact h.older hs
  holder_older := h.holder_older
  alone := h.alone
  wild hs := by
    simp only [Directory.unsubscribe] at hs
    split_ifs at hs
    exact h.wild hs
  listed {k' c' b g x q'} hk' hs := by
    simp only [Directory.unsubscribe] at hs ⊢
    split_ifs at hs with hgone
    rw [if_neg]
    · exact h.listed hk' hs
    · -- The session is its own, so the entry is one of the client that unsubscribes.
      rintro ⟨hsession, rfl⟩
      obtain rfl := h.alone hk' hk hsession
      obtain rfl := Option.some.inj (hk'.symm.trans hk)
      exact hgone ⟨h.eq_wildOf hk hs, rfl, (h.key hs).symm⟩

theorem leave (h : d.Owned wildOf) (k : ChannelId) (c : MqttClient) :
    (d.leave k c).Owned wildOf where
  key hs := by
    simp only [Directory.leave] at hs
    split_ifs at hs
    exact h.key hs
  older hs := by
    simp only [Directory.leave] at hs
    split_ifs at hs
    exact h.older hs
  holder_older hk := h.holder_older (leave_holder.1 hk).2
  alone hk hk' := h.alone (leave_holder.1 hk).2 (leave_holder.1 hk').2
  wild := h.wild
  listed hk hs := by
    simp only [Directory.leave] at hs
    split_ifs at hs
    exact h.listed (leave_holder.1 hk).2 hs

theorem step {d' : Directory} (h : d.Owned wildOf) (hd : d.Step wildOf d') : d'.Owned wildOf := by
  cases hd with
  | allocate => exact h.allocate
  | subscribe hk => exact h.subscribe hk _ _
  | unsubscribe hk => exact h.unsubscribe hk _
  | leave hk => exact h.leave _ _

theorem steps {d' : Directory} (h : d.Owned wildOf)
    (hd : Relation.ReflTransGen (Step wildOf) d d') : d'.Owned wildOf := by
  induction hd with
  | refl => exact h
  | tail _ hs ih => exact ih.step hs

end Owned

/-! ## Connections -/

/-- An entry after a connection is one of the client's subscriptions, or was
    there before. -/
theorem connect_subscriber_cases {y : Bytes} {b : Bool} {f : Bytes} {c' : MqttClient} {q : Nat}
    (hs : (d.connect k c x).subscriber b f y = some (c', q)) :
    (c' = d.newcomer c x ∧ y = c.clientId ∧
      (d.connect k c x).subscription (d.newcomer c x).session f = some (q, b)) ∨
    d.subscriber b f y = some (c', q) := by
  rw [connect_subscriber] at hs
  split_ifs at hs with hy
  · cases hsub : (d.connect k c x).subscription (d.newcomer c x).session f with
    | none =>
      rw [hsub] at hs
      exact .inr hs
    | some r =>
      rw [hsub] at hs
      dsimp only at hs
      split_ifs at hs with hb
      · cases hs
        exact .inl ⟨rfl, hy, by rw [← hb]⟩
      · exact .inr hs
  · exact .inr hs

/-- A client after a connection is the new one, or was there before, at another
    channel. -/
theorem connect_holder_cases {k' : ChannelId} {c' : MqttClient}
    (hk : (d.connect k c x).holder k' = some c') :
    (k' = k ∧ c' = d.newcomer c x) ∨ (d.takeOver x).holder k' = some c' := by
  rw [connect_holder, Function.update_apply] at hk
  split_ifs at hk with hkk
  · exact .inl ⟨hkk, (Option.some.inj hk).symm⟩
  · exact .inr hk

/-- A session that is resumed is not that of a client that stays. -/
theorem newcomer_session_ne (hv : d.Valid P)
    (hresume : c.cleanSession = false → x = c.clientId ∧ P c.clientId) {k' : ChannelId}
    {c' : MqttClient} (hk : (d.takeOver x).holder k' = some c') :
    (d.newcomer c x).session ≠ c'.session := by
  intro hs
  have hold := holder_of_takeOver hk
  have hsession := d.newcomer_session c x
  split_ifs at hsession with hp
  · obtain ⟨hclean, hstored⟩ := hsession
    obtain ⟨rfl, hP⟩ := hresume hclean
    rw [hs] at hstored
    have hid := hv.holder_alone hold hstored
    have hclient := hv.holder_client hold (hid ▸ hP)
    -- The client that had the session is displaced.
    rw [takeOver, hid, hclient] at hk
    exact (displace_holder.1 hk).1 (hv.holder_channel hold).symm
  · exact absurd (hv.holder_lt hold) (by rw [← hs, hsession]; exact Nat.lt_irrefl _)

theorem Owned.connect (h : d.Owned wildOf) (hv : d.Valid P) (hc : c.addr = d.nextAddr)
    (hresume : c.cleanSession = false → x = c.clientId ∧ P c.clientId) :
    (d.allocate.connect k c x).Owned wildOf where
  key hs := by
    rcases connect_subscriber_cases hs with ⟨rfl, rfl, -⟩ | hs
    · exact newcomer_clientId _ _ _
    · exact h.key hs
  older hs := by
    rw [connect_nextAddr]
    rcases connect_subscriber_cases hs with ⟨rfl, -, -⟩ | hs
    · rw [newcomer_addr, hc]
      exact Nat.lt_succ_self _
    · exact Nat.lt_succ_of_lt (h.older hs)
  holder_older hk := by
    rw [connect_nextAddr]
    rcases connect_holder_cases hk with ⟨-, rfl⟩ | hk
    · rw [newcomer_addr, hc]
      exact Nat.lt_succ_self _
    · exact Nat.lt_succ_of_lt (h.holder_older (holder_of_takeOver (d := d.allocate) hk))
  alone {k₁ k₂ c₁ c₂} h₁ h₂ hs := by
    have hne : ∀ {k' : ChannelId} {c' : MqttClient}, (d.allocate.takeOver x).holder k' = some c' →
        (d.allocate.newcomer c x).session ≠ c'.session :=
      fun hk => newcomer_session_ne hv.allocate hresume hk
    rcases connect_holder_cases h₁ with ⟨rfl, rfl⟩ | hold₁ <;>
      rcases connect_holder_cases h₂ with ⟨rfl, rfl⟩ | hold₂
    · rfl
    · exact absurd hs (hne hold₂)
    · exact absurd hs.symm (hne hold₁)
    · exact h.alone (holder_of_takeOver (d := d.allocate) hold₁)
        (holder_of_takeOver (d := d.allocate) hold₂) hs
  wild hs := by
    rw [connect_subscription] at hs
    split_ifs at hs
    exact h.wild hs
  listed {k' c' b f y q} hk hs := by
    have hnew : ∀ {c' : MqttClient}, c'.addr < d.nextAddr → c' ≠ d.allocate.newcomer c x := by
      rintro c' hlt rfl
      rw [newcomer_addr, hc] at hlt
      exact Nat.lt_irrefl _ hlt
    rcases connect_holder_cases hk with ⟨rfl, rfl⟩ | hk <;>
      rcases connect_subscriber_cases hs with ⟨heq, -, hsub⟩ | hs
    · rw [hsub]
      rfl
    · -- An entry from before is of an older client, and not of the newcomer.
      exact absurd rfl (hnew (h.older hs))
    · exact absurd heq (hnew (h.holder_older (holder_of_takeOver (d := d.allocate) hk)))
    · have hold := holder_of_takeOver (d := d.allocate) hk
      rw [connect_subscription, if_neg fun hp => Nat.ne_of_lt (hv.holder_lt hold) hp.2]
      exact h.listed hold hs

end Directory

/-! ## Client ids of sessions -/

namespace Directory

/-- A session is used under one client id: that of the entries it is used for, also
    where their client is gone. -/
structure Apart (d : Directory) : Prop where
  lt {b f x c q} : d.subscriber b f x = some (c, q) → c.session < d.nextSession
  stored {b f x c q y} : d.subscriber b f x = some (c, q) → d.session y = some c.session →
    y = c.clientId
  holder {k c b f x c' q} : d.holder k = some c → d.subscriber b f x = some (c', q) →
    c'.session = c.session → c'.clientId = c.clientId

namespace Apart

variable {d d' : Directory} {P : Bytes → Prop} {wildOf : Bytes → Bool} {k : ChannelId}
  {c : MqttClient} {x : Bytes}

theorem step (h : d.Apart) (hv : d.Valid P) (ho : d.Owned wildOf) (hd : d.Step wildOf d') :
    d'.Apart := by
  cases hd with
  | allocate => exact { h with }
  | @subscribe k c f q hk =>
    -- An entry is the new one, of the client at the channel, or was there before.
    have hcases : ∀ {b g x c' q'}, (d.subscribe c f q (wildOf f)).subscriber b g x = some (c', q') →
        c' = c ∨ d.subscriber b g x = some (c', q') := by
      intro b g x c' q' hs
      simp only [Directory.subscribe] at hs
      split_ifs at hs
      · cases hs
        exact .inl rfl
      · exact .inr hs
    constructor
    · intro b g x c' q' hs
      rcases hcases hs with rfl | hs
      · exact hv.holder_lt hk
      · exact h.lt hs
    · intro b g x c' q' y hs hy
      rcases hcases hs with rfl | hs
      · exact hv.holder_alone hk hy
      · exact h.stored hs hy
    · intro k' c₁ b g x c' q' hk' hs hsession
      rcases hcases hs with rfl | hs
      · obtain rfl := ho.alone hk hk' hsession
        exact congrArg MqttClient.clientId (Option.some.inj (hk.symm.trans hk'))
      · exact h.holder hk' hs hsession
  | @unsubscribe k c f hk =>
    have hless : ∀ {b g x r}, (d.unsubscribe c f (wildOf f)).subscriber b g x = some r →
        d.subscriber b g x = some r := by
      intro b g x r hs
      simp only [Directory.unsubscribe] at hs
      split_ifs at hs
      exact hs
    exact ⟨fun hs => h.lt (hless hs), fun hs => h.stored (hless hs),
      fun hk hs => h.holder hk (hless hs)⟩
  | @leave k c hk =>
    have hless : ∀ {b g x r}, (d.leave k c).subscriber b g x = some r →
        d.subscriber b g x = some r := by
      intro b g x r hs
      simp only [Directory.leave] at hs
      split_ifs at hs
      exact hs
    exact ⟨fun hs => h.lt (hless hs), fun hs hy => h.stored (hless hs) (leave_session.1 hy).2,
      fun hk hs => h.holder (leave_holder.1 hk).2 (hless hs)⟩

theorem steps (h : d.Apart) (hv : d.Valid P) (ho : d.Owned wildOf)
    (hd : Relation.ReflTransGen (Step wildOf) d d') : d'.Apart := by
  induction hd with
  | refl => exact h
  | tail hd hs ih => exact ih.step (hv.steps hd) (ho.steps hd) hs

/-- An entry from before a connection has the session of the newcomer only where it
    is under its id. -/
theorem clientId_of_newcomer (h : d.Apart) {b : Bool} {f y : Bytes} {c' : MqttClient} {q : Nat}
    (hs : d.subscriber b f y = some (c', q)) (hsession : c'.session = (d.newcomer c x).session) :
    c'.clientId = c.clientId := by
  have hnew := d.newcomer_session c x
  split_ifs at hnew
  · exact (h.stored hs (hsession ▸ hnew.2)).symm
  · exact absurd (hsession.trans hnew) (Nat.ne_of_lt (h.lt hs))

theorem connect (h : d.Apart) (hv : (d.connect k c x).Valid P)
    (ho : (d.connect k c x).Owned wildOf) : (d.connect k c x).Apart := by
  have hnewcomer : (d.connect k c x).holder k = some (d.newcomer c x) := by
    rw [connect_holder, Function.update_self]
  constructor
  · intro b f y c' q hs
    rcases connect_subscriber_cases hs with ⟨rfl, -, -⟩ | hs
    · exact hv.holder_lt hnewcomer
    · rw [connect_nextSession]
      split_ifs
      · exact h.lt hs
      · exact Nat.lt_succ_of_lt (h.lt hs)
  · intro b f y c' q z hs hz
    rcases connect_subscriber_cases hs with ⟨rfl, -, -⟩ | hs
    · exact hv.holder_alone hnewcomer hz
    · rw [connect_session] at hz
      split_ifs at hz with hid
      · rw [hid, h.clientId_of_newcomer hs (Option.some.inj hz).symm]
      · exact h.stored hs hz
  · intro k' c₁ b f y c' q hk hs hsession
    rcases connect_subscriber_cases hs with ⟨rfl, -, -⟩ | hs
    · obtain rfl := ho.alone hnewcomer hk hsession
      exact congrArg MqttClient.clientId (Option.some.inj (hnewcomer.symm.trans hk))
    · rcases connect_holder_cases hk with ⟨-, rfl⟩ | hk
      · rw [newcomer_clientId]
        exact h.clientId_of_newcomer hs hsession
      · exact h.holder (holder_of_takeOver hk) hs hsession

end Apart

end Directory

/-! ## Runs -/

theorem owned_start : World.start.directory.Owned isWildFilter := by
  constructor <;> intros <;>
    simp_all [World.directory, World.param, World.start, World.topicAt, Session.new]

theorem owned_step {cfg : Config} {w w' : World} {e : Event}
    (hst : (broker cfg).step w e = some w') (hv : w.directory.Valid (· ≠ []))
    (h : w.directory.Owned isWildFilter) : w'.directory.Owned isWildFilter := by
  rcases step_cases hst with ⟨-, hsteps, -⟩ | ⟨j, hj, hdir, -⟩
  · exact h.steps hsteps
  · rw [hdir]
    refine h.connect hv rfl fun hclean => ?_
    -- An empty id needs a clean session.
    rcases joining_clientId hj with ⟨hne, hid⟩ | ⟨-, -, hclean'⟩
    · exact ⟨hid, hne⟩
    · exact absurd (hclean'.symm.trans hclean) Bool.noConfusion

theorem owned_of_reachable {cfg : Config} {w : World} (h : (broker cfg).Reachable w) :
    w.directory.Owned isWildFilter := by
  obtain ⟨-, ho⟩ := h.invariant
    (I := fun w => w.directory.Valid (· ≠ []) ∧ w.directory.Owned isWildFilter)
    ⟨valid_start, owned_start⟩ fun _ _ _ hw hst =>
      ⟨valid_step hst hw.1 fun hP => absurd rfl hP, owned_step hst hw.1 hw.2⟩
  exact ho

theorem apart_start : World.start.directory.Apart := by
  constructor <;> intros <;> simp_all [World.directory, World.start, World.topicAt]

theorem apart_step {cfg : Config} {w w' : World} {e : Event} (h : (broker cfg).Reachable w)
    (hst : (broker cfg).step w e = some w') (ha : w.directory.Apart) : w'.directory.Apart := by
  rcases step_cases hst with ⟨-, hsteps, -⟩ | ⟨j, -, hdir, -⟩
  · exact ha.steps (valid_of_reachable h) (owned_of_reachable h) hsteps
  · have hv := valid_of_reachable (h.step hst)
    have ho := owned_of_reachable (h.step hst)
    rw [hdir] at hv ho ⊢
    exact Directory.Apart.connect ⟨ha.lt, ha.stored, ha.holder⟩ hv ho

theorem apart_of_reachable {cfg : Config} {w : World} (h : (broker cfg).Reachable w) :
    w.directory.Apart :=
  h.induct apart_start fun _ _ _ hw ha hst => apart_step hw hst ha

end MqttBroker
