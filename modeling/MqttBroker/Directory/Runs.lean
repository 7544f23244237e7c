import MqttBroker.Directory.Refine

/-!
# The directory over runs

What the refinement gives for runs of the broker. `ctx->param()`, `_clients`,
the sessions and the topics fit together in every reachable state for the
clients with a client id of their own (`valid_of_run`), and for all clients as
long as no CONNECT with an empty client id finds the empty id taken
(`World.ReusesEmptyId`).

With it, no subscription of a connected client is lost (`subscriptions_kept`).
-/

namespace MqttBroker

open Relation

variable {cfg : Config} {w w' : World} {e : Event} {j : Joining} {P : Bytes → Prop}

/-- What is done to the directory in a step. -/
theorem step_cases (h : (broker cfg).step w e = some w') :
    (w.joining cfg e = none ∧ ReflTransGen (Directory.Step isWildFilter) w.directory w'.directory ∧
      w'.attachments = w.attachments) ∨
    ∃ j, w.joining cfg e = some j ∧
      w'.directory = w.directory.allocate.connect j.channelId (j.client w) j.clientId ∧
      w'.attachments = w.attachments ++
        [(w.directory.allocate.newcomer (j.client w) j.clientId,
          w.directory.allocate.sessionPresent (j.client w) j.clientId)] := by
  cases hj : w.joining cfg e with
  | none => exact .inl ⟨rfl, step_local h hj⟩
  | some j => exact .inr ⟨j, rfl, step_joining h hj⟩

/-- An accepted CONNECT with an empty client id finds a client registered under
    the empty id. -/
def World.ReusesEmptyId (cfg : Config) (w : World) (e : Event) : Prop :=
  ∃ j ∈ w.joining cfg e, j.packet.clientId = [] ∧ (w.getClientPtr []).isSome

instance (w : World) (e : Event) : Decidable (w.ReusesEmptyId cfg e) :=
  inferInstanceAs (Decidable (∃ j ∈ w.joining cfg e, _))

/-! ## The invariant -/

theorem valid_start : World.start.directory.Valid P := by
  have hnone : ∀ x, World.start.directory.client x = none := fun _ => rfl
  constructor <;> intros <;> simp_all [World.directory, World.param, World.start]

/-- A step keeps the invariant for the ids satisfying `P`, unless an accepted
    CONNECT finds its empty id taken. -/
theorem valid_step (h : (broker cfg).step w e = some w') (hv : w.directory.Valid P)
    (hok : P [] → ¬w.ReusesEmptyId cfg e) : w'.directory.Valid P := by
  rcases step_cases h with ⟨-, hsteps, -⟩ | ⟨j, hj, hdir, -⟩
  · exact hv.steps hsteps
  · rw [hdir]
    refine hv.allocate.connect rfl fun hP => ?_
    rw [Directory.takeOver_client, Joining.client_clientId]
    rcases joining_clientId hj with ⟨-, hid⟩ | ⟨hempty, -, -⟩
    · rw [if_pos hid.symm]
    · split_ifs with hx
      · rfl
      · rw [Joining.client_clientId, hempty] at hP
        rw [hempty]
        exact Option.not_isSome_iff_eq_none.1 fun hsome => hok hP ⟨j, hj, hempty, hsome⟩

/-- The invariant holds in every reachable state, for the client ids that are
    not empty. -/
theorem valid_of_reachable (h : (broker cfg).Reachable w) : w.directory.Valid (· ≠ []) :=
  h.invariant (I := fun w => w.directory.Valid (· ≠ [])) valid_start fun _ _ _ hv hst =>
    valid_step hst hv fun hP => absurd rfl hP

/-- The invariant holds for all client ids where no empty id is reused. -/
theorem valid_of_run {l : List (World × Event)} (h : (broker cfg).Run l w)
    (hok : ∀ x ∈ l, ¬x.1.ReusesEmptyId cfg x.2) : w.directory.Valid fun _ => True :=
  h.invariant (I := fun w => w.directory.Valid fun _ => True)
    (P := fun w e => ¬w.ReusesEmptyId cfg e) valid_start
    (fun _ _ _ hv hc hst => valid_step hst hv fun _ => hc) hok

/-! ## Subscriptions of connected clients -/

/-- A client at a channel has an id of its own, if every CONNECT carried one. -/
theorem clientId_ne_nil {l : List (World × Event)} (h : (broker cfg).Run l w)
    (hid : ∀ x ∈ l, ∀ packet ∈ x.2.connect, packet.clientId ≠ []) {k : ChannelId} {c : MqttClient}
    (hk : w.param k = some c) : c.clientId ≠ [] := by
  refine h.invariant (I := fun w => ∀ k c, w.directory.holder k = some c → c.clientId ≠ [])
    (P := fun _ e => ∀ packet ∈ e.connect, packet.clientId ≠ []) (fun _ _ hk => by cases hk) ?_ hid
    k c hk
  intro w e w' hw hok hst k c hk
  rcases step_cases hst with ⟨-, hsteps, -⟩ | ⟨j, hj, hdir, -⟩
  · refine hw k c ?_
    generalize w'.directory = d at hsteps hk
    induction hsteps with
    | refl => exact hk
    | tail _ hs ih => exact ih (hs.holder hk)
  · rw [hdir, Directory.connect_holder, Function.update_apply] at hk
    split_ifs at hk
    · cases hk
      rw [Directory.newcomer_clientId, Joining.client_clientId]
      obtain ⟨packet, hp, hjp⟩ := Option.bind_eq_some_iff.1 hj
      obtain ⟨-, rfl, -⟩ := joiningOf_clientId hjp
      exact hok _ hp
    · exact hw k c (Directory.holder_of_takeOver (d := w.directory.allocate) hk)

/-- No subscription is lost: where every CONNECT carries a client id, each
    subscription in the session of a connected client is entered at its topic,
    with this very client and its QoS. -/
theorem subscriptions_kept {l : List (World × Event)} (h : (broker cfg).Run l w)
    (hid : ∀ x ∈ l, ∀ packet ∈ x.2.connect, packet.clientId ≠ []) {k : ChannelId} {c : MqttClient}
    (hk : w.param k = some c) {sub : Subscription}
    (hs : sub ∈ (w.session c.session).subscriptions) :
    ∃ t, w.topicAt (.entry sub.isWild sub.topicFilter) = some t ∧
      t.find c.clientId = some ⟨c, sub.maxQos⟩ := by
  have hv := valid_of_reachable h.reachable
  have hne := clientId_ne_nil h hid hk
  have hsub : w.directory.subscription c.session sub.topicFilter = some (sub.maxQos, sub.isWild) := by
    simp only [World.directory, Keyed.find_eq_some.2 ⟨hs, rfl⟩, Option.map_some]
  have hentry := hv.client_subscriber (hv.holder_client hk hne) hne hsub
  obtain ⟨⟨c', q⟩, hfind, heq⟩ := Option.map_eq_some_iff.1 hentry
  obtain ⟨t, ht, hfind⟩ := Option.bind_eq_some_iff.1 hfind
  obtain ⟨rfl, rfl⟩ := Prod.mk.injEq _ _ _ _ ▸ heq
  exact ⟨t, ht, hfind⟩

/-- A client subscribes with one QoS and then with another, and another client
    unsubscribes from the same filter. -/
theorem subscriptions_kept_two_clients : ∃ w c, (broker mqttdCfg).Reachable w ∧
    w.param 1 = some c ∧ (⟨[0x74], 2, false⟩ : Subscription) ∈ (w.session c.session).subscriptions ∧
    ∃ t, w.topicAt (.entry false [0x74]) = some t ∧ t.find c.clientId = some ⟨c, 2⟩ := by
  have hruns : runs (fun _ e => decide (∀ packet ∈ e.connect, packet.clientId ≠ []))
      [.accept 1, .accept 2, .read 1 (connectBytes 0x00 [0x61] []),
        .read 2 (connectBytes 0x02 [0x62] []), .read 1 (subscribeBytes [0x74] 0),
        .read 2 (subscribeBytes [0x74] 1), .read 1 (subscribeBytes [0x74] 2),
        .read 2 (unsubscribeBytes [0x74])]
      (fun w => (w.param 1).any fun c =>
        (w.session c.session).subscriptions.elems.contains ⟨[0x74], 2, false⟩) = true := by
    decide +kernel
  obtain ⟨l, w, hl, hok, hp⟩ := exists_run hruns
  obtain ⟨c, hc, hsub⟩ := Option.any_eq_true _ _ |>.1 hp
  have hsub : (⟨[0x74], 2, false⟩ : Subscription) ∈ (w.session c.session).subscriptions :=
    List.contains_iff_mem.1 hsub
  exact ⟨w, c, hl.reachable, hc, hsub, subscriptions_kept hl
    (fun x hx => of_decide_eq_true (hok x hx)) hc hsub⟩

end MqttBroker
