import MqttBroker.Directory.Runs

/-!
# Takeovers

When a client has connected, the entries under its id are its own, for
subscriptions of its session (`World.NoStaleSubscriber`), as long as no client
with subscriptions was displaced by one asking for a clean session
(`noStaleSubscriber_iff`). `handle_connect` detaches the displaced client, so
that `unsubscribe_all` is never called for it, and only the subscriptions of a
resumed session are entered again.
-/

namespace MqttBroker

variable {cfg : Config} {w w' : World} {e : Event} {j : Joining} {l : List (World × Event)}

/-- The entries under the id of a client have the client itself, and are
    subscriptions of its session. -/
def World.NoStaleSubscriber (w : World) (c : MqttClient) : Prop :=
  ∀ b f t s, w.topicAt (.entry b f) = some t → t.find c.clientId = some s →
    s.client = c ∧ ((w.session c.session).subscriptions.find f).isSome

/-- An accepted CONNECT asks for a clean session and displaces a client whose
    session has subscriptions. -/
def World.Displaces (cfg : Config) (w : World) (e : Event) : Prop :=
  ∃ j ∈ w.joining cfg e, j.packet.clientId ≠ [] ∧ j.packet.cleanSession = true ∧
    ∃ old ∈ w.getClientPtr j.packet.clientId,
      (w.session old.session).subscriptions.isEmpty = false

instance (w : World) (e : Event) : Decidable (w.Displaces cfg e) :=
  inferInstanceAs (Decidable (∃ j ∈ w.joining cfg e, _))

theorem settled_iff (w : World) (c : MqttClient) :
    w.directory.Settled c ↔ w.NoStaleSubscriber c := by
  constructor
  · intro h b f t s ht hs
    obtain ⟨hc, hsub⟩ := h b f s.client s.maxQos
      (by simp only [World.directory, ht, Option.bind_some, hs, Option.map_some])
    exact ⟨hc, by simpa only [World.directory, Option.isSome_map] using hsub⟩
  · intro h b f c' q hx
    obtain ⟨s, hs, heq⟩ := Option.map_eq_some_iff.1 hx
    obtain ⟨t, ht, hs⟩ := Option.bind_eq_some_iff.1 hs
    obtain ⟨hc, hsub⟩ := h b f t s ht hs
    exact ⟨(congrArg Prod.fst heq).symm.trans hc,
      by simpa only [World.directory, Option.isSome_map] using hsub⟩

theorem displaces_iff (hj : w.joining cfg e = some j) (hid : j.packet.clientId ≠ []) :
    w.directory.allocate.Displaces (j.client w) j.packet.clientId ↔ w.Displaces cfg e := by
  have hsubs : ∀ s, (∃ f, (w.directory.allocate.subscription s f).isSome) ↔
      (w.session s).subscriptions.isEmpty = false := by
    intro s
    rw [← Bool.not_eq_true, Keyed.isEmpty_iff, not_forall]
    exact exists_congr fun f =>
      (Bool.eq_iff_iff.1 Option.isSome_map).trans Option.isSome_iff_ne_none
  constructor
  · rintro ⟨old, f, hold, hc, hsub⟩
    exact ⟨j, hj, hid, hc, old, hold, (hsubs _).1 ⟨f, hsub⟩⟩
  · rintro ⟨i, hi, -, hc, old, hold, hsub⟩
    obtain rfl := Option.some.inj (hj.symm.trans hi)
    obtain ⟨f, hf⟩ := (hsubs _).2 hsub
    exact ⟨old, f, hold, hc, hf⟩

/-- A step keeps the entries exact, for the client ids that are not empty, if
    it displaces no subscriptions. -/
theorem exact_step (h : (broker cfg).step w e = some w') (hv : w.directory.Valid (· ≠ []))
    (he : w.directory.Exact (· ≠ []) isWildFilter) (hok : ¬w.Displaces cfg e) :
    w'.directory.Exact (· ≠ []) isWildFilter := by
  rcases step_cases h with ⟨-, hsteps, -⟩ | ⟨j, hj, hdir, -⟩
  · exact he.steps hv hsteps
  · rw [hdir]
    rcases joining_clientId hj with ⟨hne, hid⟩ | ⟨hempty, hfree, -⟩
    · rw [hid]
      exact he.allocate.connect hv.allocate (.inr rfl) (fun _ => rfl)
        fun _ hd => hok ((displaces_iff hj hne).1 hd)
    · -- A client with an empty id displaces nobody.
      refine he.allocate.connect hv.allocate (.inl hfree) (fun hne => absurd hempty hne) ?_
      rintro - ⟨old, f, hold, -⟩
      cases hfree.symm.trans hold

theorem exact_of_run (h : (broker cfg).Run l w) (hok : ∀ x ∈ l, ¬x.1.Displaces cfg x.2) :
    w.directory.Valid (· ≠ []) ∧ w.directory.Exact (· ≠ []) isWildFilter := by
  refine h.invariant
    (I := fun w => w.directory.Valid (· ≠ []) ∧ w.directory.Exact (· ≠ []) isWildFilter)
    (P := fun w e => ¬w.Displaces cfg e)
    ⟨valid_start, ⟨fun hs => (by cases hs), fun hx => (by cases hx)⟩⟩ ?_ hok
  exact fun w e w' hw hc hst =>
    ⟨valid_step hst hw.1 fun hP => absurd rfl hP, exact_step hst hw.1 hw.2 hc⟩

/-- In a run in which no subscriptions were displaced so far, a CONNECT that is
    accepted leaves no stale subscriber exactly when it displaces none either. -/
theorem noStaleSubscriber_iff (h : (broker cfg).Run l w)
    (hok : ∀ x ∈ l, ¬x.1.Displaces cfg x.2) (hst : (broker cfg).step w e = some w')
    (hj : w.joining cfg e = some j) (hid : j.packet.clientId ≠ []) :
    (∃ c, w'.param j.channelId = some c ∧ w'.NoStaleSubscriber c) ↔ ¬w.Displaces cfg e := by
  obtain ⟨hv, he⟩ := exact_of_run h hok
  obtain ⟨hdir, -⟩ := step_joining hst hj
  have hjid : j.clientId = j.packet.clientId := by
    rcases joining_clientId hj with ⟨-, hjid⟩ | ⟨hempty, -⟩
    · exact hjid
    · exact absurd hempty hid
  rw [hjid] at hdir
  have hholder : w'.param j.channelId =
      some (w.directory.allocate.newcomer (j.client w) j.packet.clientId) := by
    show w'.directory.holder j.channelId = _
    rw [hdir, Directory.connect_holder, Function.update_self]
  have hset := Directory.settled_connect_iff (k := j.channelId) (c := j.client w)
    hv.allocate he.allocate hid
  rw [Joining.client_clientId, ← hdir, settled_iff, displaces_iff hj hid] at hset
  rw [hholder, ← hset]
  exact ⟨fun ⟨c, hc, hns⟩ => Option.some.inj hc ▸ hns, fun hns => ⟨_, rfl, hns⟩⟩

/-- A client with a stored session and a subscription is displaced by one
    resuming the session. -/
theorem noStaleSubscriber_resumed : ∃ w c, (broker mqttdCfg).Reachable w ∧
    w.param 2 = some c ∧ w.NoStaleSubscriber c := by
  have hruns : runs (fun w e => !decide (w.Displaces mqttdCfg e))
      [.accept 1, .accept 2, .read 1 (connectBytes 0x00 [0x61] []),
        .read 1 (subscribeBytes [0x74] 1)]
      (fun w => ((broker mqttdCfg).step w
          (Action.read 2 (connectBytes 0x00 [0x61] [])).event).any fun _ =>
        !decide (w.Displaces mqttdCfg (Action.read 2 (connectBytes 0x00 [0x61] [])).event) &&
        (w.joining mqttdCfg (Action.read 2 (connectBytes 0x00 [0x61] [])).event).any fun j =>
          decide (j.packet.clientId ≠ [] ∧ j.channelId = 2)) = true := by
    decide +kernel
  obtain ⟨l, w, w', hl, hok, hst, hp⟩ := exists_run_step hruns
  obtain ⟨hd, hj⟩ := Bool.and_eq_true _ _ ▸ hp
  obtain ⟨j, hj, hid⟩ := Option.any_eq_true _ _ |>.1 hj
  obtain ⟨hid, hk⟩ := of_decide_eq_true hid
  have hok' : ∀ x ∈ l, ¬x.1.Displaces mqttdCfg x.2 := fun x hx => by simpa using hok x hx
  obtain ⟨c, hc, hns⟩ := (noStaleSubscriber_iff hl hok' hst hj hid).2 (by simpa using hd)
  exact ⟨w', c, ⟨_, hl.step hst⟩, hk ▸ hc, hns⟩

/-- A client with a subscription is displaced by one asking for a clean session:
    the topic keeps the displaced client. -/
theorem clean_takeover_leaves_subscriber : ¬∀ w e w' j, (broker mqttdCfg).Reachable w →
    (broker mqttdCfg).step w e = some w' → w.joining mqttdCfg e = some j →
    j.packet.clientId ≠ [] → ∃ c, w'.param j.channelId = some c ∧ w'.NoStaleSubscriber c := by
  intro h
  have hruns : runs (fun _ _ => true)
      [.accept 1, .accept 2, .read 1 (connectBytes 0x00 [0x61] []),
        .read 1 (subscribeBytes [0x74] 1)]
      (fun w => ((broker mqttdCfg).step w
          (Action.read 2 (connectBytes 0x02 [0x61] [])).event).any fun w' =>
        (w.joining mqttdCfg (Action.read 2 (connectBytes 0x02 [0x61] [])).event).any fun j =>
          decide (j.packet.clientId ≠ []) && (w'.param j.channelId).any fun c =>
            (w'.topicAt (.entry false [0x74])).any fun t =>
              (t.find c.clientId).any fun s => decide (s.client ≠ c)) = true := by
    decide +kernel
  obtain ⟨l, w, w', hl, -, hst, hp⟩ := exists_run_step hruns
  obtain ⟨j, hj, hp⟩ := Option.any_eq_true _ _ |>.1 hp
  obtain ⟨hid, hp⟩ := Bool.and_eq_true _ _ ▸ hp
  obtain ⟨c, hc, hp⟩ := Option.any_eq_true _ _ |>.1 hp
  obtain ⟨t, ht, hp⟩ := Option.any_eq_true _ _ |>.1 hp
  obtain ⟨s, hs, hp⟩ := Option.any_eq_true _ _ |>.1 hp
  obtain ⟨c', hc', hns⟩ := h w _ w' j hl.reachable hst hj (of_decide_eq_true hid)
  obtain rfl := Option.some.inj (hc.symm.trans hc')
  exact of_decide_eq_true hp (hns false [0x74] t s ht hs).1

end MqttBroker
