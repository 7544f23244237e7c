import MqttBroker.Directory.Runs

/-!
# Live client ids

No two channels have clients with the same client id, and each client is
registered under its id (`World.LiveIdsUnique`), as long as no CONNECT with an
empty id is accepted while a client is registered under the empty id
(`liveIdsUnique_iff`). `handle_connect` makes the client from the packet before
`check_integrity` puts the generated id into it, so that these clients keep the
empty id, and the second one is not registered.
-/

namespace MqttBroker

variable {cfg : Config} {w w' : World} {e : Event} {l : List (World × Event)}

/-- The clients at the channels have different client ids, and each is the one
    registered under its id. -/
def World.LiveIdsUnique (w : World) : Prop :=
  (∀ k k' c c', w.param k = some c → w.param k' = some c' → k ≠ k' → c.clientId ≠ c'.clientId) ∧
    ∀ k c, w.param k = some c → w.getClientPtr c.clientId = some c

theorem liveIdsUnique_of_valid (h : w.directory.Valid fun _ => True) : w.LiveIdsUnique := by
  have hclient : ∀ k c, w.param k = some c → w.getClientPtr c.clientId = some c :=
    fun k c hk => h.holder_client (k := k) hk trivial
  refine ⟨fun k k' c c' hk hk' hne hid => hne ?_, hclient⟩
  -- One client is registered under the id, and it is at one channel.
  obtain rfl : c = c' := by
    have hc := hclient k c hk
    rw [hid] at hc
    exact Option.some.inj (hc.symm.trans (hclient k' c' hk'))
  exact (h.holder_channel hk).symm.trans (h.holder_channel hk')

/-- The registered clients are older than the next object. -/
def Directory.Older (d : Directory) : Prop := ∀ x c, d.client x = some c → c.addr < d.nextAddr

theorem Directory.Older.allocate {d : Directory} (h : d.Older) : d.allocate.Older :=
  fun x c hx => Nat.lt_succ_of_lt (h x c hx)

theorem Directory.Older.step {d d' : Directory} {wildOf : Bytes → Bool} (h : d.Older)
    (hd : d.Step wildOf d') : d'.Older := by
  cases hd with
  | allocate => exact h.allocate
  | subscribe => exact h
  | unsubscribe => exact h
  | leave => exact fun x c' hx => h x c' (Directory.leave_client.1 hx).2

theorem Directory.Older.steps {d d' : Directory} {wildOf : Bytes → Bool} (h : d.Older)
    (hd : Relation.ReflTransGen (Directory.Step wildOf) d d') : d'.Older := by
  induction hd with
  | refl => exact h
  | tail _ hs ih => exact ih.step hs

theorem Directory.Older.connect {d : Directory} (h : d.Older) {k : ChannelId} {c : MqttClient}
    (hc : c.addr < d.nextAddr) (x : Bytes) : (d.connect k c x).Older := by
  intro y c' hy
  rw [Directory.connect_nextAddr]
  rw [Directory.connect_client] at hy
  split_ifs at hy with hnew
  · cases hy
    rwa [Directory.newcomer_addr]
  · rw [Directory.takeOver_client] at hy
    split_ifs at hy
    exact h y c' hy

theorem older_of_reachable (h : (broker cfg).Reachable w) : w.directory.Older := by
  refine h.invariant (I := fun w => w.directory.Older) (fun _ _ hx => nomatch hx) ?_
  intro w e w' ho hst
  rcases step_cases hst with ⟨-, hsteps, -⟩ | ⟨j, -, hdir, -⟩
  · exact ho.steps hsteps
  · rw [hdir]
    exact Directory.Older.connect ho.allocate (Nat.lt_succ_self _) _

/-- A client with an empty id is put at a channel without being registered. -/
theorem not_liveIdsUnique (ho : w.directory.Older) (hst : (broker cfg).step w e = some w')
    (hr : w.ReusesEmptyId cfg e) : ¬w'.LiveIdsUnique := by
  rintro ⟨-, hreg⟩
  obtain ⟨j, hj, hempty, hold⟩ := hr
  obtain ⟨old, hold⟩ := Option.isSome_iff_exists.1 hold
  obtain ⟨hdir, -⟩ := step_joining hst hj
  have hfree : w.getClientPtr j.clientId = none := by
    rcases joining_clientId hj with ⟨hne, -⟩ | ⟨-, hfree, -⟩
    · exact absurd hempty hne
    · exact hfree
  have hother : ([] : Bytes) ≠ j.clientId := by
    rintro hid
    rw [← hid, hold] at hfree
    cases hfree
  -- The client registered before stays.
  have hclient : w'.getClientPtr [] = some old := by
    show w'.directory.client [] = some old
    rw [hdir, Directory.connect_client, Directory.takeOver_client, if_neg hother, if_neg]
    · exact hold
    · rintro ⟨-, hnone⟩
      cases hold.symm.trans hnone
  have hholder : w'.param j.channelId =
      some (w.directory.allocate.newcomer (j.client w) j.clientId) := by
    show w'.directory.holder j.channelId = _
    rw [hdir, Directory.connect_holder, Function.update_self]
  have hsame := hreg _ _ hholder
  rw [Directory.newcomer_clientId, Joining.client_clientId, hempty, hclient] at hsame
  have haddr : old.addr < w.nextAddr := ho [] old hold
  rw [Option.some.inj hsame, Directory.newcomer_addr] at haddr
  exact Nat.lt_irrefl _ haddr

/-- Live client ids are unique in every run in which no empty id is reused, and
    a step that reuses it ends that. -/
theorem liveIdsUnique_iff (h : (broker cfg).Run l w)
    (hok : ∀ x ∈ l, ¬x.1.ReusesEmptyId cfg x.2) :
    w.LiveIdsUnique ∧ ∀ e w', (broker cfg).step w e = some w' →
      (w'.LiveIdsUnique ↔ ¬w.ReusesEmptyId cfg e) := by
  have hv := valid_of_run h hok
  refine ⟨liveIdsUnique_of_valid hv, fun e w' hst => ⟨fun hu hr => ?_, fun hr => ?_⟩⟩
  · exact not_liveIdsUnique (older_of_reachable h.reachable) hst hr hu
  · exact liveIdsUnique_of_valid (valid_step hst hv fun _ => hr)

/-- Two clients with ids of their own, and one with an empty id. -/
theorem liveIdsUnique_three_clients : ∃ w, (broker mqttdCfg).Reachable w ∧
    (w.param 3).isSome = true ∧ w.LiveIdsUnique := by
  have hruns : runs (fun w e => !decide (w.ReusesEmptyId mqttdCfg e))
      [.accept 1, .accept 2, .accept 3, .read 1 (connectBytes 0x02 [0x61] []),
        .read 2 (connectBytes 0x00 [0x62] []), .read 3 (connectBytes 0x02 [] [])]
      (fun w => (w.param 3).isSome) = true := by decide +kernel
  obtain ⟨l, w, hl, hok, hp⟩ := exists_run hruns
  refine ⟨w, hl.reachable, hp, (liveIdsUnique_iff hl fun x hx => ?_).1⟩
  simpa using hok x hx

/-- Two clients with an empty id: both have the empty id in the end. -/
theorem empty_ids_not_unique : ¬∀ w, (broker mqttdCfg).Reachable w → w.LiveIdsUnique := by
  intro h
  have hruns : runs (fun _ _ => true)
      [.accept 1, .accept 2, .read 1 (connectBytes 0x02 [] []), .read 2 (connectBytes 0x02 [] [])]
      (fun w => (w.param 1).any (fun c => c.clientId = []) &&
        (w.param 2).any fun c => c.clientId = []) = true := by decide +kernel
  obtain ⟨l, w, hl, -, hp⟩ := exists_run hruns
  obtain ⟨h1, h2⟩ := Bool.and_eq_true _ _ ▸ hp
  obtain ⟨c, hc, hcid⟩ := Option.any_eq_true _ _ |>.1 h1
  obtain ⟨d, hd, hdid⟩ := Option.any_eq_true _ _ |>.1 h2
  exact (h w hl.reachable).1 1 2 c d hc hd (by decide)
    ((of_decide_eq_true hcid).trans (of_decide_eq_true hdid).symm)

end MqttBroker
