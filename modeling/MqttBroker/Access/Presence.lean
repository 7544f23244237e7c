import MqttBroker.Delivery.Wills
import MqttBroker.Directory.Admissions

/-!
# Who is there

Three tables say who is connected: the clients at the channels (`ctx->param()`), the
clients registered under their ids (`_clients`) and the sessions stored there
(`_sessions`). They are changed by accepted CONNECTs and by clients that leave, each
table in its own way (`World.seats`, `World.registers`, `World.stores`), and by nothing
else (`follows_step`). So after a run, each of them can be read off the calls: an entry
is what the last call put there that changed it (`present_run_iff`).

The tables need not agree. A client that sends a second CONNECT with another id is
registered under both ids, and loses the channel to whoever connects with one of them.
-/

namespace MqttBroker

open Relation

variable {cfg : Config} {w w' : World} {e : Event} {c : MqttClient} {j : Joining} {k : ChannelId}
  {l : List (World × Event)} {x : Bytes}

/-! ## What the calls change -/

/-- A DISCONNECT. -/
def Packet.isDisconnect : Packet → Bool
  | .disconnect _ => true
  | _ => false

/-- The client that leaves in a call: it sent a DISCONNECT, or its channel is lost. -/
def World.leaver (w : World) (e : Event) : Option MqttClient :=
  if e.action = .disconnected e.action.channelId ∨ e.packet.any Packet.isDisconnect then
    w.param e.action.channelId
  else none

/-- Whom a call puts at a channel: the client of an accepted CONNECT, or nobody, where
    the client registered with the channel is displaced, or the client leaves. -/
def World.seats (cfg : Config) (w : World) (k : ChannelId) (e : Event) :
    Option (Option MqttClient) :=
  match w.joining cfg e with
  | some j =>
    if k = j.channelId then some (some (w.newcomer j))
    else if (w.getClientPtr j.clientId).any fun old => old.channelId = k then some none
    else none
  | none => if (w.leaver e).any fun c => c.channelId = k then some none else none

/-- Whom a call registers under a client id: the client of an accepted CONNECT, unless
    the id is empty and taken, or nobody, where the client with this id leaves. -/
def World.registers (cfg : Config) (w : World) (x : Bytes) (e : Event) :
    Option (Option MqttClient) :=
  match w.joining cfg e with
  | some j =>
    if x = j.packet.clientId ∧ (x ≠ [] ∨ w.getClientPtr x = none) then some (some (w.newcomer j))
    else none
  | none => if (w.leaver e).any fun c => c.clientId = x then some none else none

/-- Which session a call stores under a client id: that of the client of an accepted
    CONNECT, or none, where a client with this id and a clean session leaves. -/
def World.stores (cfg : Config) (w : World) (x : Bytes) (e : Event) : Option (Option SessionRef) :=
  match w.joining cfg e with
  | some j => if x = j.packet.clientId then some (some (w.newcomer j).session) else none
  | none =>
    if (w.leaver e).any fun c => c.cleanSession && decide (c.clientId = x) then some none else none

/-! ## Operations -/

namespace Directory

variable {d d' : Directory} {wildOf : Bytes → Bool}

/-- A takeover detaches the channel that the displaced client is registered with. -/
theorem takeOver_holder_eq (d : Directory) (x : Bytes) (k : ChannelId) :
    (d.takeOver x).holder k =
      if (d.client x).any fun old => old.channelId = k then none else d.holder k := by
  rw [takeOver]
  split
  · next hnone => simp [hnone]
  · next old hold => simp [hold, displace, Function.update_apply, eq_comm]

/-- Where nobody leaves a channel, no operation but a connection changes what is
    registered and stored. -/
theorem registered_of_steps (hd : ReflTransGen (Step wildOf) d d') :
    (∀ k c, d'.holder k = some c → d.holder k = some c) ∧
      (d'.holder = d.holder → d'.client = d.client ∧ d'.session = d.session) := by
  induction hd with
  | refl => exact ⟨fun _ _ h => h, fun _ => ⟨rfl, rfl⟩⟩
  | @tail b d' _ hs ih =>
    refine ⟨fun k c hk => ih.1 k c (hs.holder hk), fun hholder => ?_⟩
    have hb : b.holder = d.holder := by
      refine funext fun k => Option.ext fun c => ⟨ih.1 k c, fun hk => hs.holder ?_⟩
      rwa [hholder]
    obtain ⟨hclient, hsession⟩ := ih.2 hb
    rw [← hclient, ← hsession]
    cases hs with
    | allocate | subscribe | unsubscribe => exact ⟨rfl, rfl⟩
    | @leave k c hk =>
      -- The client that leaves would still be at its channel.
      have hgone : (b.leave k c).holder k = none := Function.update_self _ _ _
      rw [hholder, ← hb, hk] at hgone
      cases hgone

end Directory

/-! ## Steps -/

theorem isDisconnect_iff {e : Event} :
    e.packet.any Packet.isDisconnect = true ↔ ∃ p, e.packet = some (.disconnect p) := by
  rw [Option.any_eq_true]
  constructor
  · rintro ⟨p, hp, h⟩
    cases p with
    | disconnect p => exact ⟨p, hp⟩
    | _ => cases h
  · rintro ⟨p, hp⟩
    exact ⟨_, hp, rfl⟩

theorem leaver_eq_some : w.leaver e = some c ↔ w.Leaves e c := by
  rw [World.leaver, World.Leaves, ← isDisconnect_iff]
  split_ifs with h
  · exact (and_iff_left h.symm).symm
  · exact ⟨fun hc => (nomatch hc), fun hc => absurd hc.2.symm h⟩

/-- A client that leaves, leaves its channel, its id and, if it is a clean one, its
    session. -/
theorem directory_of_leaves (hst : (broker cfg).step w e = some w') (h : w.Leaves e c) :
    w'.directory = w.directory.leave e.action.channelId c := by
  obtain ⟨hc, ⟨p, hp⟩ | he⟩ := h
  · have heq : w' = ((w.record (.handled c (.disconnect p))).setParam e.action.channelId
        none).remove c := eq_of_packetHandler hst hp (agent_bind_apply hc _ _)
    rw [heq, World.directory_remove _ e.action.channelId, World.directory_setParam_none]
    rfl
  · obtain ⟨u, hwill, rfl⟩ := step_disconnected hst he hc
    have hquiet := quiet_publishFrame.publishWillMessage c w
    rw [hwill] at hquiet
    have hgone := param_conclude_disconnected (u.remove c) e.action.channelId
    have hconclude : ((u.remove c).conclude (.disconnected e.action.channelId)).directory =
        { (u.remove c).directory with
          holder := Function.update (u.remove c).param e.action.channelId none } :=
      Directory.ext hgone rfl rfl rfl rfl rfl rfl
    rw [hconclude, World.directory_remove _ e.action.channelId, World.param_remove, ← hquiet.1]
    rfl

/-- Where no CONNECT is accepted and nobody leaves, the tables stay. -/
theorem tables_of_stays (hst : (broker cfg).step w e = some w') (hj : w.joining cfg e = none)
    (hleaver : w.leaver e = none) : w'.param = w.param ∧ w'.getClientPtr = w.getClientPtr ∧
      w'.getSessionPtr = w.getSessionPtr := by
  have hparam : w'.param = w.param := by
    by_cases hleaves : e.action = .disconnected e.action.channelId ∨
        e.packet.any Packet.isDisconnect
    · rw [World.leaver, if_pos hleaves] at hleaver
      have hsame : Function.update w.param e.action.channelId none = w.param :=
        Function.update_eq_self_iff.2 hleaver.symm
      rw [isDisconnect_iff] at hleaves
      rcases hleaves with he | ⟨p, hp⟩
      · exact (param_of_lost hst he).trans hsame
      · exact (param_of_disconnect hst hp).trans hsame
    · obtain ⟨hlost, hdisconnect⟩ := not_or.1 hleaves
      rw [isDisconnect_iff] at hdisconnect
      exact param_of_stays hst hj hlost fun p hp => hdisconnect ⟨p, hp⟩
  exact ⟨hparam, (Directory.registered_of_steps (step_local hst hj).1).2 hparam⟩

/-- Each table changes as the call says. -/
structure World.Follows (cfg : Config) (w : World) (e : Event) (w' : World) : Prop where
  seats (k : ChannelId) : w'.param k = (w.seats cfg k e).elim (w.param k) id
  registers (x : Bytes) : w'.getClientPtr x = (w.registers cfg x e).elim (w.getClientPtr x) id
  stores (x : Bytes) : w'.getSessionPtr x = (w.stores cfg x e).elim (w.getSessionPtr x) id

/-- Only an id of its own is taken from another client. -/
theorem takeOver_of_joining (hj : w.joining cfg e = some j) (x : Bytes) :
    (w.directory.allocate.takeOver j.clientId).client x =
      if x = j.packet.clientId ∧ x ≠ [] then none else w.getClientPtr x := by
  rw [Directory.takeOver_client]
  show (if _ then none else w.getClientPtr x) = _
  rcases joining_clientId hj with ⟨hne, hid⟩ | ⟨hempty, hfree, -⟩
  · rw [hid]
    exact if_congr ⟨fun hx => ⟨hx, hx ▸ hne⟩, And.left⟩ rfl rfl
  · -- A generated id is free.
    rw [if_neg (c := x = j.packet.clientId ∧ x ≠ []) fun hx => hx.2 (hx.1.trans hempty)]
    split_ifs with hx
    · rw [hx, hfree]
    · rfl

theorem follows_of_joining (hst : (broker cfg).step w e = some w')
    (hj : w.joining cfg e = some j) : w.Follows cfg e w' := by
  have hdir := (step_joining hst hj).1
  refine ⟨fun k => ?_, fun x => ?_, fun x => ?_⟩
  · show w'.directory.holder k = _
    rw [hdir, Directory.connect_holder, Function.update_apply, Directory.takeOver_holder_eq]
    simp only [World.seats, hj]
    show (if _ then _ else if (w.getClientPtr j.clientId).any _ then none else w.param k) = _
    split_ifs <;> rfl
  · show w'.directory.client x = _
    rw [hdir, Directory.connect_client, takeOver_of_joining hj]
    simp only [World.registers, hj, Joining.client_clientId]
    by_cases hx : x = j.packet.clientId
    · simp only [← hx, true_and]
      generalize w.getClientPtr x = holder
      by_cases hempty : x = [] <;> cases holder <;> simp [hempty, World.newcomer]
    · simp [hx]
  · show w'.directory.session x = _
    rw [hdir, Directory.connect_session]
    simp only [World.stores, hj]
    show (if x = j.packet.clientId then _ else w.getSessionPtr x) = _
    split_ifs <;> rfl

theorem follows_of_leaves (h : (broker cfg).Reachable w) (hst : (broker cfg).step w e = some w')
    (hj : w.joining cfg e = none) (hleaves : w.Leaves e c) : w.Follows cfg e w' := by
  have hdir := directory_of_leaves hst hleaves
  have hleaver := leaver_eq_some.2 hleaves
  have hchannel : c.channelId = e.action.channelId :=
    (valid_of_reachable h).holder_channel hleaves.1
  refine ⟨fun k => ?_, fun x => ?_, fun x => ?_⟩
  · show w'.directory.holder k = _
    rw [hdir]
    simp only [World.seats, hj, hleaver, Option.any_some, hchannel, decide_eq_true_eq]
    show Function.update w.param _ none k = _
    rw [Function.update_apply, if_congr eq_comm rfl rfl]
    split_ifs <;> rfl
  · show w'.directory.client x = _
    rw [hdir]
    simp only [World.registers, hj, hleaver, Option.any_some, decide_eq_true_eq]
    show Function.update w.getClientPtr _ none x = _
    rw [Function.update_apply, if_congr eq_comm rfl rfl]
    split_ifs <;> rfl
  · show w'.directory.session x = _
    rw [hdir]
    simp only [World.stores, hj, hleaver, Option.any_some, Bool.and_eq_true, decide_eq_true_eq]
    show (if _ then Function.update w.getSessionPtr _ none else w.getSessionPtr) x = _
    by_cases hclean : c.cleanSession = true
    · rw [if_pos hclean, Function.update_apply, if_congr eq_comm rfl rfl]
      simp only [hclean, true_and]
      split_ifs <;> rfl
    · rw [if_neg hclean, if_neg fun h => hclean h.1]
      rfl

/-- Accepted CONNECTs and clients that leave change the tables, and nothing else does. -/
theorem follows_step (h : (broker cfg).Reachable w) (hst : (broker cfg).step w e = some w') :
    w.Follows cfg e w' := by
  cases hj : w.joining cfg e with
  | some j => exact follows_of_joining hst hj
  | none =>
    cases hleaver : w.leaver e with
    | some c => exact follows_of_leaves h hst hj (leaver_eq_some.1 hleaver)
    | none =>
      obtain ⟨hparam, hclient, hsession⟩ := tables_of_stays hst hj hleaver
      refine ⟨fun k => ?_, fun x => ?_, fun x => ?_⟩
      · simp only [hparam, World.seats, hj, hleaver]
        rfl
      · simp only [hclient, World.registers, hj, hleaver]
        rfl
      · simp only [hsession, World.stores, hj, hleaver]
        rfl

/-! ## Runs -/

/-- Who is at a channel, who is registered under an id and which session is stored there,
    is what the last call made it that changed it. -/
theorem present_run_iff (h : (broker cfg).Run l w) :
    (∀ k c, w.param k = some c ↔ Machine.LastPut (fun y => y.1.seats cfg k y.2) l (some c)) ∧
    (∀ x c, w.getClientPtr x = some c ↔
      Machine.LastPut (fun y => y.1.registers cfg x y.2) l (some c)) ∧
    ∀ x s, w.getSessionPtr x = some s ↔
      Machine.LastPut (fun y => y.1.stores cfg x y.2) l (some s) := by
  refine ⟨fun k c => ?_, fun x c => ?_, fun x s => ?_⟩
  · exact h.lastPut_iff (fun w => w.param k) (fun y => y.1.seats cfg k y.2) rfl
      (fun _ _ _ hv hst => (follows_step hv hst).seats k) c
  · exact h.lastPut_iff (fun w => w.getClientPtr x) (fun y => y.1.registers cfg x y.2) rfl
      (fun _ _ _ hv hst => (follows_step hv hst).registers x) c
  · exact h.lastPut_iff (fun w => w.getSessionPtr x) (fun y => y.1.stores cfg x y.2) rfl
      (fun _ _ _ hv hst => (follows_step hv hst).stores x) s

/-- A client connects as `a` and then, on the same channel, as `b`. One that connects as
    `a` on another channel drives it off; it stays registered as `b`, and the session of
    `a` is handed on. -/
theorem present_run_renamed : ∃ l w c d, (broker mqttdCfg).Run l w ∧
    w.param 1 = none ∧ w.getClientPtr [0x62] = some c ∧ c.channelId = 1 ∧ w.param 2 = some d ∧
    Machine.LastPut (fun y => y.1.registers mqttdCfg [0x62] y.2) l (some c) ∧
    Machine.LastPut (fun y => y.1.seats mqttdCfg 2 y.2) l (some d) ∧
    Machine.LastPut (fun y => y.1.stores mqttdCfg [0x61] y.2) l (some d.session) := by
  have hruns : runs (fun _ _ => true) [.accept 1, .accept 2, .read 1 (connectBytes 0x00 [0x61] []),
      .read 1 (connectBytes 0x00 [0x62] []), .read 2 (connectBytes 0x00 [0x61] [])]
      (fun w => (w.param 1).isNone && (w.getClientPtr [0x62]).any (fun c => c.channelId = 1) &&
        (w.param 2).any fun d => w.getSessionPtr [0x61] = some d.session) = true := by
    decide +kernel
  obtain ⟨l, w, hl, -, hw⟩ := exists_run hruns
  obtain ⟨hw, hd⟩ := Bool.and_eq_true_iff.1 hw
  obtain ⟨hnone, hc⟩ := Bool.and_eq_true_iff.1 hw
  obtain ⟨c, hc, hchannel⟩ := (Option.any_eq_true _ _).1 hc
  obtain ⟨d, hd, hsession⟩ := (Option.any_eq_true _ _).1 hd
  obtain ⟨hseats, hregisters, hstores⟩ := present_run_iff hl
  exact ⟨l, w, c, d, hl, Option.isNone_iff_eq_none.1 hnone, hc, of_decide_eq_true hchannel, hd,
    (hregisters _ _).1 hc, (hseats _ _).1 hd, (hstores _ _).1 (of_decide_eq_true hsession)⟩

end MqttBroker
