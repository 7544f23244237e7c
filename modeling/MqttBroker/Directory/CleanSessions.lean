import MqttBroker.Delivery.Outcomes

/-!
# Clean sessions

A session that was made for a client asking for a clean session is given to no
later client (`World.CleanNotResumed`), as long as no such client is displaced
by one asking for the stored session (`cleanNotResumed_iff`). A clean session is
stored like any other, and `handle_disconnect` and `handle_channel_disconnected`
remove it, which are never called for a displaced client.

Whether a session was given before is what the CONNACK says that the client is
written (`World.Told`).
-/

namespace MqttBroker

variable {cfg : Config} {w w' : World} {e : Event} {j : Joining} {l : List (World × Event)}

/-- The channel of a CONNACK that accepts a CONNECT, and `session_present`. -/
def Packet.acceptance : ChannelId × Packet → Option (ChannelId × Bool)
  | (k, .connack packet) =>
    if packet.connectReturnCode = 0x00 then some (k, packet.sessionPresent) else none
  | _ => none

/-- Each client that is given a session is written a CONNACK, with its `session_present`,
    and no other CONNECT is accepted. -/
def World.Told (w : World) : Prop :=
  w.written.filterMap Packet.acceptance = w.attachments.map fun x => (x.1.channelId, x.2)

/-- The session a client is given was not made before for a client asking for a
    clean session; and it was made before for another, if `session_present` says
    so. -/
def World.CleanNotGiven (w : World) : Prop :=
  ∀ l c sessionPresent, l ++ [(c, sessionPresent)] <+: w.attachments →
    (∀ c', (c', false) ∈ l → c'.cleanSession = true → c'.session ≠ c.session) ∧
      (sessionPresent = true →
        ∃ c', (c', false) ∈ l ∧ c'.cleanSession = false ∧ c'.session = c.session)

/-- The clients are told whether they are given a session that was there, and none is given
    a clean one. -/
def World.CleanNotResumed (w : World) : Prop := w.Told ∧ w.CleanNotGiven

/-- An accepted CONNECT asks for the stored session and displaces a client that
    asked for a clean one. -/
def World.Inherits (cfg : Config) (w : World) (e : Event) : Prop :=
  ∃ j ∈ w.joining cfg e, j.packet.cleanSession = false ∧
    ∃ old ∈ w.getClientPtr j.packet.clientId, old.cleanSession = true

instance (w : World) (e : Event) : Decidable (w.Inherits cfg e) :=
  inferInstanceAs (Decidable (∃ j ∈ w.joining cfg e, _))

/-- The session was made for a client, which asked for a clean one or not. -/
def World.Made (w : World) (clean : Bool) (s : SessionRef) : Prop :=
  ∃ c, (c, false) ∈ w.attachments ∧ c.cleanSession = clean ∧ c.session = s

/-- What holds along with the claim: a clean session is stored as long as its
    client is registered, and every stored session was made. -/
structure World.CleanInv (w : World) : Prop where
  valid : w.directory.Valid (· ≠ [])
  live : w.directory.CleanLive (· ≠ []) (w.Made true)
  stored {x s} : w.directory.session x = some s → ∃ clean, w.Made clean s

theorem inherits_iff (hj : w.joining cfg e = some j) :
    w.directory.allocate.Inherits (j.client w) j.packet.clientId ↔ w.Inherits cfg e := by
  constructor
  · rintro ⟨old, hold, hclean, hc⟩
    exact ⟨j, hj, hc, old, hold, hclean⟩
  · rintro ⟨i, hi, hc, old, hold, hclean⟩
    obtain rfl := Option.some.inj (hj.symm.trans hi)
    exact ⟨old, hold, hclean, hc⟩

/-- A client asking for the stored session has an id of its own. -/
theorem clientId_ne_nil_of_joining (hj : w.joining cfg e = some j)
    (hc : j.packet.cleanSession = false) :
    j.packet.clientId ≠ [] ∧ j.clientId = j.packet.clientId := by
  rcases joining_clientId hj with hid | ⟨-, -, hc'⟩
  · exact hid
  · cases hc.symm.trans hc'

/-- The sessions made before a connection, and the one made in it. -/
theorem made_step (hst : (broker cfg).step w e = some w') (hj : w.joining cfg e = some j)
    (clean : Bool) (s : SessionRef) : w'.Made clean s ↔ w.Made clean s ∨
      s = w.directory.allocate.nextSession ∧
        w.directory.allocate.sessionPresent (j.client w) j.clientId = false ∧
        (j.client w).cleanSession = clean := by
  have hsession := Directory.newcomer_session w.directory.allocate (j.client w) j.clientId
  simp only [World.Made, (step_joining hst hj).2, List.mem_append, List.mem_singleton,
    Prod.mk.injEq]
  constructor
  · rintro ⟨c, hc | ⟨rfl, hp⟩, hclean, hs⟩
    · exact .inl ⟨c, hc, hclean, hs⟩
    · rw [← hp, if_neg Bool.false_ne_true] at hsession
      exact .inr ⟨hs.symm.trans hsession, hp.symm, by rwa [Directory.newcomer_cleanSession] at hclean⟩
  · rintro (⟨c, hc, hclean, hs⟩ | ⟨hs, hp, hclean⟩)
    · exact ⟨c, .inl hc, hclean, hs⟩
    · rw [hp, if_neg Bool.false_ne_true] at hsession
      exact ⟨_, .inr ⟨rfl, hp.symm⟩, by rwa [Directory.newcomer_cleanSession], hsession.trans hs.symm⟩

theorem cleanInv_step (hst : (broker cfg).step w e = some w') (h : w.CleanInv)
    (hok : ¬w.Inherits cfg e) : w'.CleanInv := by
  have hv' := valid_step hst h.valid fun hP => absurd rfl hP
  rcases step_cases hst with ⟨-, hsteps, hatt⟩ | ⟨j, hj, hdir, -⟩
  · -- No client is attached, and a session that is stored was stored before.
    have hmade : w'.Made = w.Made := by
      funext clean s
      rw [World.Made, hatt, World.Made]
    refine ⟨hv', hmade ▸ h.live.steps h.valid hsteps, fun {x s} hs => hmade ▸ h.stored (x := x) ?_⟩
    generalize w'.directory = d at hsteps hs
    induction hsteps with
    | refl => exact hs
    | tail _ hlast ih => exact ih (hlast.session hs)
  · have hvalid := h.valid.allocate
    have hlive := h.live.allocate
    refine ⟨hv', ?_, fun {x s} hs => ?_⟩
    · rw [hdir]
      have hborn := made_step hst hj true
      rcases joining_clientId hj with ⟨hne, hid⟩ | ⟨hempty, hfree, -⟩
      · refine hlive.connect hvalid (.inr hid) (fun _ => hid) (fun _ hd => hok ?_) hborn
        rw [hid] at hd
        exact (inherits_iff hj).1 hd
      · refine hlive.connect hvalid (.inl hfree) (fun hne => absurd hempty hne) ?_ hborn
        rintro - ⟨old, hold, -⟩
        cases hfree.symm.trans hold
    · rw [hdir, Directory.connect_session] at hs
      have hsession := Directory.newcomer_session w.directory.allocate (j.client w) j.clientId
      have hold : ∀ {y}, w.directory.session y = some s → ∃ clean, w'.Made clean s := by
        intro y hy
        obtain ⟨clean, hm⟩ := h.stored hy
        exact ⟨clean, (made_step hst hj clean s).2 (.inl hm)⟩
      split_ifs at hs hsession with hx hp
      · exact hold (hsession.2.trans hs)
      · -- The session under the id of the newcomer is made with its connection.
        refine ⟨_, (made_step hst hj _ s).2 (.inr ⟨?_, Bool.not_eq_true _ ▸ hp, rfl⟩)⟩
        exact (Option.some.inj hs).symm.trans hsession
      · exact hold hs
      · exact hold hs

theorem cleanInv_of_run (h : (broker cfg).Run l w) (hok : ∀ x ∈ l, ¬x.1.Inherits cfg x.2) :
    w.CleanInv := by
  refine h.invariant (I := World.CleanInv) (P := fun w e => ¬w.Inherits cfg e) ?_
    (fun _ _ _ hw hc hst => cleanInv_step hst hw hc) hok
  have hnone : ∀ {clean s}, ¬World.start.Made clean s := fun ⟨_, hc, _⟩ => List.not_mem_nil hc
  exact ⟨valid_start, ⟨fun hb => absurd hb hnone, fun hs => (by cases hs), fun hy => (by cases hy)⟩,
    fun hs => (by cases hs)⟩

/-- A connection keeps clean sessions from being given again exactly when it does
    not inherit one. -/
theorem cleanNotGiven_step (hst : (broker cfg).step w e = some w') (h : w.CleanInv)
    (hw : w.CleanNotGiven) : w'.CleanNotGiven ↔ ¬w.Inherits cfg e := by
  rcases step_cases hst with ⟨hj, -, hatt⟩ | ⟨j, hj, -, hatt⟩
  · rw [World.CleanNotGiven, hatt]
    refine ⟨fun _ ⟨j, hj', _⟩ => ?_, fun _ => hw⟩
    cases hj.symm.trans hj'
  have hlive := h.live.allocate
  have hvalid := h.valid.allocate
  have hsession := Directory.newcomer_session w.directory.allocate (j.client w) j.clientId
  constructor
  · intro hw' hin
    obtain ⟨i, hi, hc, -⟩ := id hin
    obtain rfl := Option.some.inj (hj.symm.trans hi)
    obtain ⟨hne, hid⟩ := clientId_ne_nil_of_joining hj hc
    obtain ⟨hp, c, hmem, hclean, hs⟩ := hlive.born_newcomer hvalid hne ((inherits_iff hj).2 hin)
    refine (hw' w.attachments _ _ ⟨[], (List.append_nil _).trans hatt.symm⟩).1 c hmem hclean ?_
    rw [hid]
    exact hs
  · intro hin l c p hl
    rw [hatt, List.prefix_concat_iff] at hl
    rcases hl with hl | hl
    · -- The attachment is that of this connection.
      obtain ⟨rfl, hcp⟩ := List.append_inj' hl rfl
      obtain ⟨rfl, rfl⟩ := Prod.mk.injEq _ _ _ _ ▸ List.singleton_inj.1 hcp
      have hnot : ¬w.Made true
          (w.directory.allocate.newcomer (j.client w) j.clientId).session := by
        intro hb
        split_ifs at hsession with hp
        · obtain ⟨hne, hid⟩ := clientId_ne_nil_of_joining hj hsession.1
          rw [hid] at hb hp
          exact hlive.not_born_newcomer hne hp (fun hd => hin ((inherits_iff hj).1 hd)) hb
        · rw [hsession] at hb
          exact absurd (hlive.lt hb) (Nat.lt_irrefl _)
      refine ⟨fun c' hc' hclean hs => hnot ⟨c', hc', hclean, hs⟩, fun hp => ?_⟩
      rw [if_pos hp] at hsession
      obtain ⟨clean, c', hc', hclean, hs⟩ := h.stored hsession.2
      refine ⟨c', hc', Bool.eq_false_iff.2 fun htrue => ?_, hs⟩
      exact hnot ⟨c', hc', htrue, hs⟩
    · exact hw l c p hl

/-! ## CONNACKs -/

/-- A CONNECT that is not accepted is refused. -/
theorem refusalCode_ne_zero {draws : List (Nat × Nat)} {packet : MqttConnect}
    (h : (w.checkIntegrity draws packet).isSome) : w.refusalCode draws packet ≠ 0x00 := by
  obtain ⟨r, hr⟩ := Option.isSome_iff_exists.1 h
  rw [World.refusalCode, hr]
  dsimp only [Option.elim_some]
  split_ifs with hcode
  · decide
  · exact hcode

/-- An accepted CONNECT is answered with one CONNACK that accepts it. -/
theorem acceptance_answers_of_joining (hj : w.joining cfg e = some j) :
    (w.answers cfg e).filterMap Packet.acceptance =
      [(j.channelId, (w.storedSession j).isSome)] := by
  have hnone : ∀ {α : Type} (f : α → Packet) (as : List α),
      (∀ a, Packet.acceptance (j.channelId, f a) = none) →
        ((as.map f).map fun p => (j.channelId, p)).filterMap Packet.acceptance = [] := by
    intro α f as hf
    rw [List.map_map, List.filterMap_map]
    exact List.filterMap_eq_nil_iff.2 fun a _ => hf a
  rw [World.answers, hj]
  dsimp only
  rw [World.welcome]
  cases w.storedSession j with
  | none => rfl
  | some s =>
    refine congrArg (List.cons _) ?_
    rw [List.map_append, List.map_append, List.filterMap_append, List.filterMap_append,
      hnone _ _ fun _ => rfl, hnone _ _ fun _ => rfl, hnone _ _ fun _ => rfl]
    rfl

/-- Nothing else is. -/
theorem acceptance_answers (hst : (broker cfg).step w e = some w') (hj : w.joining cfg e = none) :
    (w.answers cfg e).filterMap Packet.acceptance = [] := by
  cases hp : e.packet with
  | none => rw [(answers_of_no_packet cfg w hp).2, List.filterMap_nil]
  | some p =>
    by_cases hconnect : ∃ packet, p = .connect packet
    · obtain ⟨packet, rfl⟩ := hconnect
      have hcode := refusalCode_ne_zero (checkIntegrity_isSome_of_step hst hp)
      rw [World.answers, hj, hp]
      refine List.filterMap_cons_none ?_
      exact if_neg hcode
    · rw [answers_of_packet cfg hp fun packet h => hconnect ⟨packet, h⟩]
      cases w.param e.action.channelId with
      | none => rfl
      | some c =>
        cases p with
        | publish m =>
          show (m.answer _).filterMap _ = []
          rw [MqttPublish.answer]
          split_ifs <;> rfl
        | _ => rfl

/-- In a step, the client that is given a session is told. -/
theorem told_step (h : (broker cfg).Reachable w) (hst : (broker cfg).step w e = some w')
    (hw : w.Told) : w'.Told := by
  obtain ⟨xs, -, hwritten, -⟩ := replied_of_step h hst
  have hdelivered : (xs.map Delivered.written).filterMap Packet.acceptance = [] := by
    rw [List.filterMap_map]
    exact List.filterMap_eq_nil_iff.2 fun x _ => rfl
  rw [World.Told, hwritten, List.filterMap_append, List.filterMap_append, hdelivered,
    List.append_nil, hw]
  rcases step_cases hst with ⟨hj, -, hatt⟩ | ⟨j, hj, -, hatt⟩
  · rw [acceptance_answers hst hj, hatt, List.append_nil]
  · rw [acceptance_answers_of_joining hj, hatt, List.map_append]
    have hpresent : w.directory.allocate.sessionPresent (j.client w) j.clientId =
        (w.storedSession j).isSome := by
      rw [World.storedSession]
      rcases w.directory.allocate.connect_cases j.channelId (j.client w) j.clientId with
        ⟨s, hclean, hs, -, hp, -⟩ | ⟨hfresh, -, hp, -⟩
      · have hclean : j.packet.cleanSession = false := hclean
        have hs : w.sessions j.packet.clientId = some s := hs
        rw [hp, hclean, hs]
        rfl
      · have hfresh : j.packet.cleanSession = true ∨ w.sessions j.packet.clientId = none := hfresh
        rw [hp]
        rcases hfresh with hfresh | hfresh <;> simp [hfresh]
    rw [List.map_singleton, hpresent, Directory.newcomer_channelId]
    rfl

theorem told_of_reachable (h : (broker cfg).Reachable w) : w.Told :=
  h.induct (I := World.Told) (by rfl) fun _ _ _ h ih hst => told_step h hst ih

/-- A clean session is not resumed in a run in which none is inherited, and a
    step that inherits one ends that. -/
theorem cleanNotResumed_iff (h : (broker cfg).Run l w) (hok : ∀ x ∈ l, ¬x.1.Inherits cfg x.2) :
    w.CleanNotResumed ∧ ∀ e w', (broker cfg).step w e = some w' →
      (w'.CleanNotResumed ↔ ¬w.Inherits cfg e) := by
  have hw : w.CleanInv ∧ w.CleanNotGiven := by
    refine h.invariant (I := fun w => w.CleanInv ∧ w.CleanNotGiven)
      (P := fun w e => ¬w.Inherits cfg e) ⟨cleanInv_of_run .init (by simp), ?_⟩ ?_ hok
    · intro l c p hl
      exact absurd (List.prefix_nil.1 hl) (by simp)
    · exact fun w e w' hw hc hst =>
        ⟨cleanInv_step hst hw.1 hc, (cleanNotGiven_step hst hw.1 hw.2).2 hc⟩
  refine ⟨⟨told_of_reachable h.reachable, hw.2⟩, fun e w' hst => ?_⟩
  rw [World.CleanNotResumed, and_iff_right (told_of_reachable (h.reachable.step hst))]
  exact cleanNotGiven_step hst hw.1 hw.2

/-- A clean session ends with its client, and a stored one is resumed. -/
theorem cleanNotResumed_resumed : ∃ w, (broker mqttdCfg).Reachable w ∧
    w.attachments.map Prod.snd = [false, false, true] ∧ w.CleanNotResumed := by
  have hruns : runs (fun w e => !decide (w.Inherits mqttdCfg e))
      [.accept 1, .accept 2, .accept 3, .read 1 (connectBytes 0x02 [0x61] []), .disconnected 1,
        .read 2 (connectBytes 0x00 [0x61] []), .disconnected 2,
        .read 3 (connectBytes 0x00 [0x61] [])]
      (fun w => decide (w.attachments.map Prod.snd = [false, false, true])) = true := by
    decide +kernel
  obtain ⟨l, w, hl, hok, hp⟩ := exists_run hruns
  refine ⟨w, hl.reachable, of_decide_eq_true hp, (cleanNotResumed_iff hl fun x hx => ?_).1⟩
  simpa using hok x hx

/-- A client with a clean session is displaced by one asking for the stored
    session, and is given the clean one. -/
theorem clean_session_resumed : ¬∀ w, (broker mqttdCfg).Reachable w → w.CleanNotResumed := by
  intro h
  have hruns : runs (fun _ _ => true)
      [.accept 1, .accept 2, .read 1 (connectBytes 0x02 [0x61] []),
        .read 2 (connectBytes 0x00 [0x61] [])]
      (fun w => w.attachments.head?.any fun x => w.attachments.tail.head?.any fun y =>
        decide (w.attachments = [(x.1, false), y] ∧ x.1.cleanSession = true ∧
          x.1.session = y.1.session)) = true := by
    decide +kernel
  obtain ⟨l, w, hl, -, hp⟩ := exists_run hruns
  obtain ⟨x, -, hp⟩ := Option.any_eq_true _ _ |>.1 hp
  obtain ⟨y, -, hp⟩ := Option.any_eq_true _ _ |>.1 hp
  obtain ⟨hatt, hclean, hs⟩ := of_decide_eq_true hp
  exact ((h w hl.reachable).2 [(x.1, false)] y.1 y.2 ⟨[], hatt.symm⟩).1 x.1
    (List.mem_singleton_self _) hclean hs

end MqttBroker
