import Mathlib.Data.List.Forall2
import Mathlib.Data.List.Infix
import MqttBroker.Codec.Read

/-!
# Packets arriving in chunks

Shan.Net keeps the unread bytes of a channel in its receive buffer, and calls
the handlers again while bytes remain or arrive: `drain` and `feed` are that
loop around `channelRead`. `packet_handler::channel_read` throws on what is not
a packet object, and the channel is closed.

A decoder given the first bytes of a packet waits for more, unless the cut falls
inside the remaining length with two bytes or more before it: then the
`streambuf` itself is passed down (`channelRead_prefix_iff`). So a sequence of
packets comes out of its chunks, whole and without an error, exactly when no
chunk ends there (`feed_iff`).
-/

namespace MqttBroker

open Reader

/-- `w` is the fixed header and the body of a packet, which the decoder accepts
    as `p` when all of it is there. -/
def Encodes (w : Bytes) (p : Packet) : Prop :=
  ∃ fh body, decodeFixedHeader w = .ok (fh, body) ∧ body.length = fh.remainingLength ∧
    decodeBody fh body = .ok (some p, [])

/-- The length of the fixed header at the head of `w`. -/
def headerLength (w : Bytes) : Nat :=
  match decodeFixedHeader w with
  | .ok (_, body) => w.length - body.length
  | .error _ => 0

/-! ## Cuts in a packet -/

theorem starves_decodeRemainingLengthLoop (fuel length shift : Nat) :
    Starves .notEnough (decodeRemainingLengthLoop fuel length shift) := by
  induction fuel generalizing length shift with
  | zero => exact starves_pure _ _
  | succ fuel ih =>
    refine starves_bind (starves_next _) fun b => starves_bind ?_ fun _ => ?_
    · refine starves_of_takes_nothing (local_rejectIf _ _) fun s a r h => ?_
      rw [rejectIf] at h
      split_ifs at h
      · cases h
      · cases h
        rfl
    · exact starves_ite (ih _ _) (starves_pure _ _)

/-- A fixed header that is cut is one with bytes missing. -/
theorem starves_decodeFixedHeader : Starves .notEnough decodeFixedHeader := by
  refine starves_bind (starves_next _) fun b => starves_bind ?_ fun _ =>
    starves_bind (starves_decodeRemainingLengthLoop 4 0 0) fun _ => starves_pure _ _
  refine starves_of_takes_nothing (local_ofCheck _) fun s a r h => ?_
  rcases hc : FixedHeader.checkFlags (PacketType.ofCode (b >>> 4)) (b &&& 0x0f) with e | ⟨⟩
  · rw [hc] at h
    cases h
  · rw [hc] at h
    cases h
    rfl

theorem Encodes.two_le_length {w : Bytes} {p : Packet} (h : Encodes w p) : 2 ≤ w.length := by
  obtain ⟨fh, body, hfh, -, -⟩ := h
  obtain ⟨b, s, rfl, -, -, -, hrl⟩ := decodeFixedHeader_eq_ok hfh
  have := (decodeRemainingLength_spec hrl).1
  rw [List.length_cons]
  omega

/-- A packet is decoded from its bytes, and what follows them is left. -/
theorem Encodes.channelRead_append {w : Bytes} {p : Packet} (h : Encodes w p) (t : Bytes) :
    channelRead (w ++ t) = .packet p t := by
  have h2 := h.two_le_length
  obtain ⟨fh, body, hfh, hl, hb⟩ := h
  obtain ⟨u, rfl, hu⟩ := local_decodeFixedHeader w fh body hfh
  obtain ⟨v, hv, hv'⟩ := local_decodeBody fh body _ [] hb
  rw [List.append_nil] at hv
  subst hv
  refine channelRead_eq_packet.2 ⟨by rw [List.length_append]; omega, fh, body ++ t, ?_, ?_, hv' t⟩
  · rw [List.append_assoc]
    exact hu _
  · rw [List.length_append]
    omega

/-- The cut after `n` bytes of `w` falls inside the remaining length, after its
    first byte. -/
def CutsHeader (w : Bytes) (n : Nat) : Prop := 2 ≤ n ∧ n < headerLength w

/-- What `channel_read` does with the first bytes of a packet: it waits for
    more, except inside the remaining length. -/
theorem Encodes.channelRead_prefix {w : Bytes} {p : Packet} (h : Encodes w p) {u v : Bytes}
    (huv : w = u ++ v) (hv : v ≠ []) :
    (CutsHeader w u.length → channelRead u = .handOn u) ∧
      (¬CutsHeader w u.length → channelRead u = .done u) := by
  obtain ⟨fh, body, hfh, hl, -⟩ := h
  obtain ⟨x, hx, hlocal, hstarve⟩ := starves_decodeFixedHeader w fh body hfh
  have hheader : headerLength w = x.length := by
    rw [headerLength, hfh, hx, List.length_append]
    exact Nat.add_sub_cancel _ _
  rw [CutsHeader, hheader]
  constructor
  · rintro ⟨h2, hlt⟩
    rcases List.append_eq_append_iff.1 (huv.symm.trans hx) with ⟨y, rfl, -⟩ | ⟨y, rfl, -⟩
    · have hy : y ≠ [] := by
        rintro rfl
        rw [List.append_nil] at hlt
        exact Nat.lt_irrefl _ hlt
      rw [channelRead, if_pos h2, hstarve u y rfl hy]
    · rw [List.length_append] at hlt
      omega
  · intro hn
    by_cases h2 : 2 ≤ u.length
    · -- The header is whole, and it is the body that is cut.
      have hge : x.length ≤ u.length := Nat.le_of_not_lt fun hlt => hn ⟨h2, hlt⟩
      obtain ⟨y, rfl⟩ : ∃ y, u = x ++ y := by
        rcases List.append_eq_append_iff.1 (huv.symm.trans hx) with ⟨y, rfl, -⟩ | ⟨y, rfl, -⟩
        · rw [List.length_append] at hge
          obtain rfl : y = [] := List.length_eq_zero_iff.1 (by omega)
          exact ⟨[], by simp⟩
        · exact ⟨y, rfl⟩
      have hbody : body = y ++ v := by
        rw [hx, List.append_assoc] at huv
        exact List.append_cancel_left huv
      have hshort : y.length < fh.remainingLength := by
        rw [← hl, hbody, List.length_append]
        have := List.length_pos_iff.2 hv
        omega
      simp only [channelRead, if_pos h2, hlocal y, if_pos hshort]
    · rw [channelRead, if_neg h2]

/-- `channel_read` waits for the rest of a packet exactly when the cut is not
    inside its remaining length, after the first byte of it. -/
theorem channelRead_prefix_iff {w u v : Bytes} {p : Packet} (h : Encodes w p) (huv : w = u ++ v)
    (hv : v ≠ []) : channelRead u = .done u ↔ ¬CutsHeader w u.length := by
  obtain ⟨hcut, hwait⟩ := h.channelRead_prefix huv hv
  refine ⟨fun hd hc => ?_, hwait⟩
  rw [hcut hc] at hd
  cases hd

/-! ## Cuts in a stream -/

theorem channelRead_packet_length {sb rest : Bytes} {p : Packet}
    (h : channelRead sb = .packet p rest) : rest.length < sb.length := by
  obtain ⟨_, fh, body, hfh, -, hb⟩ := channelRead_eq_packet.1 h
  obtain ⟨b, s, rfl, -, -, -, hrl⟩ := decodeFixedHeader_eq_ok hfh
  have hs := (decodeRemainingLength_spec hrl).1
  obtain ⟨v, rfl, -⟩ := local_decodeBody fh body _ rest hb
  rw [List.length_append] at hs
  rw [List.length_cons]
  omega

/-- The calls of `channel_read` on the bytes received, while it takes packets:
    the packets, and the bytes left, or none when the channel is closed. -/
def drain (sb : Bytes) : List Packet × Option Bytes :=
  match _h : channelRead sb with
  | .done sb => ([], some sb)
  | .handOn _ => ([], none) -- `packet_handler::channel_read` throws
  | .threw _ => ([], none)
  | .packet p rest => (p :: (drain rest).1, (drain rest).2)
termination_by sb.length
decreasing_by all_goals exact channelRead_packet_length ‹_›

/-- The chunks `cs` arriving in turn on a channel with the bytes `sb` unread. -/
def feed : Bytes → List Bytes → List Packet × Option Bytes
  | sb, [] => ([], some sb)
  | sb, c :: cs =>
    match drain (sb ++ c) with
    | (ps, none) => (ps, none)
    | (ps, some sb) => (ps ++ (feed sb cs).1, (feed sb cs).2)

/-- The cut after `n` bytes of the packets `ws` falls inside a remaining length,
    after its first byte. -/
def CutsAt : List Bytes → Nat → Prop
  | [], _ => False
  | w :: ws, n => if n < w.length then CutsHeader w n else CutsAt ws (n - w.length)

theorem drain_of_done {u : Bytes} (h : channelRead u = .done u) : drain u = ([], some u) := by
  rw [drain]
  split <;> simp_all

theorem drain_of_handOn {u v : Bytes} (h : channelRead u = .handOn v) : drain u = ([], none) := by
  rw [drain]
  split <;> simp_all

theorem drain_of_packet {u v : Bytes} {p : Packet} (h : channelRead u = .packet p v) :
    drain u = (p :: (drain v).1, (drain v).2) := by
  rw [drain]
  split <;> simp_all

theorem drain_nil : drain [] = ([], some []) := drain_of_done rfl

/-- Whole packets come out, and what follows them is drained. -/
theorem drain_append {ws : List Bytes} {ps : List Packet} (h : List.Forall₂ Encodes ws ps)
    (u : Bytes) : drain (ws.flatten ++ u) = (ps ++ (drain u).1, (drain u).2) := by
  induction h with
  | nil => simp
  | cons hw _ ih =>
    rw [List.flatten_cons, List.append_assoc, drain_of_packet (hw.channelRead_append _), ih]
    rfl

theorem exists_encodes_of_mem {ws : List Bytes} {ps : List Packet}
    (h : List.Forall₂ Encodes ws ps) {w : Bytes} (hw : w ∈ ws) : ∃ p, Encodes w p := by
  induction h with
  | nil => cases hw
  | cons hp _ ih =>
    rcases List.mem_cons.1 hw with rfl | hw
    · exact ⟨_, hp⟩
    · exact ih hw

/-- The first bytes of a stream are whole packets and a proper prefix of the
    next one. -/
theorem exists_split_of_prefix {ws : List Bytes} {u v : Bytes} (h : u ++ v = ws.flatten) :
    ∃ ds rs u', ws = ds ++ rs ∧ u = ds.flatten ++ u' ∧ u' ++ v = rs.flatten ∧
      ∀ w rs', rs = w :: rs' → u'.length < w.length := by
  induction ws generalizing u with
  | nil => exact ⟨[], [], u, rfl, rfl, h, fun w rs' he => by cases he⟩
  | cons w ws ih =>
    by_cases hlt : u.length < w.length
    · exact ⟨[], w :: ws, u, rfl, rfl, h, fun w' rs' he => by cases he; exact hlt⟩
    · rw [List.flatten_cons] at h
      obtain ⟨x, rfl⟩ : ∃ x, u = w ++ x := by
        rcases List.append_eq_append_iff.1 h with ⟨x, rfl, -⟩ | ⟨x, rfl, -⟩
        · rw [List.length_append] at hlt
          obtain rfl : x = [] := List.length_eq_zero_iff.1 (by omega)
          exact ⟨[], by simp⟩
        · exact ⟨x, rfl⟩
      rw [List.append_assoc] at h
      obtain ⟨ds, rs, u', rfl, rfl, h', hr⟩ := ih (List.append_cancel_left h)
      exact ⟨w :: ds, rs, u', rfl, by simp, h', hr⟩

theorem cutsAt_append (ds rs : List Bytes) (n : Nat) :
    CutsAt (ds ++ rs) (ds.flatten.length + n) ↔ CutsAt rs n := by
  induction ds with
  | nil => simp
  | cons d ds ih =>
    rw [List.cons_append, CutsAt, List.flatten_cons, List.length_append, if_neg (by omega),
      show d.length + ds.flatten.length + n - d.length = ds.flatten.length + n by omega]
    exact ih

/-- Draining a proper prefix of what the packets `rs` begin with. -/
theorem drain_prefix {rs : List Bytes} {ps : List Packet} (h : List.Forall₂ Encodes rs ps)
    {u v : Bytes} (huv : u ++ v = rs.flatten) (hu : ∀ w rs', rs = w :: rs' → u.length < w.length) :
    (CutsAt rs u.length → drain u = ([], none)) ∧
      (¬CutsAt rs u.length → drain u = ([], some u)) := by
  cases h with
  | nil =>
    obtain rfl : u = [] := (List.append_eq_nil_iff.1 huv).1
    exact ⟨fun hc => hc.elim, fun _ => drain_nil⟩
  | @cons w p rs ps hw _ =>
    have hlt := hu w rs rfl
    rw [CutsAt, if_pos hlt]
    obtain ⟨x, rfl⟩ : ∃ x, w = u ++ x := by
      rw [List.flatten_cons] at huv
      rcases List.append_eq_append_iff.1 huv with ⟨x, rfl, -⟩ | ⟨x, rfl, -⟩
      · exact ⟨x, rfl⟩
      · rw [List.length_append] at hlt
        omega
    have hx : x ≠ [] := by
      rintro rfl
      rw [List.append_nil] at hlt
      exact Nat.lt_irrefl _ hlt
    obtain ⟨hcut, hwait⟩ := hw.channelRead_prefix rfl hx
    exact ⟨fun hc => drain_of_handOn (hcut hc), fun hc => drain_of_done (hwait hc)⟩

/-- A stream continued from unread bytes comes out whole exactly when no chunk
    ends inside a remaining length. -/
theorem feed_iff {ws : List Bytes} {ps : List Packet} (h : List.Forall₂ Encodes ws ps)
    {sb : Bytes} {cs : List Bytes} (hcs : sb ++ cs.flatten = ws.flatten)
    (hsb : ∀ w ws', ws = w :: ws' → sb.length < w.length) (hcut : ¬CutsAt ws sb.length) :
    feed sb cs = (ps, some []) ↔ ∀ c, c <+: cs → ¬CutsAt ws (sb ++ c.flatten).length := by
  induction cs generalizing sb ws ps with
  | nil =>
    -- Nothing more arrives, so the packets have all come out.
    obtain rfl : ws = [] := by
      cases ws with
      | nil => rfl
      | cons w ws =>
        have := hsb w ws rfl
        rw [List.flatten_nil, List.append_nil] at hcs
        rw [hcs, List.flatten_cons, List.length_append] at this
        omega
    cases h
    obtain rfl : sb = [] := (List.append_eq_nil_iff.1 hcs).1
    exact ⟨fun _ _ _ hc => hc.elim, fun _ => rfl⟩
  | cons c cs ih =>
    rw [List.flatten_cons, ← List.append_assoc] at hcs
    obtain ⟨ds, rs, u, rfl, hu, hrs, hlt⟩ := exists_split_of_prefix hcs
    obtain ⟨pd, pr, hd, hr, rfl⟩ : ∃ pd pr, List.Forall₂ Encodes ds pd ∧
        List.Forall₂ Encodes rs pr ∧ ps = pd ++ pr := by
      have hd := List.forall₂_take ds.length h
      have hr := List.forall₂_drop ds.length h
      rw [List.take_left] at hd
      rw [List.drop_left] at hr
      exact ⟨_, _, hd, hr, (List.take_append_drop ds.length ps).symm⟩
    have hat : ∀ x : Bytes, CutsAt (ds ++ rs) (sb ++ c ++ x).length ↔ CutsAt rs (u ++ x).length := by
      intro x
      rw [hu, List.append_assoc, List.length_append, cutsAt_append]
    obtain ⟨hstop, hgo⟩ := drain_prefix hr hrs hlt
    by_cases hc : CutsAt rs u.length
    · have hdrain : drain (sb ++ c) = (pd, none) := by
        rw [hu, drain_append hd, hstop hc, List.append_nil]
      rw [feed, hdrain]
      refine ⟨fun he => (nomatch congrArg Prod.snd he), fun hall => absurd hc ?_⟩
      have := hall [c] (List.prefix_append [c] cs)
      rwa [List.flatten_singleton, ← List.append_nil (sb ++ c), hat, List.append_nil] at this
    · have hdrain : drain (sb ++ c) = (pd, some u) := by
        rw [hu, drain_append hd, hgo hc, List.append_nil]
      have hfeed : feed sb (c :: cs) = (pd ++ (feed u cs).1, (feed u cs).2) := by
        rw [feed, hdrain]
      rw [hfeed, Prod.mk.injEq, List.append_cancel_left_eq, ← Prod.mk.injEq, ih hr hrs hlt hc]
      constructor
      · intro hall b hb
        cases b with
        | nil => rwa [List.flatten_nil, List.append_nil]
        | cons c' b =>
          obtain ⟨rfl, hb'⟩ := List.cons_prefix_cons.1 hb
          rw [List.flatten_cons, ← List.append_assoc, hat]
          exact hall b hb'
      · intro hall b hb
        have := hall (c :: b) (List.cons_prefix_cons.2 ⟨rfl, hb⟩)
        rwa [List.flatten_cons, ← List.append_assoc, hat] at this

/-- Decoding does not depend on the chunks exactly as far as no cut falls inside
    a remaining length, after its first byte: such cuts apart, `channel_read`
    waits for the rest of a packet, and a stream of packets comes out of its
    chunks whole and without an error. -/
theorem chunking_iff {ws : List Bytes} {ps : List Packet} (h : List.Forall₂ Encodes ws ps) :
    (∀ w ∈ ws, ∀ u v, w = u ++ v → v ≠ [] →
      (channelRead u = .done u ↔ ¬CutsHeader w u.length)) ∧
    (∀ cs, cs.flatten = ws.flatten →
      (feed [] cs = (ps, some []) ↔ ∀ c, c <+: cs → ¬CutsAt ws c.flatten.length)) := by
  constructor
  · intro w hw u v huv hv
    obtain ⟨p, hp⟩ := exists_encodes_of_mem h hw
    exact channelRead_prefix_iff hp huv hv
  · intro cs hcs
    have hpos : ∀ w ws', ws = w :: ws' → ([] : Bytes).length < w.length := by
      rintro w ws' rfl
      cases h with
      | cons hw _ => exact Nat.lt_of_lt_of_le Nat.zero_lt_two hw.two_le_length
    have hcut : ¬CutsAt ws ([] : Bytes).length := by
      cases ws with
      | nil => exact fun hc => hc
      | cons w ws =>
        rw [CutsAt, if_pos (hpos w ws rfl), List.length_nil]
        exact fun hc => absurd hc.1 (by decide)
    exact feed_iff h hcs hpos hcut

/-- A PINGREQ and a PINGRESP, cut in the middle of the first. -/
theorem chunking_pingreq :
    feed [] [[0xc0], [0x00, 0xd0, 0x00]] =
      ([.pingreq ⟨.pingreq, 0, 0⟩, .pingresp ⟨.pingresp, 0, 0⟩], some []) := by
  have h : List.Forall₂ Encodes [[0xc0, 0x00], [0xd0, 0x00]]
      [.pingreq ⟨.pingreq, 0, 0⟩, .pingresp ⟨.pingresp, 0, 0⟩] :=
    .cons ⟨⟨.pingreq, 0, 0⟩, [], rfl, rfl, rfl⟩ (.cons ⟨⟨.pingresp, 0, 0⟩, [], rfl, rfl, rfl⟩ .nil)
  refine ((chunking_iff h).2 [[0xc0], [0x00, 0xd0, 0x00]] rfl).2 fun c hc => ?_
  rw [← List.mem_inits] at hc
  have hlen : c.flatten.length = 0 ∨ c.flatten.length = 1 ∨ c.flatten.length = 4 := by
    revert hc c
    decide
  rcases hlen with hn | hn | hn <;> rw [hn] <;> simp [CutsAt, CutsHeader]

/-- A PUBLISH of 128 bytes after its fixed header, with its first two bytes in
    the receive buffer: they are passed down, and the channel is closed. -/
theorem publish_cut_in_remaining_length : ¬∀ w p u v, Encodes w p → w = u ++ v → v ≠ [] →
    channelRead u = .done u := by
  intro h
  have hp : Encodes ([0x30, 0x80, 0x01, 0x00, 0x01, 0x61] ++ List.replicate 125 0x00)
      (.publish ⟨⟨.publish, 0, 128⟩, false, 0, false, [0x61], 0, List.replicate 125 0x00⟩) :=
    ⟨⟨.publish, 0, 128⟩, [0x00, 0x01, 0x61] ++ List.replicate 125 0x00, by decide +kernel,
      by decide +kernel, by decide +kernel⟩
  exact absurd (h _ _ [0x30, 0x80] ([0x01, 0x00, 0x01, 0x61] ++ List.replicate 125 0x00) hp rfl
    (by decide)) (by decide)

end MqttBroker
