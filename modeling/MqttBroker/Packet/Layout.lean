import MqttBroker.Packet.Decode

/-!
# What the decoders take

Every decoder is local (`local_decodeBody`): a packet decoded at the head of a
buffer depends only on the bytes it took. What a string takes is its length
prefix and as many bytes as that says (`decodeString_spec`); what it returns may
be shorter, as the loop drops a byte above `0xF7` where the first byte of a code
point is expected (`strayFree` rules these out).
-/

namespace MqttBroker

open Reader

/-! ## Checks -/

theorem rejectIf_bind_eq_ok {α : Type} {c : Prop} [Decidable c] {what : String}
    {k : Unit → PacketReader α} {s : Bytes} {x : α × Bytes}
    (h : (rejectIf c what >>= k) s = .ok x) : ¬c ∧ k () s = .ok x := by
  rw [rejectIf] at h
  split_ifs at h with hc
  · cases h
  · exact ⟨hc, h⟩

theorem rejectIf_bind_of_not {α : Type} {c : Prop} [Decidable c] {what : String}
    {k : Unit → PacketReader α} {s : Bytes} (hc : ¬c) : (rejectIf c what >>= k) s = k () s := by
  rw [rejectIf, if_neg hc]
  rfl

theorem ofCheck_bind_eq_ok {α : Type} {r : Except String Unit} {k : Unit → PacketReader α}
    {s : Bytes} {x : α × Bytes} (h : (ofCheck r >>= k) s = .ok x) : r = .ok () ∧ k () s = .ok x := by
  rcases r with what | ⟨⟩
  · cases h
  · exact ⟨rfl, h⟩

theorem local_rejectIf (c : Prop) [Decidable c] (what : String) : Local (rejectIf c what) :=
  local_ite (local_fail _) (local_pure ())

theorem local_readIf {α : Type} (flag : Bool) {m : PacketReader α} (hm : Local m) {default : α} :
    Local (readIf flag m default) :=
  local_ite hm (local_pure _)

theorem local_ofCheck (r : Except String Unit) : Local (ofCheck r) := by
  rcases r with what | ⟨⟩
  · exact local_fail _
  · exact local_pure ()

/-! ## Locality -/

theorem local_readUInt8 : Local readUInt8 := local_next _

theorem local_readUInt16 : Local readUInt16 :=
  local_bind local_readUInt8 fun _ => local_bind local_readUInt8 fun _ => local_pure _

theorem local_readBytes (n : Nat) : Local (readBytes n) := local_take _ n

theorem local_decodeRemainingLengthLoop (fuel length shift : Nat) :
    Local (decodeRemainingLengthLoop fuel length shift) := by
  induction fuel generalizing length shift with
  | zero => exact local_pure _
  | succ fuel ih =>
    refine local_bind local_readUInt8 fun b => local_bind (local_rejectIf _ _) fun _ => ?_
    exact local_ite (ih _ _) (local_pure _)

theorem local_decodeFixedHeader : Local decodeFixedHeader :=
  local_bind local_readUInt8 fun _ => local_bind (local_ofCheck _) fun _ =>
    local_bind (local_decodeRemainingLengthLoop 4 0 0) fun _ => local_pure _

theorem local_decodeCodePoint (ch : UInt8) : Local (decodeCodePoint ch) := by
  refine local_ite (local_fail _) (local_ite (local_pure _) (local_ite ?_ (local_ite ?_
    (local_ite ?_ (local_pure _)))))
  · exact local_bind local_readUInt8 fun _ => local_pure _
  · exact local_bind local_readUInt8 fun _ => local_bind (local_rejectIf _ _) fun _ =>
      local_bind local_readUInt8 fun _ => local_pure _
  · exact local_bind local_readUInt8 fun _ => local_bind local_readUInt8 fun _ =>
      local_bind local_readUInt8 fun _ => local_pure _

theorem local_decodeStringLoop (fuel left : Nat) : Local (decodeStringLoop fuel left) := by
  induction fuel generalizing left with
  | zero => exact local_pure _
  | succ fuel ih =>
    refine local_ite (local_pure _) (local_bind local_readUInt8 fun ch => ?_)
    refine local_bind (local_decodeCodePoint ch) fun _ => ?_
    exact local_bind (local_rejectIf _ _) fun _ => local_bind (ih _) fun _ => local_pure _

theorem local_decodeString : Local decodeString :=
  local_bind local_readUInt16 fun _ => local_decodeStringLoop _ _

theorem local_decodeBinary : Local decodeBinary :=
  local_bind local_readUInt16 fun _ => local_bind (local_readBytes _) fun _ =>
    local_bind (local_rejectIf _ _) fun _ => local_pure _

theorem local_decodeConnect (fh : FixedHeader) : Local (decodeConnect fh) := by
  refine local_bind local_decodeString fun _ => local_bind local_readUInt8 fun _ =>
    local_bind local_readUInt8 fun _ => ?_
  refine local_bind (local_rejectIf _ _) fun _ => local_bind (local_rejectIf _ _) fun _ =>
    local_bind (local_rejectIf _ _) fun _ => ?_
  refine local_bind local_readUInt16 fun _ => local_bind local_decodeString fun _ => ?_
  refine local_bind (local_readIf _ local_decodeString) fun _ =>
    local_bind (local_readIf _ local_decodeBinary) fun _ => ?_
  exact local_bind (local_readIf _ local_decodeString) fun _ =>
    local_bind (local_readIf _ local_decodeBinary) fun _ => local_pure _

theorem local_decodeConnack (fh : FixedHeader) : Local (decodeConnack fh) :=
  local_bind local_readUInt8 fun _ => local_bind (local_rejectIf _ _) fun _ =>
    local_bind local_readUInt8 fun _ => local_bind (local_rejectIf _ _) fun _ => local_pure _

/-- The check of the size of the buffer before a read of `n` bytes is local with
    the read: the bytes it asks for are taken. -/
theorem local_checked_readBytes {α : Type} (n : Nat) (what : String) {k : Bytes → PacketReader α}
    (hk : ∀ b, Local (k b)) :
    Local ((size : PacketReader Nat) >>= fun inSize => rejectIf (inSize < n) what >>= fun _ =>
      readBytes n >>= k) := by
  intro s a r h
  rw [size_bind_apply] at h
  obtain ⟨hn, h⟩ := rejectIf_bind_eq_ok h
  obtain ⟨u, hu, hl⟩ := local_bind (local_readBytes n) hk s a r h
  refine ⟨u, hu, fun t => ?_⟩
  rw [size_bind_apply, rejectIf_bind_of_not]
  · exact hl t
  · -- The bytes read are among those taken, so they are there before any rest.
    obtain ⟨b, t', hb, _⟩ := bind_eq_ok (hl t)
    obtain ⟨hut, rfl⟩ := take_eq_ok hb
    rw [hut, List.length_append]
    omega

theorem local_decodePublish (fh : FixedHeader) : Local (decodePublish fh) := by
  refine local_bind (local_rejectIf _ _) fun _ => local_bind (local_rejectIf _ _) fun _ =>
    local_bind local_decodeString fun _ => ?_
  refine local_bind (local_rejectIf _ _) fun _ => local_bind (local_rejectIf _ _) fun _ =>
    local_bind (local_rejectIf _ _) fun _ => ?_
  refine local_bind (local_readIf _ local_readUInt16) fun _ => ?_
  exact local_checked_readBytes _ _ fun _ => local_pure _

theorem local_decodeIdPacket (fh : FixedHeader) : Local (decodeIdPacket fh) :=
  local_bind local_readUInt16 fun _ => local_pure _

theorem local_decodeSubscribeLoop (fuel : Nat) (remain : Int) :
    Local (decodeSubscribeLoop fuel remain) := by
  induction fuel generalizing remain with
  | zero => exact local_pure _
  | succ fuel ih =>
    refine local_ite (local_pure _) (local_bind local_decodeString fun topic => ?_)
    refine local_bind (local_rejectIf _ _) fun _ => local_ite ?_ ?_
    · exact local_bind local_readUInt8 fun _ => local_bind (local_rejectIf _ _) fun _ =>
        local_bind (ih _) fun _ => local_pure _
    · exact local_bind (ih _) fun _ => local_pure _

theorem local_decodeSubscribe (fh : FixedHeader) : Local (decodeSubscribe fh) :=
  local_bind local_readUInt16 fun _ => local_bind (local_decodeSubscribeLoop _ _) fun _ =>
    local_bind (local_rejectIf _ _) fun _ => local_pure _

theorem local_decodeSubackLoop (count : Nat) : Local (decodeSubackLoop count) := by
  induction count with
  | zero => exact local_pure _
  | succ count ih =>
    exact local_bind local_readUInt8 fun _ => local_bind (local_rejectIf _ _) fun _ =>
      local_bind ih fun _ => local_pure _

theorem local_decodeSuback (fh : FixedHeader) : Local (decodeSuback fh) :=
  local_bind local_readUInt16 fun _ => local_bind (local_decodeSubackLoop _) fun _ => local_pure _

theorem local_decodeUnsubscribeLoop (fuel : Nat) (remain : Int) :
    Local (decodeUnsubscribeLoop fuel remain) := by
  induction fuel generalizing remain with
  | zero => exact local_pure _
  | succ fuel ih =>
    refine local_ite (local_pure _) (local_bind local_decodeString fun topic => ?_)
    exact local_bind (local_rejectIf _ _) fun _ => local_bind (ih _) fun _ => local_pure _

theorem local_decodeUnsubscribe (fh : FixedHeader) : Local (decodeUnsubscribe fh) :=
  local_bind local_readUInt16 fun _ => local_bind (local_decodeUnsubscribeLoop _ _) fun _ =>
    local_bind (local_rejectIf _ _) fun _ => local_pure _

/-- A packet decoded at the head of a buffer depends only on the bytes it took. -/
theorem local_decodeBody (fh : FixedHeader) : Local (decodeBody fh) := by
  rw [decodeBody]
  split
  · exact local_bind (local_decodeConnect fh) fun _ => local_pure _
  · exact local_bind (local_decodeConnack fh) fun _ => local_pure _
  · exact local_bind (local_decodePublish fh) fun _ => local_pure _
  · exact local_bind (local_decodeIdPacket fh) fun _ => local_pure _
  · exact local_bind (local_decodeIdPacket fh) fun _ => local_pure _
  · exact local_bind (local_decodeIdPacket fh) fun _ => local_pure _
  · exact local_bind (local_decodeIdPacket fh) fun _ => local_pure _
  · exact local_bind (local_decodeSubscribe fh) fun _ => local_pure _
  · exact local_bind (local_decodeSuback fh) fun _ => local_pure _
  · exact local_bind (local_decodeUnsubscribe fh) fun _ => local_pure _
  · exact local_bind (local_decodeIdPacket fh) fun _ => local_pure _
  · exact local_pure _
  · exact local_pure _
  · exact local_pure _
  · exact local_pure _

/-! ## Strings -/

/-- A 16-bit length, then the bytes: how strings and binaries are laid out. -/
def lengthPrefixed (s : Bytes) : Bytes :=
  UInt8.ofNat (s.length / 256) :: UInt8.ofNat s.length :: s

/-- How many bytes a code point takes, from its first byte. -/
def codePointWidth (ch : UInt8) : Nat :=
  if ch ≤ 0x7f then 1 else if ch ≤ 0xdf then 2 else if ch ≤ 0xef then 3
  else if ch ≤ 0xf7 then 4 else 1

/-- No byte above `0xF7` stands where the first byte of a code point is
    expected, `skip` bytes ahead. -/
def strayFree : Nat → Bytes → Bool
  | _, [] => true
  | skip + 1, _ :: s => strayFree skip s
  | 0, ch :: s => decide (ch ≤ 0xf7) && strayFree (codePointWidth ch - 1) s

theorem strayFree_skip (v s : Bytes) : strayFree v.length (v ++ s) = strayFree 0 s := by
  induction v with
  | nil => rfl
  | cons c v ih => exact ih

theorem decodeCodePoint_spec {ch : UInt8} {s r : Bytes} {x : Bytes × Nat}
    (h : decodeCodePoint ch s = .ok (x, r)) :
    ∃ v, s = v ++ r ∧ x.2 = codePointWidth ch ∧ v.length + 1 = codePointWidth ch ∧
      x.1 = if ch ≤ 0xf7 then ch :: v else [] := by
  rw [decodeCodePoint] at h
  by_cases h0 : ch = 0x00
  · rw [if_pos h0] at h
    cases h
  rw [if_neg h0] at h
  by_cases h1 : ch ≤ 0x7f
  · -- ASCII.
    rw [if_pos h1] at h
    cases h
    have hw : codePointWidth ch = 1 := if_pos h1
    exact ⟨[], rfl, hw.symm, hw.symm, (if_pos (UInt8.le_trans h1 (by decide))).symm⟩
  rw [if_neg h1] at h
  by_cases h2 : ch ≤ 0xdf
  · -- Two bytes, where a continuation byte passes for the first one, too.
    rw [if_pos h2] at h
    obtain ⟨c2, _, h5, h⟩ := bind_eq_ok h
    cases h
    have hw : codePointWidth ch = 2 := by rw [codePointWidth, if_neg h1, if_pos h2]
    exact ⟨[c2], next_eq_ok h5, hw.symm, hw.symm,
      (if_pos (UInt8.le_trans h2 (by decide))).symm⟩
  rw [if_neg h2] at h
  by_cases h3 : ch ≤ 0xef
  · -- Three bytes, which may be rejected.
    rw [if_pos h3] at h
    obtain ⟨c2, _, h5, h⟩ := bind_eq_ok h
    obtain ⟨_, h⟩ := rejectIf_bind_eq_ok h
    obtain ⟨c3, _, h6, h⟩ := bind_eq_ok h
    cases h
    have hw : codePointWidth ch = 3 := by rw [codePointWidth, if_neg h1, if_neg h2, if_pos h3]
    exact ⟨[c2, c3], by rw [next_eq_ok h5, next_eq_ok h6]; rfl, hw.symm, hw.symm,
      (if_pos (UInt8.le_trans h3 (by decide))).symm⟩
  rw [if_neg h3] at h
  by_cases h4 : ch ≤ 0xf7
  · rw [if_pos h4] at h
    obtain ⟨c2, _, h5, h⟩ := bind_eq_ok h
    obtain ⟨c3, _, h6, h⟩ := bind_eq_ok h
    obtain ⟨c4, _, h7, h⟩ := bind_eq_ok h
    cases h
    have hw : codePointWidth ch = 4 := by
      rw [codePointWidth, if_neg h1, if_neg h2, if_neg h3, if_pos h4]
    exact ⟨[c2, c3, c4], by rw [next_eq_ok h5, next_eq_ok h6, next_eq_ok h7]; rfl, hw.symm,
      hw.symm, (if_pos h4).symm⟩
  · -- A stray byte is passed over, and nothing is pushed.
    rw [if_neg h4] at h
    cases h
    have hw : codePointWidth ch = 1 := by
      rw [codePointWidth, if_neg h1, if_neg h2, if_neg h3, if_neg h4]
    exact ⟨[], rfl, hw.symm, hw.symm, (if_neg h4).symm⟩

/-- The loop of `decode_string` takes the bytes it is told to, and returns all
    of them exactly when none of them is stray. -/
theorem decodeStringLoop_spec {fuel left : Nat} (hf : left ≤ fuel) {s r a : Bytes}
    (h : decodeStringLoop fuel left s = .ok (a, r)) :
    ∃ u, s = u ++ r ∧ u.length = left ∧ a.length ≤ left ∧
      (strayFree 0 u = true ↔ a.length = left) ∧ (strayFree 0 u = true → a = u) := by
  induction fuel generalizing left s a with
  | zero =>
    obtain rfl : left = 0 := Nat.le_zero.1 hf
    cases h
    exact ⟨[], rfl, rfl, (Nat.le_refl _), by simp [strayFree], fun _ => rfl⟩
  | succ fuel ih =>
    rw [decodeStringLoop] at h
    split_ifs at h with h0
    · cases h
      exact ⟨[], rfl, h0.symm, by simp, by simp [strayFree, h0], fun _ => rfl⟩
    obtain ⟨ch, s₁, h1, h⟩ := bind_eq_ok h
    obtain ⟨⟨pushed, moved⟩, s₂, h2, h⟩ := bind_eq_ok h
    obtain ⟨hm, h⟩ := rejectIf_bind_eq_ok h
    obtain ⟨rest, s₃, h3, h⟩ := bind_eq_ok h
    cases h
    obtain ⟨v, rfl, hmoved, hv, hpushed⟩ := decodeCodePoint_spec h2
    simp only at hmoved hpushed
    obtain ⟨u, rfl, hu, ha, hiff, heq⟩ := ih (by omega) h3
    have hstray : strayFree 0 (ch :: (v ++ u)) = (decide (ch ≤ 0xf7) && strayFree 0 u) := by
      rw [strayFree, ← hv, Nat.add_sub_cancel, strayFree_skip]
    refine ⟨ch :: (v ++ u), by rw [next_eq_ok h1]; simp, by simp; omega, ?_⟩
    rw [hstray, hpushed]
    by_cases hc : ch ≤ 0xf7
    · simp only [hc, if_true, decide_true, Bool.true_and, List.length_append, List.length_cons]
      refine ⟨by omega, ?_, fun hs => by rw [heq hs]; simp⟩
      rw [hiff]
      omega
    · -- The rest is too short to make up for the byte that is missing.
      simp only [hc, if_false, decide_false, Bool.false_and, List.nil_append]
      refine ⟨by omega, ?_, fun hs => absurd hs (by decide)⟩
      constructor
      · intro hs
        exact absurd hs (by decide)
      · omega

theorem readUInt16_spec {s r : Bytes} {n : UInt16} (h : readUInt16 s = .ok (n, r)) :
    s = UInt8.ofNat (n.toNat / 256) :: UInt8.ofNat n.toNat :: r := by
  obtain ⟨hi, s₁, h1, h⟩ := bind_eq_ok h
  obtain ⟨lo, s₂, h2, h⟩ := bind_eq_ok h
  cases h
  have hhi := hi.toNat_lt
  have hlo := lo.toNat_lt
  have hn : (UInt16.ofNat (hi.toNat * 256 + lo.toNat)).toNat = hi.toNat * 256 + lo.toNat := by
    rw [UInt16.toNat_ofNat']
    omega
  rw [next_eq_ok h1, next_eq_ok h2, hn]
  congr 1
  · rw [show (hi.toNat * 256 + lo.toNat) / 256 = hi.toNat by omega, UInt8.ofNat_toNat]
  · congr 1
    rw [← UInt8.toNat_inj, UInt8.toNat_ofNat']
    omega

/-- A string takes its length prefix and the bytes it announces. -/
theorem decodeString_spec {s r a : Bytes} (h : decodeString s = .ok (a, r)) :
    ∃ u, s = lengthPrefixed u ++ r ∧ u.length ≤ 0xffff ∧ a.length ≤ u.length ∧
      (strayFree 0 u = true ↔ a.length = u.length) ∧ (strayFree 0 u = true → a = u) := by
  obtain ⟨n, s₁, h1, h⟩ := bind_eq_ok h
  obtain ⟨u, rfl, hu, ha, hiff, heq⟩ := decodeStringLoop_spec (Nat.le_refl _) h
  have hn := n.toNat_lt
  refine ⟨u, ?_, by omega, by omega, by rw [hu]; exact hiff, heq⟩
  rw [readUInt16_spec h1, lengthPrefixed, hu]
  rfl

theorem decodeBinary_spec {s r a : Bytes} (h : decodeBinary s = .ok (a, r)) :
    s = lengthPrefixed a ++ r ∧ a.length ≤ 0xffff := by
  obtain ⟨n, s₁, h1, h⟩ := bind_eq_ok h
  obtain ⟨b, s₂, h2, h⟩ := bind_eq_ok h
  obtain ⟨-, h⟩ := rejectIf_bind_eq_ok h
  cases h
  obtain ⟨rfl, ha⟩ := take_eq_ok h2
  have hn := n.toNat_lt
  refine ⟨?_, by omega⟩
  rw [readUInt16_spec h1, lengthPrefixed, ha]
  rfl

/-- A length prefix tells where what it is the prefix of ends. -/
theorem lengthPrefixed_append_inj {u v r t : Bytes} (hu : u.length ≤ 0xffff)
    (hv : v.length ≤ 0xffff) (h : lengthPrefixed u ++ r = lengthPrefixed v ++ t) :
    u = v ∧ r = t := by
  simp only [lengthPrefixed, List.cons_append, List.cons.injEq] at h
  obtain ⟨h1, h2, h3⟩ := h
  refine List.append_inj h3 ?_
  have h1' := congrArg UInt8.toNat h1
  have h2' := congrArg UInt8.toNat h2
  rw [UInt8.toNat_ofNat', UInt8.toNat_ofNat'] at h1' h2'
  omega

@[simp] theorem length_lengthPrefixed (s : Bytes) :
    (lengthPrefixed s).length = s.length + 2 := rfl

end MqttBroker
