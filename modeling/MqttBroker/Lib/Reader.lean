import Mathlib.Tactic.Common

/-!
# Reading from a queue

A reader takes tokens from the front of a queue and returns a value with what it
left, or fails (`Reader`). It is *local* (`Reader.Local`) when what it returns
depends only on the tokens it takes: on the same tokens followed by anything
else it returns the same value and leaves exactly the rest. Local readers are
closed under sequencing, so that a decoder put together from local readers is
local, and its result can be moved to any queue that starts with what it took.
-/

/-- A reader of tokens `τ`, failing with `ε` or returning an `α` and the rest. -/
def Reader (τ ε α : Type) := List τ → Except ε (α × List τ)

namespace Reader

variable {τ ε α β : Type}

/-- Go on with `k` on what a reader left. -/
def andThen : Except ε (β × List τ) → (β → Reader τ ε α) → Except ε (α × List τ)
  | .ok (b, r), k => k b r
  | .error e, _ => .error e

instance : Monad (Reader τ ε) where
  pure a := fun s => .ok (a, s)
  bind m k := fun s => andThen (m s) k

/-- Fail. -/
def fail (e : ε) : Reader τ ε α := fun _ => .error e

/-- The number of tokens in the queue. -/
def size : Reader τ ε Nat := fun s => .ok (s.length, s)

/-- Take the next token, or fail with `e` where there is none. -/
def next (e : ε) : Reader τ ε τ
  | [] => .error e
  | t :: r => .ok (t, r)

/-- Take the next `n` tokens, or fail with `e` where there are fewer. -/
def take (e : ε) (n : Nat) : Reader τ ε (List τ) := fun s =>
  if s.length < n then .error e else .ok (s.take n, s.drop n)

theorem bind_apply (m : Reader τ ε β) (k : β → Reader τ ε α) (s : List τ) :
    (m >>= k) s = andThen (m s) k := rfl

@[simp] theorem size_bind_apply (k : Nat → Reader τ ε α) (s : List τ) :
    (size >>= k) s = k s.length s := rfl

theorem bind_apply_of_ok {m : Reader τ ε β} {k : β → Reader τ ε α} {s r : List τ} {b : β}
    (h : m s = .ok (b, r)) : (m >>= k) s = k b r := by
  rw [bind_apply, h, andThen]

theorem bind_apply_of_error {m : Reader τ ε β} {k : β → Reader τ ε α} {s : List τ} {e : ε}
    (h : m s = .error e) : (m >>= k) s = .error e := by
  rw [bind_apply, h, andThen]

/-- A sequence that succeeds went through its first reader. -/
theorem bind_eq_ok {m : Reader τ ε β} {k : β → Reader τ ε α} {s r : List τ} {a : α}
    (h : (m >>= k) s = .ok (a, r)) : ∃ b t, m s = .ok (b, t) ∧ k b t = .ok (a, r) := by
  rw [bind_apply] at h
  rcases hm : m s with e | ⟨b, t⟩
  · rw [hm, andThen] at h
    cases h
  · rw [hm, andThen] at h
    exact ⟨b, t, rfl, h⟩

theorem next_eq_ok {e : ε} {s r : List τ} {t : τ} (h : next e s = .ok (t, r)) : s = t :: r := by
  cases s with
  | nil => cases h
  | cons b s =>
    simp only [next, Except.ok.injEq, Prod.mk.injEq] at h
    rw [h.1, h.2]

theorem take_eq_ok {e : ε} {n : Nat} {s r a : List τ} (h : take e n s = .ok (a, r)) :
    s = a ++ r ∧ a.length = n := by
  rw [take] at h
  split_ifs at h with hn
  simp only [Except.ok.injEq, Prod.mk.injEq] at h
  obtain ⟨rfl, rfl⟩ := h
  exact ⟨(List.take_append_drop n s).symm, by rw [List.length_take]; omega⟩

theorem take_append {e : ε} (a r : List τ) : take e a.length (a ++ r) = .ok (a, r) := by
  rw [take, if_neg (by simp)]
  simp

/-! ## Local readers -/

/-- What `m` returns depends only on the tokens it takes. -/
def Local (m : Reader τ ε α) : Prop :=
  ∀ s a r, m s = .ok (a, r) → ∃ u, s = u ++ r ∧ ∀ t, m (u ++ t) = .ok (a, t)

theorem local_pure (a : α) : Local (pure a : Reader τ ε α) := by
  rintro s _ _ ⟨⟩
  exact ⟨[], rfl, fun _ => rfl⟩

theorem local_fail (e : ε) : Local (fail e : Reader τ ε α) := by
  rintro s a r ⟨⟩

theorem local_next (e : ε) : Local (next e : Reader τ ε τ) := by
  intro s t r h
  exact ⟨[t], next_eq_ok h, fun _ => rfl⟩

theorem local_take (e : ε) (n : Nat) : Local (take e n : Reader τ ε (List τ)) := by
  intro s a r h
  obtain ⟨rfl, rfl⟩ := take_eq_ok h
  exact ⟨a, rfl, take_append a⟩

theorem local_bind {m : Reader τ ε β} {k : β → Reader τ ε α} (hm : Local m)
    (hk : ∀ b, Local (k b)) : Local (m >>= k) := by
  intro s a r h
  obtain ⟨b, s', hb, ha⟩ := bind_eq_ok h
  obtain ⟨u, rfl, hu⟩ := hm s b s' hb
  obtain ⟨v, rfl, hv⟩ := hk b s' a r ha
  refine ⟨u ++ v, (List.append_assoc u v r).symm, fun t => ?_⟩
  rw [List.append_assoc, bind_apply_of_ok (hu _)]
  exact hv t

theorem local_ite {c : Prop} [Decidable c] {m m' : Reader τ ε α} (h : Local m) (h' : Local m') :
    Local (if c then m else m') := by
  split_ifs
  · exact h
  · exact h'

/-! ## What a reader reads

`Reads m u a` is the rule a value is read back by: over the tokens that were
written for it, whatever follows. -/

/-- `m` takes the tokens `u` off any queue that starts with them, as `a`. -/
def Reads (m : Reader τ ε α) (u : List τ) (a : α) : Prop :=
  ∀ t, m (u ++ t) = .ok (a, t)

theorem reads_pure (a : α) : Reads (pure a : Reader τ ε α) [] a := fun _ => rfl

theorem reads_next (e : ε) (t : τ) : Reads (next e) [t] t := fun _ => rfl

theorem reads_take (e : ε) (u : List τ) : Reads (take e u.length) u u := take_append u

theorem reads_bind {m : Reader τ ε β} {k : β → Reader τ ε α} {u v : List τ} {b : β} {a : α}
    (hm : Reads m u b) (hk : Reads (k b) v a) : Reads (m >>= k) (u ++ v) a := by
  intro t
  rw [List.append_assoc, bind_apply_of_ok (hm _)]
  exact hk t

/-- A reader of one token. -/
theorem reads_bind_cons {m : Reader τ ε β} {k : β → Reader τ ε α} {t : τ} {v : List τ} {b : β}
    {a : α} (hm : Reads m [t] b) (hk : Reads (k b) v a) : Reads (m >>= k) (t :: v) a :=
  reads_bind hm hk

/-- What follows a reader may take nothing. -/
theorem reads_bind_nil {m : Reader τ ε β} {k : β → Reader τ ε α} {u : List τ} {b : β} {a : α}
    (hm : Reads m u b) (hk : Reads (k b) [] a) : Reads (m >>= k) u a := by
  rw [← List.append_nil u]
  exact reads_bind hm hk

theorem reads_bind_pure {m : Reader τ ε β} {f : β → α} {u : List τ} {b : β} (hm : Reads m u b) :
    Reads (m >>= fun x => pure (f x)) u (f b) := by
  intro t
  rw [bind_apply_of_ok (hm t)]
  rfl

/-- A reader may ask for the number of tokens before it reads on. -/
theorem reads_size_bind {k : Nat → Reader τ ε α} {u : List τ} {a : α}
    (h : ∀ n, u.length ≤ n → Reads (k n) u a) : Reads (size >>= k) u a := by
  intro t
  rw [size_bind_apply]
  exact h _ (by rw [List.length_append]; omega) t

/-! ## Starving readers -/

/-- `m` is local, and on a proper prefix of the tokens it takes it fails with
    `e`: it reads token after token, and only ends early for the lack of one. -/
def Starves (e : ε) (m : Reader τ ε α) : Prop :=
  ∀ s a r, m s = .ok (a, r) → ∃ u, s = u ++ r ∧ (∀ t, m (u ++ t) = .ok (a, t)) ∧
    ∀ t t', u = t ++ t' → t' ≠ [] → m t = .error e

theorem starves_of_takes_nothing {e : ε} {m : Reader τ ε α} (hm : Local m)
    (h : ∀ s a r, m s = .ok (a, r) → s = r) : Starves e m := by
  intro s a r hs
  obtain ⟨u, rfl, hu⟩ := hm s a r hs
  obtain rfl : u = [] := List.append_left_eq_self.1 (h _ _ _ hs)
  exact ⟨[], rfl, hu, fun t t' htt ht => absurd (List.append_eq_nil_iff.1 htt.symm).2 ht⟩

theorem starves_pure (e : ε) (a : α) : Starves e (pure a : Reader τ ε α) :=
  starves_of_takes_nothing (local_pure a) (by rintro s _ _ ⟨⟩; rfl)

theorem starves_next (e : ε) : Starves e (next e : Reader τ ε τ) := by
  intro s b r h
  refine ⟨[b], next_eq_ok h, fun _ => rfl, fun t t' htt ht => ?_⟩
  cases t with
  | nil => rfl
  | cons c t =>
    simp only [List.cons_append, List.cons.injEq, List.nil_eq, List.append_eq_nil_iff] at htt
    exact absurd htt.2.2 ht

theorem starves_bind {e : ε} {m : Reader τ ε β} {k : β → Reader τ ε α} (hm : Starves e m)
    (hk : ∀ b, Starves e (k b)) : Starves e (m >>= k) := by
  intro s a r h
  obtain ⟨b, s', hb, ha⟩ := bind_eq_ok h
  obtain ⟨u, rfl, hu, hu'⟩ := hm s b s' hb
  obtain ⟨v, rfl, hv, hv'⟩ := hk b s' a r ha
  refine ⟨u ++ v, (List.append_assoc u v r).symm, fun t => ?_, fun t t' htt ht => ?_⟩
  · rw [List.append_assoc, bind_apply_of_ok (hu _)]
    exact hv t
  · -- The prefix ends before, or after, what the first reader takes.
    rcases List.append_eq_append_iff.1 htt with ⟨w, rfl, rfl⟩ | ⟨w, rfl, rfl⟩
    · rw [bind_apply_of_ok (hu w)]
      exact hv' w t' rfl ht
    · by_cases hw : w = []
      · subst hw
        rw [List.append_nil] at hu
        have hmt := hu []
        rw [List.append_nil] at hmt
        rw [bind_apply_of_ok hmt]
        exact hv' [] v rfl (by simpa using ht)
      · exact bind_apply_of_error (hu' t w rfl hw)

theorem starves_ite {e : ε} {c : Prop} [Decidable c] {m m' : Reader τ ε α} (h : Starves e m)
    (h' : Starves e m') : Starves e (if c then m else m') := by
  split_ifs
  · exact h
  · exact h'

end Reader
