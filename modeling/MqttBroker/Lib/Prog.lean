import Mathlib.Init

/-!
# Stateful programs

A program `Prog σ ε α` runs from a state and ends in a state, whichever way it
ends: with a value, by an exception (which, as in C++, does not undo what was
done before it), or not at all (`Exit.stuck`: a call that never returns; the
state then is the one it was last seen in).

What a program does to the state is compared with *frames*
(`Frame`): reflexive and transitive relations between the state before and the
state after. A program stays within a frame (`Prog.Within`) when every run of
it, however it ends, moves the state along the relation. Frames are checked
statement by statement (`within_bind`, `within_forEach`, ...), and an invariant is
the frame of the steps that keep it (`Frame.keeping`).

What a program returns is told by postconditions (`Prog.Returns`): it does not
throw, and where it returns, the postcondition holds of the value and the state.
The rules are the same, and those of the loops carry an invariant of the part of
the list that is done. Where it is known when a program returns, this is part of
what is told (`Prog.Settles`): it returns under a condition, and only then.
-/

/-- How a program ends. -/
inductive Exit (ε α : Type)
  /-- It returns a value. -/
  | value (a : α)
  /-- It ends by an exception. -/
  | thrown (e : ε)
  /-- It never returns. -/
  | stuck

/-- A program on states `σ` with exceptions `ε`, returning an `α`. -/
def Prog (σ ε α : Type) := σ → Exit ε α × σ

/-- A reflexive and transitive relation between the states before and after. -/
structure Frame (σ : Type) where
  /-- The relation. -/
  rel : σ → σ → Prop
  refl : ∀ s, rel s s
  trans : ∀ {s t u}, rel s t → rel t u → rel s u

/-- The frame of the steps keeping the invariant `I`. -/
def Frame.keeping {σ : Type} (I : σ → Prop) : Frame σ where
  rel s t := I s → I t
  refl _ h := h
  trans h₁ h₂ h := h₂ (h₁ h)

namespace Prog

variable {σ ε α β : Type}

/-- Go on with `k` from where a program returned a value. -/
def andThen : Exit ε β × σ → (β → Prog σ ε α) → Exit ε α × σ
  | (.value b, t), k => k b t
  | (.thrown e, t), _ => (.thrown e, t)
  | (.stuck, t), _ => (.stuck, t)

instance : Monad (Prog σ ε) where
  pure a := fun s => (.value a, s)
  bind m k := fun s => andThen (m s) k

/-- The current state. -/
def get : Prog σ ε σ := fun s => (.value s, s)

/-- Change the state. -/
def modify (f : σ → σ) : Prog σ ε Unit := fun s => (.value (), f s)

/-- End by an exception. -/
def throw (e : ε) : Prog σ ε α := fun s => (.thrown e, s)

/-- Never return. -/
def hang : Prog σ ε α := fun s => (.stuck, s)

/-- Go on with the handler `h` from where a program ended by an exception. -/
def orElse : Exit ε α × σ → (ε → Prog σ ε α) → Exit ε α × σ
  | (.value a, t), _ => (.value a, t)
  | (.thrown e, t), h => h e t
  | (.stuck, t), _ => (.stuck, t)

/-- Run `m`, and `h` where `m` ends by an exception. -/
def tryCatch (m : Prog σ ε α) (h : ε → Prog σ ε α) : Prog σ ε α := fun s => orElse (m s) h

/-- Run `f` on the elements of a list in turn. -/
def forEach : List β → (β → Prog σ ε Unit) → Prog σ ε Unit
  | [], _ => pure ()
  | b :: l, f => do f b; forEach l f

/-- Run `f` on the elements of a list in turn, carrying a value along. -/
def foldEach : List β → α → (α → β → Prog σ ε α) → Prog σ ε α
  | [], a, _ => pure a
  | b :: l, a, f => do foldEach l (← f a b) f

/-- The value of a computation that may throw. -/
def ofExcept : Except ε α → Prog σ ε α
  | .ok a => pure a
  | .error e => throw e

/-! ## Running -/

@[simp] theorem pure_apply (a : α) (s : σ) : (pure a : Prog σ ε α) s = (.value a, s) := rfl

@[simp] theorem get_bind_apply (k : σ → Prog σ ε α) (s : σ) : (get >>= k) s = k s s := rfl

@[simp] theorem modify_apply (f : σ → σ) (s : σ) :
    (modify f : Prog σ ε Unit) s = (.value (), f s) := rfl

@[simp] theorem modify_bind_apply (f : σ → σ) (k : Unit → Prog σ ε α) (s : σ) :
    (modify f >>= k) s = k () (f s) := rfl

theorem bind_apply (m : Prog σ ε β) (k : β → Prog σ ε α) (s : σ) :
    (m >>= k) s = andThen (m s) k := rfl

theorem tryCatch_apply (m : Prog σ ε α) (h : ε → Prog σ ε α) (s : σ) :
    tryCatch m h s = orElse (m s) h := rfl

/-- A program returning a value went through its first statement. -/
theorem bind_eq_value {m : Prog σ ε β} {k : β → Prog σ ε α} {s u : σ} {a : α}
    (h : (m >>= k) s = (.value a, u)) : ∃ b t, m s = (.value b, t) ∧ k b t = (.value a, u) := by
  rw [bind_apply] at h
  rcases hm : m s with ⟨b | e | _, t⟩
  · rw [hm, andThen] at h
    exact ⟨b, t, rfl, h⟩
  · rw [hm, andThen] at h
    cases h
  · rw [hm, andThen] at h
    cases h

/-- What is caught is not thrown, unless the handler throws. -/
theorem tryCatch_ne_thrown {m : Prog σ ε α} {h : ε → Prog σ ε α}
    (hh : ∀ e s x t, h e s ≠ (.thrown x, t)) (s : σ) (x : ε) (t : σ) :
    tryCatch m h s ≠ (.thrown x, t) := by
  rw [tryCatch_apply]
  rcases m s with ⟨a | e | _, u⟩
  · simp [orElse]
  · exact hh e u x t
  · simp [orElse]

/-! ## Frames -/

variable (F : Frame σ)

/-- Every run of `m` moves the state along the frame `F`. -/
def Within (m : Prog σ ε α) : Prop := ∀ s, F.rel s (m s).2

variable {F}

/-- A frame may be widened. -/
theorem Within.mono {G : Frame σ} {m : Prog σ ε α} (hm : Within F m)
    (h : ∀ s t, F.rel s t → G.rel s t) : Within G m := fun s => h _ _ (hm s)

theorem within_pure (a : α) : Within F (pure a : Prog σ ε α) := fun s => F.refl s

theorem within_get : Within F (get : Prog σ ε σ) := fun s => F.refl s

theorem within_throw (e : ε) : Within F (throw e : Prog σ ε α) := fun s => F.refl s

theorem within_modify {f : σ → σ} (h : ∀ s, F.rel s (f s)) :
    Within F (modify f : Prog σ ε Unit) := h

/-- A run goes on within a frame it has stayed in so far. -/
theorem rel_bind {m : Prog σ ε β} {k : β → Prog σ ε α} {r s : σ} (hm : F.rel r (m s).2)
    (hk : ∀ b, Within F (k b)) : F.rel r ((m >>= k) s).2 := by
  rw [bind_apply]
  rcases hs : m s with ⟨b | e | _, t⟩ <;> rw [hs] at hm
  · exact F.trans hm (hk b t)
  · exact hm
  · exact hm

theorem within_bind {m : Prog σ ε β} {k : β → Prog σ ε α} (hm : Within F m)
    (hk : ∀ b, Within F (k b)) : Within F (m >>= k) := fun s => rel_bind (hm s) hk

theorem within_get_bind {k : σ → Prog σ ε α} (hk : ∀ s, F.rel s (k s s).2) :
    Within F (get >>= k) := hk

theorem within_tryCatch {m : Prog σ ε α} {h : ε → Prog σ ε α} (hm : Within F m)
    (hh : ∀ e, Within F (h e)) : Within F (tryCatch m h) := by
  intro s
  have hs := hm s
  rw [tryCatch_apply]
  rcases hr : m s with ⟨a | e | _, t⟩ <;> rw [hr] at hs
  · exact hs
  · exact F.trans hs (hh e t)
  · exact hs

theorem within_forEach {l : List β} {f : β → Prog σ ε Unit} (hf : ∀ b ∈ l, Within F (f b)) :
    Within F (forEach l f) := by
  induction l with
  | nil => exact within_pure ()
  | cons b l ih =>
    exact within_bind (hf b List.mem_cons_self) fun _ =>
      ih fun c hc => hf c (List.mem_cons_of_mem _ hc)

theorem within_foldEach {l : List β} {a : α} {f : α → β → Prog σ ε α}
    (hf : ∀ a, ∀ b ∈ l, Within F (f a b)) : Within F (foldEach l a f) := by
  induction l generalizing a with
  | nil => exact within_pure a
  | cons b l ih =>
    exact within_bind (hf a b List.mem_cons_self) fun _ =>
      ih fun a c hc => hf a c (List.mem_cons_of_mem _ hc)

theorem within_ofExcept (r : Except ε α) : Within F (ofExcept r : Prog σ ε α) := by
  cases r with
  | ok a => exact within_pure a
  | error e => exact within_throw e

theorem within_ite {c : Prop} [Decidable c] {m n : Prog σ ε α} (hm : Within F m)
    (hn : Within F n) : Within F (if c then m else n) := by
  split
  · exact hm
  · exact hn

/-! ## Returning -/

/-- Run from `s`, the program `m` does not throw, and where it returns, `Q` holds
    of the value and the state. -/
def Returns (m : Prog σ ε α) (Q : α → σ → Prop) (s : σ) : Prop :=
  match m s with
  | (.value a, t) => Q a t
  | (.thrown _, _) => False
  | (.stuck, _) => True

variable {P Q : α → σ → Prop} {s : σ}

theorem Returns.mono {m : Prog σ ε α} (h : Returns m P s) (hPQ : ∀ a t, P a t → Q a t) :
    Returns m Q s := by
  rw [Returns] at *
  rcases hr : m s with ⟨a | e | _, t⟩ <;> rw [hr] at h
  · exact hPQ a t h
  · exact h
  · trivial

/-- What is returned satisfies the postcondition. -/
theorem Returns.of_value {m : Prog σ ε α} (h : Returns m Q s) {a : α} {t : σ}
    (hrun : m s = (.value a, t)) : Q a t := by
  rwa [Returns, hrun] at h

theorem Returns.ne_thrown {m : Prog σ ε α} (h : Returns m Q s) (e : ε) (t : σ) :
    m s ≠ (.thrown e, t) := by
  intro hrun
  rwa [Returns, hrun] at h

/-- What holds of the state however a program ends also holds where it returns. -/
theorem Returns.and_state {m : Prog σ ε α} {R : σ → Prop} (h : Returns m Q s) (hR : R (m s).2) :
    Returns m (fun a t => Q a t ∧ R t) s := by
  rw [Returns] at *
  rcases hr : m s with ⟨a | e | _, t⟩ <;> rw [hr] at h hR
  · exact ⟨h, hR⟩
  · exact h
  · trivial

theorem returns_pure {a : α} (h : Q a s) : Returns (pure a : Prog σ ε α) Q s := h

theorem returns_get_bind {k : σ → Prog σ ε α} (h : Returns (k s) Q s) :
    Returns (get >>= k) Q s := h

theorem returns_modify_bind {f : σ → σ} {k : Unit → Prog σ ε α} (h : Returns (k ()) Q (f s)) :
    Returns (modify f >>= k) Q s := h

theorem returns_ok_bind {b : β} {k : β → Prog σ ε α} (h : Returns (k b) Q s) :
    Returns (ofExcept (.ok b) >>= k) Q s := h

theorem returns_bind {m : Prog σ ε β} {k : β → Prog σ ε α} {R : β → σ → Prop}
    (hm : Returns m R s) (hk : ∀ b t, R b t → Returns (k b) Q t) : Returns (m >>= k) Q s := by
  rw [Returns] at *
  rw [bind_apply]
  rcases hr : m s with ⟨b | e | _, t⟩ <;> rw [hr] at hm
  · exact hk b t hm
  · exact hm
  · trivial

/-- Where nothing is thrown, nothing is caught. -/
theorem returns_tryCatch {m : Prog σ ε α} {h : ε → Prog σ ε α} (hm : Returns m Q s) :
    Returns (tryCatch m h) Q s := by
  rw [Returns] at *
  rw [tryCatch_apply]
  rcases hr : m s with ⟨a | e | _, t⟩ <;> rw [hr] at hm
  · exact hm
  · exact absurd hm id
  · trivial

/-- The rule of `foldEach`, with an invariant of the part of the list that is done. -/
theorem returns_foldEach {l : List β} {a : α} {f : α → β → Prog σ ε α}
    {I : List β → α → σ → Prop} (hf : ∀ done b, b ∈ l → ∀ a t, I done a t →
      Returns (f a b) (fun a u => I (done ++ [b]) a u) t) (hs : I [] a s) :
    Returns (foldEach l a f) (fun a t => I l a t) s := by
  suffices H : ∀ (done l' : List β) (a : α) (s : σ), done ++ l' = l → I done a s →
      Returns (foldEach l' a f) (fun a t => I l a t) s from H [] l a s rfl hs
  intro done l'
  induction l' generalizing done with
  | nil =>
    intro a s hl hI
    rw [List.append_nil] at hl
    exact returns_pure (hl ▸ hI)
  | cons b l' ih =>
    intro a s hl hI
    refine returns_bind (hf done b (hl ▸ List.mem_append_right _ List.mem_cons_self) a s hI) ?_
    exact fun a t hI => ih (done ++ [b]) a t (by rw [List.append_assoc]; exact hl) hI

/-- A loop without a value carries along the only one there is. -/
theorem forEach_eq_foldEach (l : List β) (f : β → Prog σ ε Unit) :
    forEach l f = foldEach l () fun _ b => f b := by
  induction l with
  | nil => rfl
  | cons b l ih => rw [forEach, ih, foldEach]

/-- The rule of `forEach`, with an invariant of the part of the list that is done. -/
theorem returns_forEach {l : List β} {f : β → Prog σ ε Unit} {I : List β → σ → Prop}
    (hf : ∀ done b, b ∈ l → ∀ t, I done t → Returns (f b) (fun _ u => I (done ++ [b]) u) t)
    (hs : I [] s) : Returns (forEach l f) (fun _ t => I l t) s := by
  rw [forEach_eq_foldEach]
  exact returns_foldEach (I := fun done _ t => I done t) (fun done b hb _ t => hf done b hb t) hs

/-! ## Settling -/

/-- Run from `s`, the program `m` does not throw, it returns exactly under the
    condition `C`, and where it returns, `Q` holds of the value and the state. -/
def Settles (m : Prog σ ε α) (C : Prop) (Q : α → σ → Prop) (s : σ) : Prop :=
  match m s with
  | (.value a, t) => C ∧ Q a t
  | (.thrown _, _) => False
  | (.stuck, _) => ¬C

variable {C C' : Prop}

theorem Settles.mono {m : Prog σ ε α} (h : Settles m C P s) (hC : C ↔ C')
    (hPQ : ∀ a t, C → P a t → Q a t) : Settles m C' Q s := by
  rw [Settles] at *
  rcases hr : m s with ⟨a | e | _, t⟩ <;> rw [hr] at h
  · exact ⟨hC.1 h.1, hPQ a t h.1 h.2⟩
  · exact h
  · exact fun hC' => h (hC.2 hC')

/-- Under the condition, a value is returned. -/
theorem Settles.exists_value {m : Prog σ ε α} (h : Settles m C Q s) (hC : C) :
    ∃ a t, m s = (.value a, t) ∧ Q a t := by
  rw [Settles] at h
  rcases hr : m s with ⟨a | e | _, t⟩ <;> rw [hr] at h
  · exact ⟨a, t, rfl, h.2⟩
  · exact absurd h id
  · exact absurd hC h

theorem Settles.returns {m : Prog σ ε α} (h : Settles m C Q s) :
    Returns m (fun a t => C ∧ Q a t) s := by
  rw [Settles] at h
  rw [Returns]
  rcases hr : m s with ⟨a | e | _, t⟩ <;> rw [hr] at h
  · exact h
  · exact h
  · trivial

/-- What is known where a program returns holds where it settles. -/
theorem Settles.and_returns {m : Prog σ ε α} (h : Settles m C P s) (h' : Returns m Q s) :
    Settles m C (fun a t => P a t ∧ Q a t) s := by
  rw [Settles] at *
  rw [Returns] at h'
  rcases hr : m s with ⟨a | e | _, t⟩ <;> rw [hr] at h h'
  · exact ⟨h.1, h.2, h'⟩
  · exact h
  · exact h

theorem settles_pure {a : α} (hC : C) (h : Q a s) : Settles (pure a : Prog σ ε α) C Q s := ⟨hC, h⟩

theorem settles_get_bind {k : σ → Prog σ ε α} (h : Settles (k s) C Q s) :
    Settles (get >>= k) C Q s := h

theorem settles_modify_bind {f : σ → σ} {k : Unit → Prog σ ε α} (h : Settles (k ()) C Q (f s)) :
    Settles (modify f >>= k) C Q s := h

theorem settles_ok_bind {b : β} {k : β → Prog σ ε α} (h : Settles (k b) C Q s) :
    Settles (ofExcept (.ok b) >>= k) C Q s := h

/-- A program settles under a condition that implies the one of its first statement. -/
theorem settles_bind {m : Prog σ ε β} {k : β → Prog σ ε α} {R : β → σ → Prop}
    (hm : Settles m C' R s) (hC : C → C') (hk : ∀ b t, C' → R b t → Settles (k b) C Q t) :
    Settles (m >>= k) C Q s := by
  rw [Settles] at *
  rw [bind_apply]
  rcases hr : m s with ⟨b | e | _, t⟩ <;> rw [hr] at hm
  · exact hk b t hm.1 hm.2
  · exact hm
  · exact fun h => hm (hC h)

/-- Where nothing is thrown, nothing is caught. -/
theorem settles_tryCatch {m : Prog σ ε α} {h : ε → Prog σ ε α} (hm : Settles m C Q s) :
    Settles (tryCatch m h) C Q s := by
  rw [Settles] at *
  rw [tryCatch_apply]
  rcases hr : m s with ⟨a | e | _, t⟩ <;> rw [hr] at hm
  · exact hm
  · exact absurd hm id
  · exact hm

end Prog
