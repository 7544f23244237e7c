import Mathlib.Algebra.BigOperators.Group.List.Basic
import Mathlib.Algebra.Ring.Nat
import Mathlib.Data.List.Induction
import Mathlib.Tactic.Common

/-!
# Runs of a transition system

A `Machine` takes events one at a time: `step s e` is the state after the event
`e`, and `none` where `e` cannot take place. A run (`Machine.Run`) records the
events it took, each with the state it took it in, so that a condition on the
steps of a run is a condition on the members of that list.

* `Run.invariant`: what the initial state has and every step keeps, every
  reached state has; the steps may be assumed to satisfy a condition, when all
  the steps of the run do.
* `Run.conserved`: what is got, given up and held over a run.
* `Run.latched_iff`: what some steps set and others reset.
* `Run.last_iff`, `Run.lastPut_iff`: what some steps replace.
* `Run.holds_or_ended`: what one step brings about, and others end.
* `exec_run`: a concrete run is computed by `Machine.exec`, which checks a
  condition on its steps as it goes.
-/

/-- A transition system, deterministic once the event is chosen. -/
structure Machine (σ ε : Type) where
  /-- The initial state. -/
  init : σ
  /-- The state after an event, if the event can take place. -/
  step : σ → ε → Option σ

namespace Machine

variable {σ ε : Type} (M : Machine σ ε)

/-- `M.Run l s`: a run reaching `s`, with its steps `l`, each the state it was
    taken in and its event, in order. -/
inductive Run : List (σ × ε) → σ → Prop
  | init : Run [] M.init
  | step {l : List (σ × ε)} {s t : σ} {e : ε} :
      Run l s → M.step s e = some t → Run (l ++ [(s, e)]) t

/-- The states some run reaches. -/
def Reachable (s : σ) : Prop := ∃ l, M.Run l s

/-- The state after a list of events, where each can take place and satisfies
    `ok` in the state it takes place in. -/
def exec (M : Machine σ ε) (ok : σ → ε → Bool) (es : List ε) : Option σ :=
  es.foldl (fun s e => s.bind fun s => if ok s e then M.step s e else none) (some M.init)

variable {M}

/-- What holds initially, and is kept by the steps satisfying `P`, holds after
    every run all of whose steps satisfy `P`. -/
theorem Run.invariant {I : σ → Prop} {P : σ → ε → Prop} (hinit : I M.init)
    (hstep : ∀ s e t, I s → P s e → M.step s e = some t → I t) {l : List (σ × ε)} {s : σ}
    (h : M.Run l s) (hok : ∀ x ∈ l, P x.1 x.2) : I s := by
  induction h with
  | init => exact hinit
  | @step l s t e _ hst ih =>
    exact hstep s e t (ih fun x hx => hok x (List.mem_append_left _ hx))
      (hok (s, e) (List.mem_append_right _ (List.mem_singleton_self _))) hst

/-- What holds initially and is kept by every step holds in every reachable state. -/
theorem Reachable.invariant {I : σ → Prop} (hinit : I M.init)
    (hstep : ∀ s e t, I s → M.step s e = some t → I t) {s : σ} (h : M.Reachable s) : I s := by
  obtain ⟨l, hl⟩ := h
  exact hl.invariant (P := fun _ _ => True) hinit (fun s e t hs _ => hstep s e t hs)
    fun _ _ => trivial

theorem Reachable.step {s t : σ} {e : ε} (h : M.Reachable s) (hst : M.step s e = some t) :
    M.Reachable t := by
  obtain ⟨l, hl⟩ := h
  exact ⟨_, hl.step hst⟩

/-- A step may rely on what holds in every reachable state. -/
theorem Reachable.induct {I : σ → Prop} (hinit : I M.init)
    (hstep : ∀ s e t, M.Reachable s → I s → M.step s e = some t → I t) {s : σ}
    (h : M.Reachable s) : I s := by
  obtain ⟨-, hs⟩ := h.invariant (I := fun s => M.Reachable s ∧ I s) ⟨⟨[], .init⟩, hinit⟩
    fun s e t hs hst => ⟨hs.1.step hst, hstep s e t hs.1 hs.2 hst⟩
  exact hs

theorem Run.reachable {l : List (σ × ε)} {s : σ} (h : M.Run l s) : M.Reachable s := ⟨l, h⟩

/-- The last step of a run, after the steps before it. -/
theorem Run.last {l : List (σ × ε)} {x : σ × ε} {s : σ} (h : M.Run (l ++ [x]) s) :
    M.Run l x.1 ∧ M.step x.1 x.2 = some s := by
  generalize hl : l ++ [x] = l' at h
  cases h with
  | init => exact absurd hl (List.append_ne_nil_of_right_ne_nil l (List.cons_ne_nil x []))
  | step h hst =>
    obtain ⟨rfl, heq⟩ := List.append_inj' hl rfl
    obtain rfl := (List.cons.inj heq).1
    exact ⟨h, hst⟩

/-- The first steps of a run are a run. -/
theorem Run.of_append {l l' : List (σ × ε)} {s : σ} (h : M.Run (l ++ l') s) : ∃ t, M.Run l t := by
  induction l' using List.reverseRecOn generalizing s with
  | nil => exact ⟨s, by rwa [List.append_nil] at h⟩
  | append_singleton l' x ih =>
    rw [← List.append_assoc] at h
    exact ih h.last.1

/-- The steps before a step of a run are a run to the state it was taken in. -/
theorem Run.before {l l' : List (σ × ε)} {x : σ × ε} {s : σ} (h : M.Run (l ++ x :: l') s) :
    M.Run l x.1 ∧ ∃ t, M.step x.1 x.2 = some t := by
  rw [List.append_cons] at h
  obtain ⟨t, ht⟩ := h.of_append
  exact ⟨ht.last.1, t, ht.last.2⟩

/-- A step of a run is taken in a reachable state. -/
theorem Run.of_mem {l : List (σ × ε)} {x : σ × ε} {s : σ} (h : M.Run l s) (hx : x ∈ l) :
    M.Reachable x.1 ∧ ∃ t, M.step x.1 x.2 = some t := by
  induction h with
  | init => exact absurd hx List.not_mem_nil
  | step h hst ih =>
    rcases List.mem_append.1 hx with hx | hx
    · exact ih hx
    · obtain rfl := List.mem_singleton.1 hx
      exact ⟨h.reachable, _, hst⟩

/-- What was got, as the state counts it, is what is held and what was given up in
    the steps of the run. -/
theorem Run.conserved (held got : σ → ℕ) (gives : σ × ε → ℕ) (hinit : held M.init = got M.init)
    (hstep : ∀ s e t, M.Reachable s → M.step s e = some t →
      held t + gives (s, e) + got s = held s + got t) {l : List (σ × ε)} {s : σ} (h : M.Run l s) :
    held s + (l.map gives).sum = got s := by
  induction h with
  | init => exact hinit
  | step h hst ih =>
    have := hstep _ _ _ h.reachable hst
    simp only [List.map_append, List.sum_append, List.map_singleton, List.sum_singleton]
    omega

/-- A list with one more element at its end is split there, or before. -/
theorem exists_split_concat {α : Type} {l : List α} {a : α} {P : α → List α → Prop} :
    (∃ l₁ x l₂, l ++ [a] = l₁ ++ x :: l₂ ∧ P x l₂) ↔
      P a [] ∨ ∃ l₁ x l₂, l = l₁ ++ x :: l₂ ∧ P x (l₂ ++ [a]) := by
  constructor
  · rintro ⟨l₁, x, l₂, hl, hp⟩
    rcases l₂.eq_nil_or_concat with rfl | ⟨l₂, y, rfl⟩
    · obtain ⟨-, hx⟩ := List.append_inj' hl rfl
      obtain rfl := (List.cons.inj hx).1
      exact .inl hp
    · rw [List.concat_eq_append] at hl hp
      rw [← List.cons_append, ← List.append_assoc] at hl
      obtain ⟨rfl, hy⟩ := List.append_inj' hl rfl
      obtain rfl := (List.cons.inj hy).1
      exact .inr ⟨l₁, x, l₂, rfl, hp⟩
  · rintro (hp | ⟨l₁, x, l₂, rfl, hp⟩)
    · exact ⟨l, a, [], rfl, hp⟩
    · exact ⟨l₁, x, l₂ ++ [a], List.append_assoc _ _ _, hp⟩

/-- What every step resets, sets or keeps holds after a run exactly if it was set,
    and not reset since. -/
theorem Run.latched_iff {I : σ → Prop} (sets resets : σ × ε → Prop) (hinit : ¬I M.init)
    (hstep : ∀ s e t, M.Reachable s → M.step s e = some t →
      (I t ↔ ¬resets (s, e) ∧ (I s ∨ sets (s, e)))) {l : List (σ × ε)} {s : σ} (h : M.Run l s) :
    I s ↔ ∃ l₁ x l₂, l = l₁ ++ x :: l₂ ∧ sets x ∧ ∀ y ∈ x :: l₂, ¬resets y := by
  induction h with
  | init =>
    refine iff_of_false hinit ?_
    rintro ⟨l₁, x, l₂, hl, -⟩
    exact List.append_ne_nil_of_right_ne_nil l₁ (List.cons_ne_nil x l₂) hl.symm
  | @step l s t e hrun hst ih =>
    rw [hstep s e t hrun.reachable hst, ih, exists_split_concat]
    constructor
    · rintro ⟨hreset, ⟨l₁, x, l₂, rfl, hset, hl₂⟩ | hset⟩
      · refine .inr ⟨l₁, x, l₂, rfl, hset, fun y hy => ?_⟩
        rcases List.mem_append.1 (List.cons_append ▸ hy : y ∈ x :: l₂ ++ [(s, e)]) with hy | hy
        · exact hl₂ y hy
        · rwa [List.mem_singleton.1 hy]
      · exact .inl ⟨hset, by simpa using hreset⟩
    · rintro (⟨hset, hreset⟩ | ⟨l₁, x, l₂, rfl, hset, hl₂⟩)
      · exact ⟨hreset _ List.mem_cons_self, .inr hset⟩
      · have hmem : ∀ z, z ∈ x :: l₂ ∨ z = (s, e) → ¬resets z := fun z hz =>
          hl₂ z (List.cons_append ▸ List.mem_append.2 (hz.imp_right List.mem_singleton.2))
        exact ⟨hmem _ (.inr rfl), .inl ⟨l₁, x, l₂, rfl, hset, fun z hz => hmem z (.inl hz)⟩⟩

/-- What some steps replace, and the others keep, is after a run what the last of those
    steps replaced it by. -/
theorem Run.last_iff {β γ : Type} (obs : σ → Option β) (put : σ × ε → Option γ)
    (g : γ → Option β) (hinit : obs M.init = none)
    (hstep : ∀ s e t, M.Reachable s → M.step s e = some t →
      obs t = (put (s, e)).elim (obs s) g) {l : List (σ × ε)} {s : σ} (h : M.Run l s) (b : β) :
    obs s = some b ↔ ∃ l₁ x l₂, l = l₁ ++ x :: l₂ ∧
      (∃ c ∈ put x, g c = some b) ∧ ∀ y ∈ l₂, put y = none := by
  induction h with
  | init =>
    refine iff_of_false (hinit ▸ (nomatch ·)) ?_
    rintro ⟨l₁, x, l₂, hl, -⟩
    exact List.append_ne_nil_of_right_ne_nil l₁ (List.cons_ne_nil x l₂) hl.symm
  | @step l s t e hrun hst ih =>
    rw [hstep s e t hrun.reachable hst, exists_split_concat]
    cases hput : put (s, e) with
    | some c =>
      constructor
      · exact fun hb => .inl ⟨⟨c, rfl, hb⟩, fun _ hy => absurd hy List.not_mem_nil⟩
      · rintro (⟨⟨c', hc', hb⟩, -⟩ | ⟨l₁, x, l₂, -, -, hl₂⟩)
        · obtain rfl := Option.some.inj hc'
          exact hb
        · cases hput.symm.trans (hl₂ _ (List.mem_append_right _ List.mem_cons_self))
    | none =>
      show obs s = some b ↔ _
      rw [ih]
      constructor
      · rintro ⟨l₁, x, l₂, rfl, hx, hl₂⟩
        refine .inr ⟨l₁, x, l₂, rfl, hx, fun y hy => ?_⟩
        rcases List.mem_append.1 hy with hy | hy
        · exact hl₂ y hy
        · rwa [List.mem_singleton.1 hy]
      · rintro (⟨⟨c, hc, -⟩, -⟩ | ⟨l₁, x, l₂, rfl, hx, hl₂⟩)
        · cases hc
        · exact ⟨l₁, x, l₂, rfl, hx, fun y hy => hl₂ y (List.mem_append_left _ hy)⟩

/-- Of the members of the list that put something, the last one puts `b`. -/
def LastPut {α β : Type} (put : α → Option β) (l : List α) (b : β) : Prop :=
  ∃ l₁ x l₂, l = l₁ ++ x :: l₂ ∧ put x = some b ∧ ∀ y ∈ l₂, put y = none

/-- An entry of a table, which some steps set or clear and the others keep, is after a run
    what the last of those steps made it. -/
theorem Run.lastPut_iff {β : Type} (obs : σ → Option β) (put : σ × ε → Option (Option β))
    (hinit : obs M.init = none)
    (hstep : ∀ s e t, M.Reachable s → M.step s e = some t →
      obs t = (put (s, e)).elim (obs s) id) {l : List (σ × ε)} {s : σ} (h : M.Run l s) (b : β) :
    obs s = some b ↔ LastPut put l (some b) := by
  have hput : ∀ o : Option (Option β), (∃ c ∈ o, id c = some b) ↔ o = some (some b) :=
    fun o => ⟨fun ⟨c, hc, hb⟩ => hb ▸ hc, fun ho => ⟨some b, ho, rfl⟩⟩
  rw [h.last_iff obs put id hinit hstep b]
  simp only [hput]
  exact Iff.rfl

/-- What a step brings about, and later steps keep or end, holds after the run unless one
    of them ended it. -/
theorem Run.holds_or_ended (I : σ → Prop) (ends : σ × ε → Prop)
    (hstep : ∀ s e t, M.Reachable s → M.step s e = some t → I s → I t ∨ ends (s, e))
    {l₁ l₂ : List (σ × ε)} {x : σ × ε} {s : σ} (h : M.Run (l₁ ++ x :: l₂) s)
    (hx : ∀ t, M.step x.1 x.2 = some t → I t) : I s ∨ ∃ y ∈ l₂, ends y := by
  induction l₂ using List.reverseRecOn generalizing s with
  | nil => exact .inl (hx s h.last.2)
  | append_singleton l₂ y ih =>
    rw [← List.cons_append, ← List.append_assoc] at h
    obtain ⟨hrun, hst⟩ := h.last
    rcases ih hrun with hI | ⟨z, hz, hends⟩
    · exact (hstep _ _ _ hrun.reachable hst hI).imp_right fun hends =>
        ⟨y, List.mem_append_right _ (List.mem_singleton_self _), hends⟩
    · exact .inr ⟨z, List.mem_append_left _ hz, hends⟩

/-- The events `es`, executed, are the events of a run, and its steps satisfy
    what they were executed under. -/
theorem exec_run {ok : σ → ε → Bool} {es : List ε} {s : σ} (h : M.exec ok es = some s) :
    ∃ l, M.Run l s ∧ ∀ x ∈ l, ok x.1 x.2 = true := by
  -- The events continue a run, which is generalized for the induction.
  suffices H : ∀ (es : List ε) (l : List (σ × ε)) (r : σ), M.Run l r →
      (∀ x ∈ l, ok x.1 x.2 = true) →
      es.foldl (fun s e => s.bind fun s => if ok s e then M.step s e else none) (some r) = some s →
      ∃ l', M.Run l' s ∧ ∀ x ∈ l', ok x.1 x.2 = true from
    H es [] M.init .init (fun _ hx => absurd hx List.not_mem_nil) h
  have hnone : ∀ es : List ε, es.foldl
      (fun s e => s.bind fun s => if ok s e then M.step s e else none) none = none := by
    intro es
    induction es with
    | nil => rfl
    | cons e es ih => exact ih
  intro es
  induction es with
  | nil =>
    intro l r hr hl h
    obtain rfl : r = s := by simpa using h
    exact ⟨l, hr, hl⟩
  | cons e es ih =>
    intro l r hr hl h
    rw [List.foldl_cons, Option.bind_some] at h
    split_ifs at h with hok
    · cases hst : M.step r e with
      | none =>
        rw [hst, hnone] at h
        cases h
      | some t =>
        rw [hst] at h
        refine ih (l ++ [(r, e)]) t (.step hr hst) ?_ h
        intro x hx
        rcases List.mem_append.1 hx with hx | hx
        · exact hl x hx
        · obtain rfl := List.mem_singleton.1 hx
          exact hok
    · rw [hnone] at h
      cases h

end Machine
