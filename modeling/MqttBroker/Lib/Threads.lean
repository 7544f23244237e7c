import Mathlib.Logic.Function.Basic
import MqttBroker.Lib.Machine

/-!
# Threads

Threads, each with a state of its own, over a state they share. An atomic step
of a thread (`next`) reads and changes the shared state and its own; a thread
without a step has finished. A family of threads is a machine
(`Threads.interleave`) whose events are the threads: its runs are the
interleavings.

* `interleave_step`: what a step of one thread can do.
* `Alone`: the steps of one thread, with no other between them.
* `Serial`: threads that run in turn, each to its end; one of the interleavings is
  made of their steps (`Serial.exists_run`).
-/

/-- Threads `τ` over a shared state `σ`. -/
structure Threads (τ σ : Type) where
  /-- The next atomic step, if the thread has not finished. -/
  next : τ → σ → Option (τ × σ)

/-- The states of a family of threads, and the state they share. -/
structure Pool (ι τ σ : Type) where
  shared : σ
  thread : ι → τ

namespace Threads

variable {ι τ σ : Type} [DecidableEq ι] (T : Threads τ σ)

/-- The interleavings of the threads of a pool. -/
def interleave (p : Pool ι τ σ) : Machine (Pool ι τ σ) ι where
  init := p
  step p i := (T.next (p.thread i) p.shared).map fun r => ⟨r.2, Function.update p.thread i r.1⟩

/-- Steps of one thread alone. -/
inductive Alone : τ → σ → τ → σ → Prop
  | refl (t : τ) (s : σ) : Alone t s t s
  | step {t t' t'' : τ} {s s' s'' : σ} :
      T.next t s = some (t', s') → Alone t' s' t'' s'' → Alone t s t'' s''

variable {T}

theorem Alone.trans {t t' t'' : τ} {s s' s'' : σ} (h : T.Alone t s t' s')
    (h' : T.Alone t' s' t'' s'') : T.Alone t s t'' s'' := by
  induction h with
  | refl => exact h'
  | step hn _ ih => exact .step hn (ih h')

/-- A step is one of a single thread: the others stay where they are. -/
theorem interleave_step {p q r : Pool ι τ σ} {i : ι}
    (h : (T.interleave p).step q i = some r) : ∃ t s,
      T.next (q.thread i) q.shared = some (t, s) ∧ r = ⟨s, Function.update q.thread i t⟩ := by
  obtain ⟨⟨t, s⟩, hn, rfl⟩ := Option.map_eq_some_iff.1 h
  exact ⟨t, s, hn, rfl⟩

/-! ## One thread after another -/

/-- The thread has no step left, whatever the others do. -/
def Finished (T : Threads τ σ) (t : τ) : Prop := ∀ s, T.next t s = none

/-- Threads that run in turn, each to its end. -/
inductive Serial (T : Threads τ σ) : List τ → σ → σ → Prop
  | nil (s : σ) : Serial T [] s s
  | snoc {ts : List τ} {t t' : τ} {s s' s'' : σ} :
      Serial T ts s s' → T.Alone t s' t' s'' → T.Finished t' → Serial T (ts ++ [t]) s s''

/-- A run goes on with steps of one thread. -/
theorem Alone.run {p : Pool ι τ σ} {i : ι} {t t' : τ} {s s' : σ} (ha : T.Alone t s t' s')
    {l : List (Pool ι τ σ × ι)} {q : Pool ι τ σ} (h : (T.interleave p).Run l q)
    (ht : q.thread i = t) (hs : q.shared = s) : ∃ m,
      (T.interleave p).Run (l ++ m) ⟨s', Function.update q.thread i t'⟩ ∧ ∀ x ∈ m, x.2 = i := by
  induction ha generalizing l q with
  | refl t s =>
    refine ⟨[], ?_, fun x hx => absurd hx List.not_mem_nil⟩
    rw [List.append_nil, ← ht, ← hs, Function.update_eq_self]
    exact h
  | @step t t' t'' s s' s'' hn _ ih =>
    have hst : (T.interleave p).step q i = some ⟨s', Function.update q.thread i t'⟩ := by
      rw [← ht, ← hs] at hn
      simp only [interleave, hn, Option.map_some]
    obtain ⟨m, hm, hall⟩ := ih (h.step hst) (Function.update_self (β := fun _ => τ) i _ _) rfl
    rw [Function.update_idem, List.append_assoc] at hm
    exact ⟨(q, i) :: m, hm, List.forall_mem_cons.2 ⟨rfl, hall⟩⟩

/-- Threads that run in turn are an interleaving, in which they take their steps one thread
    after the other. -/
theorem Serial.exists_run {ts : List τ} {s s' : σ} (h : T.Serial ts s s') {f : ℕ → τ}
    (hf : ∀ i t, ts[i]? = some t → f i = t) : ∃ l q, (T.interleave ⟨s, f⟩).Run l q ∧
      q.shared = s' ∧ (l.map Prod.snd).Pairwise (· ≤ ·) ∧
      (∀ i < ts.length, T.Finished (q.thread i)) ∧ (∀ i ≥ ts.length, q.thread i = f i) ∧
      ∀ x ∈ l, x.2 < ts.length := by
  induction h with
  | nil s =>
    exact ⟨[], _, .init, rfl, .nil, fun i hi => absurd hi (Nat.not_lt_zero i), fun _ _ => rfl,
      fun x hx => absurd hx List.not_mem_nil⟩
  | @snoc ts t t' s s' s'' _ ha hfin ih =>
    obtain ⟨l, q, hrun, hshared, hsorted, hdone, hrest, hlt⟩ := ih fun i t hi =>
      hf i t (List.getElem?_append_left (List.getElem?_eq_some_iff.1 hi).1 ▸ hi)
    have hnext : q.thread ts.length = t :=
      (hrest _ (Nat.le_refl _)).trans (hf _ _ List.getElem?_concat_length)
    -- The next thread has taken no step yet, and takes all of its steps now.
    obtain ⟨m, hm, hall⟩ := ha.run hrun hnext hshared
    have hlen : (ts ++ [t]).length = ts.length + 1 := List.length_append
    refine ⟨l ++ m, _, hm, rfl, ?_, fun i hi => ?_, fun i hi => ?_, fun x hx => ?_⟩
    · rw [List.map_append, List.pairwise_append]
      refine ⟨hsorted, ?_, List.forall_mem_map.2 fun x hx => List.forall_mem_map.2 fun y hy => ?_⟩
      · have hsame : m.map Prod.snd = List.replicate m.length ts.length :=
          List.eq_replicate_iff.2 ⟨List.length_map _, List.forall_mem_map.2 hall⟩
        rw [hsame]
        exact List.pairwise_replicate.2 (.inr (Nat.le_refl _))
      · rw [hall y hy]
        exact Nat.le_of_lt (hlt x hx)
    · dsimp only
      rw [Function.update_apply]
      split_ifs with heq
      · exact hfin
      · exact hdone i (by omega)
    · dsimp only
      rw [Function.update_of_ne (by omega)]
      exact hrest i (by omega)
    · rcases List.mem_append.1 hx with hx | hx
      · have := hlt x hx
        omega
      · rw [hall x hx]
        omega

end Threads
