import Mathlib.Order.WellFounded
import Mathlib.Data.List.Nodup
import Mathlib.Logic.Relation
import MqttBroker.Lib.Threads

/-!
# Locks

Threads that take and release locks, access shared objects, and call functions that
may not return. A thread is what it has left to do (`LockOp`), and what the threads
share is which locks are taken: a thread that is to acquire a taken lock waits, and one
in a call that does not return hangs (`Hangs`).

A lock protects some objects. A thread keeps the discipline (`Disciplined`) that it
acquires locks in the order of their ranks, releases them in the reverse order, and
accesses an object only with its lock; it may peek at one without. Blocks that keep it
compose (`Sound`), and an exception that releases the locks on its way out keeps it, too
(`Sound.attempt`).

If all threads keep the discipline, in every interleaving of them

* no two are about to access one object (`Guarding.exclusive`);
* whoever waits for a lock waits, in the end, for a thread that can go on, or for one
  that hangs (`Guarding.leads`): who holds the lock that is waited for waits for one
  of a higher rank than those it holds;
* each thread takes a step for each of its operations (`run_length`), and when all are
  done, no lock is taken (`Guarding.released`).
-/

/-- An operation of a thread with locks `L` and objects `X`. -/
inductive LockOp (L X : Type)
  | acquire (l : L)
  | release (l : L)
  /-- Access an object. -/
  | access (x : X)
  /-- Access an object, whether its lock is held or not. -/
  | peek (x : X)
  /-- Call a function, which returns or does not. -/
  | call (returns : Bool)
  deriving DecidableEq

namespace LockOp

variable {L X R : Type} [Preorder R]

/-- A block under a lock. -/
def guard (l : L) (body : List (LockOp L X)) : List (LockOp L X) :=
  acquire l :: (body ++ [release l])

/-- `Disciplined rank owner held ops`: with the locks `held`, the latest first, a thread
    that does `ops` keeps the discipline, and ends without locks. -/
inductive Disciplined (rank : L → R) (owner : X → L) : List L → List (LockOp L X) → Prop
  | nil : Disciplined rank owner [] []
  | acquire {l : L} {held : List L} {ops : List (LockOp L X)} :
      (∀ l' ∈ held, rank l' < rank l) → Disciplined rank owner (l :: held) ops →
        Disciplined rank owner held (acquire l :: ops)
  | release {l : L} {held : List L} {ops : List (LockOp L X)} :
      Disciplined rank owner held ops → Disciplined rank owner (l :: held) (release l :: ops)
  | access {x : X} {held : List L} {ops : List (LockOp L X)} :
      owner x ∈ held → Disciplined rank owner held ops →
        Disciplined rank owner held (access x :: ops)
  | peek {x : X} {held : List L} {ops : List (LockOp L X)} :
      Disciplined rank owner held ops → Disciplined rank owner held (peek x :: ops)
  | call {returns : Bool} {held : List L} {ops : List (LockOp L X)} :
      Disciplined rank owner held ops → Disciplined rank owner held (call returns :: ops)

/-- With the locks `held`, a block keeps the discipline and gives them back as they were. -/
def Sound (rank : L → R) (owner : X → L) (held : List L) (ops : List (LockOp L X)) : Prop :=
  ∀ rest, Disciplined rank owner held rest → Disciplined rank owner held (ops ++ rest)

variable {rank : L → R} {owner : X → L} {held : List L} {ops ops' : List (LockOp L X)} {l : L}
  {x : X}

namespace Sound

theorem nil : Sound rank owner held [] := fun _ h => h

theorem append (h : Sound rank owner held ops) (h' : Sound rank owner held ops') :
    Sound rank owner held (ops ++ ops') := fun rest hrest => by
  rw [List.append_assoc]
  exact h _ (h' rest hrest)

theorem access_cons (hx : owner x ∈ held) (h : Sound rank owner held ops) :
    Sound rank owner held (.access x :: ops) := fun rest hrest => .access hx (h rest hrest)

theorem peek_cons (x : X) (h : Sound rank owner held ops) :
    Sound rank owner held (.peek x :: ops) := fun rest hrest => .peek (h rest hrest)

theorem call_cons (returns : Bool) (h : Sound rank owner held ops) :
    Sound rank owner held (.call returns :: ops) := fun rest hrest => .call (h rest hrest)

theorem guard (hl : ∀ l' ∈ held, rank l' < rank l) (h : Sound rank owner (l :: held) ops) :
    Sound rank owner held (LockOp.guard l ops) := by
  intro rest hrest
  rw [LockOp.guard, List.cons_append, List.append_assoc]
  exact .acquire hl (h _ (.release hrest))

theorem flatMap {α : Type} {f : α → List (LockOp L X)} {as : List α}
    (h : ∀ a ∈ as, Sound rank owner held (f a)) : Sound rank owner held (as.flatMap f) := by
  induction as with
  | nil => exact nil
  | cons a as ih =>
    rw [List.flatMap_cons]
    exact (h a List.mem_cons_self).append (ih fun b hb => h b (List.mem_cons_of_mem _ hb))

theorem elim {α : Type} {f : α → List (LockOp L X)} (h : ∀ a, Sound rank owner held (f a))
    (o : Option α) : Sound rank owner held (o.elim [] f) := by
  cases o with
  | none => exact nil
  | some a => exact h a

theorem ite {c : Prop} [Decidable c] (h : Sound rank owner held ops)
    (h' : Sound rank owner held ops') : Sound rank owner held (if c then ops else ops') := by
  split
  · exact h
  · exact h'

theorem disciplined (h : Sound rank owner [] ops) : Disciplined rank owner [] ops :=
  ops.append_nil ▸ h [] .nil

end Sound

/-! ## Exceptions -/

/-- What is done by a thread with the locks `held` when an exception is thrown after `n`
    operations: the locks that are held then are released. -/
def unwind : List L → Nat → List (LockOp L X) → List (LockOp L X)
  | held, 0, _ | held, _, [] => held.map release
  | held, n + 1, acquire l :: ops => acquire l :: unwind (l :: held) n ops
  | held, n + 1, release l :: ops => release l :: unwind held.tail n ops
  | held, n + 1, access x :: ops => access x :: unwind held n ops
  | held, n + 1, peek x :: ops => peek x :: unwind held n ops
  | held, n + 1, call returns :: ops => call returns :: unwind held n ops

theorem disciplined_release (held : List L) :
    Disciplined rank owner held (held.map (release (X := X))) := by
  induction held with
  | nil => exact .nil
  | cons l held ih => exact .release ih

/-- An exception keeps the discipline. -/
theorem Disciplined.unwind (h : Disciplined rank owner held ops) (n : Nat) :
    Disciplined rank owner held (LockOp.unwind held n ops) := by
  induction h generalizing n with
  | nil => cases n <;> exact .nil
  | acquire hl _ ih =>
    cases n with
    | zero => exact disciplined_release _
    | succ n => exact .acquire hl (ih n)
  | release _ ih =>
    cases n with
    | zero => exact disciplined_release _
    | succ n => exact .release (ih n)
  | access hx _ ih =>
    cases n with
    | zero => exact disciplined_release _
    | succ n => exact .access hx (ih n)
  | peek _ ih =>
    cases n with
    | zero => exact disciplined_release _
    | succ n => exact .peek (ih n)
  | call _ ih =>
    cases n with
    | zero => exact disciplined_release _
    | succ n => exact .call (ih n)

/-- A block, from which an exception may be thrown after some of its operations. -/
def attempt (thrown : Option ℕ) (ops : List (LockOp L X)) : List (LockOp L X) :=
  thrown.elim ops fun n => unwind [] n ops

/-- A thread that keeps the discipline may go on with another such thing. -/
theorem Disciplined.append (h : Disciplined rank owner held ops)
    (h' : Disciplined rank owner [] ops') : Disciplined rank owner held (ops ++ ops') := by
  induction h with
  | nil => exact h'
  | acquire hl _ ih => exact .acquire hl ih
  | release _ ih => exact .release ih
  | access hx _ ih => exact .access hx ih
  | peek _ ih => exact .peek ih
  | call _ ih => exact .call ih

/-- A block from which an exception is thrown gives back its locks. -/
theorem Sound.attempt (h : Sound rank owner [] ops) (thrown : Option ℕ) :
    Sound rank owner [] (LockOp.attempt thrown ops) := by
  cases thrown with
  | none => exact h
  | some n => exact fun rest hrest => (h.disciplined.unwind n).append hrest

/-! ## Waiting -/

/-- The locks that a thread has to release, when it has the operations left to do. -/
def owed [DecidableEq L] : List (LockOp L X) → List L
  | [] => []
  | acquire l :: ops => (owed ops).erase l
  | release l :: ops => l :: owed ops
  | access _ :: ops | peek _ :: ops | call _ :: ops => owed ops

/-- Who keeps the discipline has to release what it holds. -/
theorem Disciplined.owed [DecidableEq L] (h : Disciplined rank owner held ops) :
    LockOp.owed ops = held := by
  induction h with
  | nil => rfl
  | acquire _ _ ih => rw [LockOp.owed, ih, List.erase_cons_head]
  | release _ ih => rw [LockOp.owed, ih]
  | access _ _ ih | peek _ ih | call _ ih => exact ih

/-- The thread is in a call that does not return. -/
def Hangs (ops : List (LockOp L X)) : Prop := ops.head? = some (call false)

end LockOp

open LockOp Relation

variable {ι L X R : Type} [Preorder R]

/-- The threads, over the locks that are taken. -/
def locking [DecidableEq L] : Threads (List (LockOp L X)) (L → Bool) where
  next
    | [], _ => none
    | .acquire l :: ops, taken =>
      if taken l then none else some (ops, Function.update taken l true)
    | .release l :: ops, taken => some (ops, Function.update taken l false)
    | .access _ :: ops, taken | .peek _ :: ops, taken => some (ops, taken)
    | .call returns :: ops, taken => if returns then some (ops, taken) else none

theorem next_acquire [DecidableEq L] (l : L) (ops : List (LockOp L X)) (taken : L → Bool) :
    locking.next (acquire l :: ops) taken =
      if taken l then none else some (ops, Function.update taken l true) := rfl

/-- The thread `i` is to acquire a lock that the thread `j` has to release. -/
def Pool.Waits [DecidableEq L] (q : Pool ι (List (LockOp L X)) (L → Bool)) (i j : ι) : Prop :=
  ∃ l, (q.thread i).head? = some (acquire l) ∧ l ∈ owed (q.thread j)

/-- The threads hold the locks `held`: they keep the discipline, and what is taken is held
    by one of them. -/
structure Guarding (rank : L → R) (owner : X → L) (q : Pool ι (List (LockOp L X)) (L → Bool))
    (held : ι → List L) : Prop where
  ops i : Disciplined rank owner (held i) (q.thread i)
  taken l : q.shared l = true ↔ ∃ i, l ∈ held i
  alone {i j l} : l ∈ held i → l ∈ held j → i = j
  nodup i : (held i).Nodup

variable {rank : L → R} {owner : X → L} {p q r : Pool ι (List (LockOp L X)) (L → Bool)}
  {held : ι → List L} {i j : ι} {steps : List (Pool ι (List (LockOp L X)) (L → Bool) × ι)}

namespace Guarding

/-- No lock is taken, and the threads keep the discipline. -/
theorem init (hfree : ∀ l, p.shared l = false)
    (hops : ∀ i, Disciplined rank owner [] (p.thread i)) :
    Guarding rank owner p fun _ => [] where
  ops := hops
  taken l := iff_of_false (hfree l ▸ Bool.noConfusion) fun h => List.not_mem_nil h.choose_spec
  alone h := absurd h List.not_mem_nil
  nodup _ := List.nodup_nil

/-- An object is accessed with its lock held. -/
theorem mem_held (h : Guarding rank owner q held) {x : X}
    (hi : (q.thread i).head? = some (access x)) : owner x ∈ held i := by
  have hops := h.ops i
  generalize q.thread i = ops, held i = ls at hi hops
  cases hops with
  | access hx =>
    cases hi
    exact hx
  | _ => cases hi

/-- A thread holds the locks that it has to release. -/
theorem owed [DecidableEq L] (h : Guarding rank owner q held) (i : ι) :
    LockOp.owed (q.thread i) = held i := (h.ops i).owed

/-- An object is accessed with its lock taken. -/
theorem locked (h : Guarding rank owner q held) {x : X}
    (hi : (q.thread i).head? = some (access x)) : q.shared (owner x) = true :=
  (h.taken _).2 ⟨i, h.mem_held hi⟩

/-- An object is accessed by one thread at a time. -/
theorem exclusive (h : Guarding rank owner q held) {x : X}
    (hi : (q.thread i).head? = some (access x)) (hj : (q.thread j).head? = some (access x)) :
    i = j :=
  h.alone (h.mem_held hi) (h.mem_held hj)

variable [DecidableEq ι] [DecidableEq L]

/-- A thread goes on, with what it holds of the other locks than `l` unchanged. -/
theorem update (h : Guarding rank owner q held) {l : L} {b : Bool} {ls : List L}
    {ops : List (LockOp L X)} (hops : Disciplined rank owner ls ops) (hnodup : ls.Nodup)
    (hb : b = true ↔ l ∈ ls) (hl : ∀ j, j ≠ i → l ∉ held j)
    (hothers : ∀ m, m ≠ l → (m ∈ ls ↔ m ∈ held i)) :
    Guarding rank owner ⟨Function.update q.shared l b, Function.update q.thread i ops⟩
      (Function.update held i ls) := by
  have hmem : ∀ m j, m ≠ l → (m ∈ Function.update held i ls j ↔ m ∈ held j) := by
    intro m j hm
    rw [Function.update_apply]
    split_ifs with hj
    · rw [hothers m hm, hj]
    · rfl
  have hself : ∀ j, l ∈ Function.update held i ls j → j = i := by
    intro j hj
    by_contra hne
    rw [Function.update_of_ne hne] at hj
    exact hl j hne hj
  refine ⟨fun j => ?_, fun m => ?_, fun {j k m} hj hk => ?_, fun j => ?_⟩
  · show Disciplined rank owner _ (Function.update q.thread i ops j)
    rw [Function.update_apply, Function.update_apply]
    split_ifs
    · exact hops
    · exact h.ops j
  · show Function.update q.shared l b m = true ↔ _
    by_cases hm : m = l
    · subst hm
      rw [Function.update_self, hb]
      refine ⟨fun hls => ⟨i, (Function.update_self i ls held).symm ▸ hls⟩, ?_⟩
      rintro ⟨j, hj⟩
      rwa [hself j hj, Function.update_self] at hj
    · rw [Function.update_of_ne hm, h.taken]
      exact exists_congr fun j => (hmem m j hm).symm
  · by_cases hm : m = l
    · subst hm
      rw [hself j hj, hself k hk]
    · exact h.alone ((hmem m j hm).1 hj) ((hmem m k hm).1 hk)
  · rw [Function.update_apply]
    split_ifs
    · exact hnodup
    · exact h.nodup j

omit [DecidableEq L] in
/-- A thread goes on with the locks it holds. -/
theorem update_ops (h : Guarding rank owner q held) {ops : List (LockOp L X)}
    (hops : Disciplined rank owner (held i) ops) :
    Guarding rank owner ⟨q.shared, Function.update q.thread i ops⟩ held where
  ops j := by
    show Disciplined rank owner _ (Function.update q.thread i ops j)
    rw [Function.update_apply]
    split_ifs with hj
    · exact hj ▸ hops
    · exact h.ops j
  taken := h.taken
  alone := h.alone
  nodup := h.nodup

/-- What a step of a thread does to the locks that are held. -/
theorem step (h : Guarding rank owner q held)
    (hst : (locking.interleave p).step q i = some r) : ∃ held', Guarding rank owner r held' := by
  obtain ⟨ops', taken, hnext, rfl⟩ := Threads.interleave_step hst
  have hops := h.ops i
  have hnodup := h.nodup i
  generalize hls : held i = ls at hops hnodup
  generalize q.thread i = ops at hnext hops
  cases hops with
  | nil => cases hnext
  | access _ hops =>
    cases hnext
    exact ⟨held, h.update_ops (hls ▸ hops)⟩
  | peek hops =>
    cases hnext
    exact ⟨held, h.update_ops (hls ▸ hops)⟩
  | @call returns _ _ hops =>
    cases returns with
    | false => cases hnext
    | true =>
      cases hnext
      exact ⟨held, h.update_ops (hls ▸ hops)⟩
  | @acquire l _ _ _ hops =>
    by_cases htaken : q.shared l = true
    · rw [next_acquire, if_pos htaken] at hnext
      cases hnext
    · rw [next_acquire, if_neg htaken] at hnext
      cases hnext
      have hnew : ∀ j, l ∉ held j := fun j hj => htaken ((h.taken l).2 ⟨j, hj⟩)
      refine ⟨_, h.update hops (List.nodup_cons.2 ⟨hls ▸ hnew i, hnodup⟩)
        (iff_of_true rfl List.mem_cons_self) (fun j _ => hnew j) fun m hm => ?_⟩
      rw [hls, List.mem_cons, or_iff_right hm]
  | @release l ls _ hops =>
    cases hnext
    obtain ⟨hl, hnodup⟩ := List.nodup_cons.1 hnodup
    refine ⟨_, h.update hops hnodup (iff_of_false Bool.noConfusion hl) (fun j hj hmem => ?_)
      fun m hm => ?_⟩
    · exact hj (h.alone hmem (hls ▸ List.mem_cons_self))
    · rw [hls, List.mem_cons, or_iff_right hm]

/-- In every run, the locks that are taken are held. -/
theorem run (hfree : ∀ l, p.shared l = false) (hops : ∀ i, Disciplined rank owner [] (p.thread i))
    (h : (locking.interleave p).Run steps q) : ∃ held, Guarding rank owner q held := by
  refine h.reachable.invariant (I := fun q => ∃ held, Guarding rank owner q held)
    ⟨_, init hfree hops⟩ fun q i r hq hst => ?_
  obtain ⟨held, hq⟩ := hq
  exact hq.step hst

/-- A thread that has something left to do can go on, hangs, or waits for a lock that
    another thread holds. -/
theorem cases_thread (h : Guarding rank owner q held) (hi : q.thread i ≠ []) :
    (∃ r, (locking.interleave p).step q i = some r) ∨ Hangs (q.thread i) ∨
      ∃ l j, (q.thread i).head? = some (acquire l) ∧ l ∈ held j := by
  have hstep : ∀ {x}, locking.next (q.thread i) q.shared = some x →
      ∃ r, (locking.interleave p).step q i = some r := fun hx => ⟨_, congrArg (Option.map _) hx⟩
  generalize q.thread i = ops at hi hstep
  cases ops with
  | nil => exact absurd rfl hi
  | cons op ops =>
    cases op with
    | acquire l =>
      by_cases htaken : q.shared l = true
      · obtain ⟨j, hj⟩ := (h.taken l).1 htaken
        exact .inr (.inr ⟨l, j, rfl, hj⟩)
      · refine .inl (hstep (x := (ops, Function.update q.shared l true)) ?_)
        rw [next_acquire, if_neg htaken]
    | release l => exact .inl (hstep rfl)
    | access x => exact .inl (hstep rfl)
    | peek x => exact .inl (hstep rfl)
    | call returns =>
      cases returns with
      | true => exact .inl (hstep rfl)
      | false => exact .inr (.inl rfl)

omit [DecidableEq ι] [DecidableEq L] in
/-- A thread that holds a lock has something left to do, and if it waits, it waits for a
    lock of a higher rank. -/
theorem rank_lt (h : Guarding rank owner q held) {l : L} (hl : l ∈ held i) :
    q.thread i ≠ [] ∧ ∀ m, (q.thread i).head? = some (acquire m) → rank l < rank m := by
  have hops := h.ops i
  generalize q.thread i = ops, held i = ls at hops hl
  cases hops with
  | nil => exact absurd hl List.not_mem_nil
  | acquire hrank =>
    refine ⟨List.cons_ne_nil _ _, fun m hm => ?_⟩
    cases hm
    exact hrank l hl
  | _ => exact ⟨List.cons_ne_nil _ _, fun m hm => by cases hm⟩

/-- Whoever has something left to do waits, in the end, for a thread that can go on, or
    for one that hangs. -/
theorem leads [WellFoundedGT R] (h : Guarding rank owner q held) (hi : q.thread i ≠ []) :
    ∃ j, ReflTransGen q.Waits i j ∧
      ((∃ r, (locking.interleave p).step q j = some r) ∨ Hangs (q.thread j)) := by
  -- Who holds the lock that is waited for waits for one of a higher rank.
  suffices H : ∀ (a : R) (i j : ι) (l : L), rank l = a → (q.thread i).head? = some (acquire l) →
      l ∈ held j → ∃ k, ReflTransGen q.Waits i k ∧
        ((∃ r, (locking.interleave p).step q k = some r) ∨ Hangs (q.thread k)) by
    rcases h.cases_thread (p := p) hi with hst | hhangs | ⟨l, j, hl, hj⟩
    · exact ⟨i, .refl, .inl hst⟩
    · exact ⟨i, .refl, .inr hhangs⟩
    · exact H _ i j l rfl hl hj
  intro a
  induction a using WellFoundedGT.induction with
  | ind a ih =>
    rintro i j l rfl hl hj
    have hwaits : q.Waits i j := ⟨l, hl, (h.owed j).symm ▸ hj⟩
    obtain ⟨hne, hrank⟩ := h.rank_lt hj
    rcases h.cases_thread (p := p) hne with hst | hhangs | ⟨m, k, hm, hk⟩
    · exact ⟨j, .single hwaits, .inl hst⟩
    · exact ⟨j, .single hwaits, .inr hhangs⟩
    · obtain ⟨k', hreach, hends⟩ := ih (rank m) (hrank m hm) j k m rfl hm hk
      exact ⟨k', hreach.head hwaits, hends⟩

omit [DecidableEq ι] [DecidableEq L] in
/-- When all threads are done, no lock is taken. -/
theorem released (h : Guarding rank owner q held) (hdone : ∀ i, q.thread i = []) (l : L) :
    q.shared l = false := by
  refine Bool.eq_false_iff.2 fun htaken => ?_
  obtain ⟨i, hi⟩ := (h.taken l).1 htaken
  exact (h.rank_lt hi).1 (hdone i)

end Guarding

/-- A thread takes a step for each of its operations. -/
theorem run_length [DecidableEq ι] [DecidableEq L] (h : (locking.interleave p).Run steps q) (i : ι) :
    (steps.map Prod.snd).count i + (q.thread i).length = (p.thread i).length := by
  induction h with
  | init => exact Nat.zero_add _
  | @step steps q r j _ hst ih =>
    obtain ⟨ops, taken, hnext, rfl⟩ := Threads.interleave_step hst
    have hlength : (q.thread j).length = ops.length + 1 := by
      generalize q.thread j = ops' at hnext
      cases ops' with
      | nil => cases hnext
      | cons op ops' =>
        cases op with
        | acquire l =>
          rw [next_acquire] at hnext
          split_ifs at hnext
          cases hnext
          rfl
        | call returns =>
          cases returns with
          | false => cases hnext
          | true =>
            cases hnext
            rfl
        | _ =>
          cases hnext
          rfl
    rw [List.map_append, List.count_append, ← ih]
    simp only [List.map_singleton, List.count_singleton, Function.update_apply]
    by_cases hij : i = j
    · subst hij
      simp
      omega
    · simp [hij, Ne.symm hij]
