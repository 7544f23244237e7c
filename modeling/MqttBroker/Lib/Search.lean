import Mathlib.Logic.Function.Iterate

/-!
# Searching along a function

A search goes from a value to the `next` one until it comes to one that it does
not skip (`FirstFrom`). What it comes to is the first of the iterates of `next`
that is not skipped (`firstFrom_iff`).
-/

variable {α : Type} {next : α → α} {skip : α → Prop} {x y : α}

/-- The search from `x` ends at `y`. -/
inductive FirstFrom (next : α → α) (skip : α → Prop) : α → α → Prop
  | here {x : α} (h : ¬skip x) : FirstFrom next skip x x
  | later {x y : α} (hx : skip x) (h : FirstFrom next skip (next x) y) : FirstFrom next skip x y

/-- A search ends at the first iterate that is not skipped. -/
theorem firstFrom_iff : FirstFrom next skip x y ↔
    ¬skip y ∧ ∃ n, y = next^[n] x ∧ ∀ m < n, skip (next^[m] x) := by
  constructor
  · intro h
    induction h with
    | here h => exact ⟨h, 0, rfl, fun m hm => absurd hm (Nat.not_lt_zero m)⟩
    | later hx h ih =>
      obtain ⟨hy, n, rfl, hskip⟩ := ih
      refine ⟨hy, n + 1, rfl, fun m hm => ?_⟩
      cases m with
      | zero => exact hx
      | succ m => exact hskip m (Nat.lt_of_succ_lt_succ hm)
  · rintro ⟨hy, n, rfl, hskip⟩
    induction n generalizing x with
    | zero => exact .here hy
    | succ n ih =>
      refine .later (hskip 0 (Nat.zero_lt_succ n)) (ih (fun m hm => ?_) hy)
      exact hskip (m + 1) (Nat.succ_lt_succ hm)
