import Mathlib.Data.List.Basic
import Mathlib.Data.List.Forall2

/-!
# Levels

A list with a separator in it is a sequence of levels, empty ones included
(`List.splitOn`). In a *filter*, two levels are wildcards: `one` stands for any
level, and `many`, in the last place, for any number of them (`LevelsMatch`).
What is allowed of a level may depend on those after it (`EachLevel`).

* `levels_induction`: a list is one level, or a level, a separator and a list;
* `LevelsMatch.append`: a filter matches a name piece by piece.
-/

section Splitting

variable {α : Type} [DecidableEq α] (sep : α)

/-- A list is one level, or a level, a separator and a list. -/
theorem levels_cases (l : List α) :
    sep ∉ l ∨ ∃ level rest, sep ∉ level ∧ l = level ++ sep :: rest := by
  by_cases h : sep ∈ l
  · obtain ⟨level, rest, hl, hlevel⟩ := List.eq_append_cons_of_mem h
    exact .inr ⟨level, rest, hlevel, hl⟩
  · exact .inl h

/-- Induction over the levels of a list. -/
theorem levels_induction {P : List α → Prop} (level : ∀ a, sep ∉ a → P a)
    (cons : ∀ a l, sep ∉ a → P l → P (a ++ sep :: l)) (l : List α) : P l := by
  rcases levels_cases sep l with h | ⟨a, rest, ha, rfl⟩
  · exact level l h
  · exact cons a rest ha (levels_induction level cons rest)
termination_by l.length
decreasing_by
  rename_i h
  rw [h, List.length_append, List.length_cons]
  omega

theorem splitOn_eq_singleton_iff {l a : List α} (ha : sep ∉ a) :
    l.splitOn sep = [a] ↔ l = a := by
  constructor
  · intro h
    have hl : [sep].intercalate (l.splitOn sep) = l := List.intercalate_splitOn sep
    rw [← hl, h, List.intercalate_singleton]
  · rintro rfl
    exact List.splitOn_eq_singleton ha

end Splitting

section Places

variable {α : Type} {P : α → List α → Prop} {l : α} {ls : List α}

/-- Every level satisfies `P` with the levels after it. -/
def EachLevel (P : α → List α → Prop) (ls : List α) : Prop :=
  ∀ before level after, ls = before ++ level :: after → P level after

theorem eachLevel_nil : EachLevel P [] := fun _ _ _ h =>
  absurd h.symm (List.append_ne_nil_of_right_ne_nil _ (List.cons_ne_nil _ _))

theorem eachLevel_cons : EachLevel P (l :: ls) ↔ P l ls ∧ EachLevel P ls := by
  constructor
  · intro h
    refine ⟨h [] l ls rfl, fun before level after hls => ?_⟩
    exact h (l :: before) level after (congrArg (l :: ·) hls)
  · rintro ⟨hl, h⟩ before level after hls
    cases before with
    | nil =>
      cases hls
      exact hl
    | cons b before => exact h before level after (List.cons.inj hls).2

theorem eachLevel_singleton : EachLevel P [l] ↔ P l [] := by
  rw [eachLevel_cons, and_iff_left eachLevel_nil]

end Places

section Matching

variable {α : Type} {one many : α} {f n : α} {fs ns gs ms : List α}

/-- The levels of a filter match those of a name. -/
inductive LevelsMatch (one many : α) : List α → List α → Prop
  | nil : LevelsMatch one many [] []
  | level {f n : α} {fs ns : List α} (hf : f = one ∨ f = n) (h : LevelsMatch one many fs ns) :
    LevelsMatch one many (f :: fs) (n :: ns)
  | many (ns : List α) : LevelsMatch one many [many] ns

theorem levelsMatch_nil_left : LevelsMatch one many [] ns ↔ ns = [] := by
  constructor
  · rintro ⟨⟩
    rfl
  · rintro rfl
    exact .nil

theorem levelsMatch_nil_right : LevelsMatch one many fs [] ↔ fs = [] ∨ fs = [many] := by
  constructor
  · rintro ⟨⟩
    · exact .inl rfl
    · exact .inr rfl
  · rintro (rfl | rfl)
    · exact .nil
    · exact .many []

theorem levelsMatch_cons_cons : LevelsMatch one many (f :: fs) (n :: ns) ↔
    (f = one ∨ f = n) ∧ LevelsMatch one many fs ns ∨ f = many ∧ fs = [] := by
  constructor
  · rintro (_ | ⟨hf, h⟩ | _)
    · exact .inl ⟨hf, h⟩
    · exact .inr ⟨rfl, rfl⟩
  · rintro (⟨hf, h⟩ | ⟨rfl, rfl⟩)
    · exact .level hf h
    · exact .many _

/-- Levels that match one for one go before levels that match. -/
theorem LevelsMatch.append (hg : List.Forall₂ (fun g m => g = one ∨ g = m) gs ms)
    (h : LevelsMatch one many fs ns) : LevelsMatch one many (gs ++ fs) (ms ++ ns) := by
  induction hg with
  | nil => exact h
  | cons hgm _ ih => exact .level hgm ih

instance decidableLevelsMatch [DecidableEq α] (one many : α) :
    ∀ fs ns : List α, Decidable (LevelsMatch one many fs ns)
  | [], _ => decidable_of_iff _ levelsMatch_nil_left.symm
  | _ :: _, [] => decidable_of_iff _ levelsMatch_nil_right.symm
  | _ :: fs, _ :: ns =>
    haveI := decidableLevelsMatch one many fs ns
    decidable_of_iff _ levelsMatch_cons_cons.symm

end Matching
