import MqttBroker.Codec.Decoded
import MqttBroker.Object.Matching

/-!
# Valid topic filters

`is_topic_filter_valid` looks at one character after the other, at the one
before and at the one after it. What it accepts is told by the levels
(`FilterGrammar`): a wildcard takes up a whole level, and a `#` the last one.

* `validFrom_level`: the first level of a filter, and the rest of it;
* `isTopicFilterValid_iff`: what is accepted, and what is found wild then.
-/

namespace MqttBroker

/-- A level of a filter: without wildcards, or one wildcard, which is no `#` if
    there are levels after it. -/
def FilterLevel (level : Bytes) (after : List Bytes) : Prop :=
  (hash ∉ level ∧ plus ∉ level) ∨ level = [plus] ∨ level = [hash] ∧ after = []

/-- The grammar of topic filters. -/
def FilterGrammar (f : Bytes) : Prop := EachLevel FilterLevel (topicLevels f)

/-! ## The loop -/

/-- What the loop returns does not depend on the wildness found so far, and on the
    previous character only by whether a level begins after it. -/
theorem isTopicFilterValidLoop_fst {prevCh prevCh' : Option UInt8}
    (h : prevCh.all (· = slash) = prevCh'.all (· = slash)) (isWild isWild' : Bool) (f : Bytes) :
    (isTopicFilterValidLoop isWild prevCh f).1 = (isTopicFilterValidLoop isWild' prevCh' f).1 := by
  induction f generalizing isWild isWild' prevCh prevCh' with
  | nil => rfl
  | cons ch rest ih =>
    rw [isTopicFilterValidLoop, isTopicFilterValidLoop, h]
    split_ifs
    · rfl
    · exact ih rfl _ _
    · rfl
    · exact ih rfl _ _
    · exact ih rfl _ _

theorem validFrom_iff_loop {prevCh : Option UInt8} (h : prevCh.all (· = slash) = true)
    (isWild : Bool) (f : Bytes) :
    ValidFrom f ↔ (isTopicFilterValidLoop isWild prevCh f).1 = true := by
  constructor
  · rintro ⟨isWild', prevCh', hprev, hvalid⟩
    have h' : prevCh'.all (· = slash) = true := by simpa [Option.all_eq_true] using hprev
    rwa [isTopicFilterValidLoop_fst (h'.trans h.symm) isWild' isWild] at hvalid
  · exact fun hvalid => ⟨isWild, prevCh, by simpa [Option.all_eq_true] using h, hvalid⟩

theorem validFrom_iff_valid (f : Bytes) : ValidFrom f ↔ (isTopicFilterValid f).1 = true :=
  validFrom_iff_loop rfl false f

/-- A level without wildcards is passed over. -/
theorem valid_of_literal {a rest : Bytes} (ha : Literal a) (hrest : LevelEnds rest)
    (hnext : ∀ l, rest = slash :: l → ValidFrom l) (isWild : Bool) (prevCh : Option UInt8) :
    (isTopicFilterValidLoop isWild prevCh (a ++ rest)).1 = true := by
  induction a generalizing prevCh with
  | nil =>
    rcases hrest with rfl | ⟨l, rfl⟩
    · rfl
    · rw [List.nil_append, isTopicFilterValidLoop, if_neg (by decide), if_neg (by decide)]
      exact (validFrom_iff_loop rfl isWild l).1 (hnext l rfl)
  | cons ch a ih =>
    obtain ⟨hhash, hplus⟩ := ha
    simp only [List.mem_cons, not_or] at hhash hplus
    rw [List.cons_append, isTopicFilterValidLoop, if_neg (Ne.symm hhash.1),
      if_neg (Ne.symm hplus.1)]
    exact ih ⟨hhash.2, hplus.2⟩ (some ch)

/-! ## Level by level -/

/-- A filter is accepted for its first level and for what follows the level. -/
theorem validFrom_level {a rest : Bytes} (ha : slash ∉ a) (hrest : LevelEnds rest) :
    ValidFrom (a ++ rest) ↔
      a = [hash] ∧ rest = [] ∨ (a = [plus] ∨ Literal a) ∧ ∀ l, rest = slash :: l → ValidFrom l := by
  refine ⟨valid_level ha hrest, ?_⟩
  rintro (⟨rfl, rfl⟩ | ⟨rfl | hlit, hnext⟩)
  · exact (validFrom_iff_valid _).2 (by decide)
  · rcases hrest with rfl | ⟨l, rfl⟩
    · exact (validFrom_iff_valid _).2 (by decide)
    · -- The `+` is the whole level, and after the `/` the next one begins.
      refine (validFrom_iff_valid _).2 ?_
      rw [isTopicFilterValid, List.cons_append, isTopicFilterValidLoop, if_neg (by decide),
        if_pos rfl, if_neg (by simp)]
      exact valid_of_literal (a := []) (by simp [Literal]) (.inr ⟨l, rfl⟩) hnext true _
  · exact (validFrom_iff_valid _).2 (valid_of_literal hlit hrest hnext false none)

theorem filterLevel_iff {a : Bytes} {after : List Bytes} :
    FilterLevel a after ↔ a = [hash] ∧ after = [] ∨ a = [plus] ∨ Literal a := by
  rw [FilterLevel, Literal]
  tauto

theorem validFrom_iff (f : Bytes) : ValidFrom f ↔ FilterGrammar f := by
  induction f using levels_induction slash with
  | level a ha =>
    have hlevel := validFrom_level ha (.inl rfl)
    rw [List.append_nil] at hlevel
    rw [hlevel, FilterGrammar, topicLevels_level ha, eachLevel_singleton, filterLevel_iff]
    have hnone : ∀ l, [] = slash :: l → ValidFrom l :=
      fun l h => absurd h.symm (List.cons_ne_nil _ _)
    exact or_congr (and_congr_right fun _ => iff_of_true rfl rfl) (and_iff_left hnone)
  | cons a l ha ih =>
    rw [validFrom_level ha (.inr ⟨l, rfl⟩), FilterGrammar, topicLevels_cons ha, eachLevel_cons,
      filterLevel_iff, ← FilterGrammar, ← ih]
    -- There is a level to come, so that this one is no `#`.
    have hnot : ¬(a = [hash] ∧ slash :: l = []) := fun h => List.cons_ne_nil _ _ h.2
    have hnot' : ¬(a = [hash] ∧ topicLevels l = []) := fun h => topicLevels_ne_nil l h.2
    rw [or_iff_right hnot, or_iff_right hnot']
    refine and_congr_right fun _ => ⟨fun h => h l rfl, fun h l' hl => ?_⟩
    cases hl
    exact h

/-- `is_topic_filter_valid` accepts exactly the topic filters whose levels follow the
    grammar, and finds those of them wild that have a wildcard. -/
theorem isTopicFilterValid_iff (f : Bytes) :
    ((isTopicFilterValid f).1 = true ↔ FilterGrammar f) ∧
      ((isTopicFilterValid f).1 = true →
        ((isTopicFilterValid f).2 = true ↔ hash ∈ f ∨ plus ∈ f)) :=
  ⟨(validFrom_iff_valid f).symm.trans (validFrom_iff f), fun _ => isWildFilter_iff f⟩

end MqttBroker
