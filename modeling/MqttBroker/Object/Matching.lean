import MqttBroker.Lib.Levels
import MqttBroker.Object.Topic
import MqttBroker.Packet.Decode

/-!
# Topic names and the filters that match them

`topic::match` walks over characters; what it decides is whether the levels of
a filter match those of a name (`LevelsMatch`), unless the name ends in an empty
level that is left to wildcards: where the name is at its end, only a `/#` is
looked for (`EndsInWildcards`).

* `valid_level`: what `is_topic_filter_valid` says of the first level of a
  filter;
* `topicMatch_level`: one level of a valid filter against one of a name;
* `topicMatch_iff`: what the walk decides.
-/

namespace MqttBroker

/-- The levels of a topic filter or of a topic name. -/
def topicLevels (s : Bytes) : List Bytes := s.splitOn slash

theorem topicLevels_level {a : Bytes} (ha : slash ∉ a) : topicLevels a = [a] :=
  List.splitOn_eq_singleton ha

theorem topicLevels_cons {a l : Bytes} (ha : slash ∉ a) :
    topicLevels (a ++ slash :: l) = a :: topicLevels l :=
  List.splitOn_append_cons_self_of_not_mem ha l

theorem topicLevels_ne_nil (s : Bytes) : topicLevels s ≠ [] := List.splitOn_ne_nil _ _

/-- What may follow a level: nothing, or a `/` and more. -/
def LevelEnds (rest : Bytes) : Prop := rest = [] ∨ ∃ l, rest = slash :: l

/-- The levels after the first one. -/
def laterLevels : Bytes → List Bytes
  | [] => []
  | _ :: l => topicLevels l

theorem topicLevels_append {a rest : Bytes} (ha : slash ∉ a) (hrest : LevelEnds rest) :
    topicLevels (a ++ rest) = a :: laterLevels rest := by
  rcases hrest with rfl | ⟨l, rfl⟩
  · rw [List.append_nil, topicLevels_level ha, laterLevels]
  · exact topicLevels_cons ha

theorem laterLevels_eq_nil {rest : Bytes} : laterLevels rest = [] ↔ rest = [] := by
  cases rest <;> simp [laterLevels, topicLevels_ne_nil]

/-- The levels of the filter `f` match the levels of the name `n`. -/
def MatchesByLevel (f n : Bytes) : Prop :=
  LevelsMatch [plus] [hash] (topicLevels f) (topicLevels n)

instance (f n : Bytes) : Decidable (MatchesByLevel f n) :=
  inferInstanceAs (Decidable (LevelsMatch _ _ _ _))

/-- Level lists where the name ends in an empty level, and the filter, which
    matches it one for one up to there, ends in wildcards. -/
def LevelsEndInWildcards (fs ns : List Bytes) : Prop :=
  ∃ gs ms ws, fs = gs ++ ws ∧ ns = ms ++ [[]] ∧
    List.Forall₂ (fun g m => g = [plus] ∨ g = m) gs ms ∧
    (ws = [[plus]] ∨ ws = [[hash]] ∨ ws = [[plus], [hash]])

/-- The name ends with a `/`, and the filter goes on with wildcards only after
    as many levels, which match those of the name one for one. -/
def EndsInWildcards (f n : Bytes) : Prop :=
  LevelsEndInWildcards (topicLevels f) (topicLevels n)

theorem not_levelsEndInWildcards_nil (fs : List Bytes) : ¬LevelsEndInWildcards fs [] := by
  rintro ⟨gs, ms, ws, -, h, -⟩
  exact absurd h.symm (List.append_ne_nil_of_right_ne_nil _ (List.cons_ne_nil _ _))

theorem levelsEndInWildcards_cons {f n : Bytes} {fs ns : List Bytes} :
    LevelsEndInWildcards (f :: fs) (n :: ns) ↔
      n = [] ∧ ns = [] ∧ (f = [plus] ∧ fs = [] ∨ f = [hash] ∧ fs = [] ∨
        f = [plus] ∧ fs = [[hash]]) ∨
      (f = [plus] ∨ f = n) ∧ LevelsEndInWildcards fs ns := by
  constructor
  · rintro ⟨gs, ms, ws, hf, hn, hgm, hws⟩
    rcases hgm with _ | ⟨hgm, hrest⟩
    · obtain ⟨rfl, rfl⟩ := List.cons.inj hn
      left
      rcases hws with rfl | rfl | rfl <;> obtain ⟨rfl, rfl⟩ := List.cons.inj hf <;> simp
    · obtain ⟨rfl, rfl⟩ := List.cons.inj hf
      obtain ⟨rfl, rfl⟩ := List.cons.inj hn
      exact .inr ⟨hgm, _, _, ws, rfl, rfl, hrest, hws⟩
  · rintro (⟨rfl, rfl, hws⟩ | ⟨hfn, gs, ms, ws, rfl, rfl, hgm, hws⟩)
    · refine ⟨[], [], f :: fs, rfl, rfl, .nil, ?_⟩
      rcases hws with ⟨rfl, rfl⟩ | ⟨rfl, rfl⟩ | ⟨rfl, rfl⟩ <;> simp
    · exact ⟨f :: gs, n :: ms, ws, rfl, rfl, .cons hfn hgm, hws⟩

/-- Where a filter ends in wildcards that way, it matches by levels. -/
theorem EndsInWildcards.matchesByLevel {f n : Bytes} (h : EndsInWildcards f n) :
    MatchesByLevel f n := by
  obtain ⟨gs, ms, ws, hf, hn, hgm, hws⟩ := h
  rw [MatchesByLevel, hf, hn]
  refine LevelsMatch.append hgm ?_
  rcases hws with rfl | rfl | rfl
  · exact .level (.inl rfl) .nil
  · exact .many _
  · exact .level (.inl rfl) (.many _)

/-! ## The levels of a valid filter -/

/-- What `is_topic_filter_valid` accepts from the beginning of a level on. -/
def ValidFrom (f : Bytes) : Prop :=
  ∃ isWild prevCh, (∀ c ∈ prevCh, c = slash) ∧ (isTopicFilterValidLoop isWild prevCh f).1 = true

theorem validFrom_of_valid {f : Bytes} (h : (isTopicFilterValid f).1 = true) : ValidFrom f :=
  ⟨false, none, by simp, h⟩

/-- A level without wildcards. -/
def Literal (level : Bytes) : Prop := hash ∉ level ∧ plus ∉ level

/-- After the first character of a level there are no wildcards in it. -/
theorem literal_of_valid {isWild : Bool} {c : UInt8} {a rest : Bytes} (hc : c ≠ slash)
    (ha : slash ∉ a) (h : (isTopicFilterValidLoop isWild (some c) (a ++ rest)).1 = true) :
    Literal a ∧ ∃ d, (isTopicFilterValidLoop isWild (some d) rest).1 = true := by
  induction a generalizing c with
  | nil => exact ⟨by simp [Literal], c, h⟩
  | cons d a ih =>
    simp only [List.mem_cons, not_or] at ha
    rw [List.cons_append, isTopicFilterValidLoop] at h
    simp only [Option.all_some, hc, decide_false, Bool.not_false, Bool.true_or, if_true] at h
    split_ifs at h with hh hp
    obtain ⟨⟨hhash, hplus⟩, hrest⟩ := ih (Ne.symm ha.1) ha.2 h
    exact ⟨⟨by simp [Ne.symm hh, hhash], by simp [Ne.symm hp, hplus]⟩, hrest⟩

/-- The first level of a valid filter is a `#`, and the last one, or a `+`, or
    without wildcards; what follows the level is valid, too. -/
theorem valid_level {a rest : Bytes} (ha : slash ∉ a) (hrest : LevelEnds rest)
    (h : ValidFrom (a ++ rest)) :
    a = [hash] ∧ rest = [] ∨ (a = [plus] ∨ Literal a) ∧ ∀ l, rest = slash :: l → ValidFrom l := by
  obtain ⟨isWild, prevCh, hprev, h⟩ := h
  have hafter : prevCh.all (· = slash) = true := by simpa [Option.all_eq_true] using hprev
  have hnext {w : Bool} {p : Option UInt8} (h : (isTopicFilterValidLoop w p rest).1 = true) :
      ∀ l, rest = slash :: l → ValidFrom l := by
    rintro l rfl
    exact ⟨w, some slash, by simp, h⟩
  cases a with
  | nil => exact .inr ⟨.inr (by simp [Literal]), hnext h⟩
  | cons c a =>
    simp only [List.mem_cons, not_or] at ha
    rw [List.cons_append, isTopicFilterValidLoop] at h
    split_ifs at h with hh hlast hp hlevel
    · simp only [hafter, Bool.not_true, Bool.false_or, Bool.not_eq_true', Bool.not_eq_false,
        List.isEmpty_iff, List.append_eq_nil_iff] at hlast
      exact .inl ⟨by rw [hh, hlast.1], hlast.2⟩
    · simp only [hafter, Bool.not_true, Bool.false_or, Bool.not_eq_true', Bool.not_eq_false] at hlevel
      -- The character after the `+` is a `/`, so that the level is over.
      obtain rfl : a = [] := by
        cases a with
        | nil => rfl
        | cons d a => exact absurd (by simpa using hlevel : d = slash) fun hd => ha.2 (by simp [hd])
      exact .inr ⟨.inl (by rw [hp]), hnext h⟩
    · obtain ⟨⟨hhash, hplus⟩, d, hd⟩ := literal_of_valid (Ne.symm ha.1) ha.2 h
      exact .inr ⟨.inr ⟨by simp [Ne.symm hh, hhash], by simp [Ne.symm hp, hplus]⟩, hnext hd⟩

/-! ## Matching level by level -/

/-- A literal level is compared with the level of the name. -/
theorem topicMatch_literal {a b frest nrest : Bytes} (hlit : Literal a) (ha : slash ∉ a)
    (hb : slash ∉ b) (hf : LevelEnds frest) (hn : LevelEnds nrest) :
    topicMatch (a ++ frest) (b ++ nrest) = true ↔ a = b ∧ topicMatch frest nrest = true := by
  induction a generalizing b with
  | nil =>
    cases b with
    | nil => simp
    | cons d b =>
      simp only [List.mem_cons, not_or] at hb
      rcases hf with rfl | ⟨l, rfl⟩
      · simp [topicMatch]
      · simp [topicMatch, hb.1, show slash ≠ hash by decide, show slash ≠ plus by decide]
  | cons c a ih =>
    obtain ⟨hhash, hplus⟩ := hlit
    simp only [List.mem_cons, not_or] at ha hhash hplus
    cases b with
    | nil =>
      rcases hn with rfl | ⟨l, rfl⟩
      · simp [topicMatch, Ne.symm ha.1]
      · simp [topicMatch, Ne.symm ha.1, Ne.symm hhash.1, Ne.symm hplus.1]
    | cons d b =>
      simp only [List.mem_cons, not_or] at hb
      simp only [List.cons_append, topicMatch, Ne.symm hhash.1, Ne.symm hplus.1, if_false]
      split_ifs with hcd
      · rw [ih ⟨hhash.2, hplus.2⟩ ha.2 hb.2, hcd, List.cons.injEq]
        simp
      · simp [hcd]

/-- A `+` passes over a level of the name, unless the name is at its end. -/
theorem topicMatch_plus {b frest nrest : Bytes} (hb : slash ∉ b) (hn : LevelEnds nrest) :
    topicMatch (plus :: frest) (b ++ nrest) = true ↔
      b ++ nrest ≠ [] ∧ topicMatch frest nrest = true := by
  have hdrop : (b ++ nrest).dropWhile (fun c => decide (c ≠ slash)) = nrest := by
    rw [List.dropWhile_append_of_pos fun c hc => by simpa using fun hs : c = slash => hb (hs ▸ hc)]
    rcases hn with rfl | ⟨l, rfl⟩ <;> simp
  cases hne : b ++ nrest with
  | nil => simp [topicMatch, show plus ≠ slash by decide]
  | cons c s =>
    rw [topicMatch, if_neg (by decide), if_pos rfl, ← hne, hdrop]
    simp [hne]

/-- A level of a filter other than `#` against a level of a name. -/
theorem topicMatch_level {a b frest nrest : Bytes} (hlevel : a = [plus] ∨ Literal a)
    (ha : slash ∉ a) (hb : slash ∉ b) (hb' : plus ∉ b) (hf : LevelEnds frest)
    (hn : LevelEnds nrest) :
    topicMatch (a ++ frest) (b ++ nrest) = true ↔
      (a = [plus] ∧ b ++ nrest ≠ [] ∨ a = b) ∧ topicMatch frest nrest = true := by
  rcases hlevel with rfl | hlit
  · have hne : [plus] ≠ b := by
      rintro rfl
      exact hb' List.mem_cons_self
    rw [List.singleton_append, topicMatch_plus hb hn]
    simp [hne]
  · have hne : a ≠ [plus] := by
      rintro rfl
      exact hlit.2 List.mem_cons_self
    rw [topicMatch_literal hlit ha hb hf hn]
    simp [hne]

/-- A `#` at the beginning of a valid filter is all of it. -/
theorem head_hash_iff {f : Bytes} (h : ValidFrom f) :
    f.head? = some hash ↔ topicLevels f = [[hash]] := by
  have hslash : slash ∉ [hash] := by decide
  rw [topicLevels, splitOn_eq_singleton_iff slash hslash]
  constructor
  · intro hh
    rcases levels_cases slash f with hf | ⟨a, l, ha, rfl⟩
    · rw [← List.append_nil f] at h
      rcases valid_level hf (.inl rfl) h with ⟨hf, -⟩ | ⟨rfl | hlit, -⟩
      · exact hf
      · exact absurd hh (by decide)
      · exact absurd (List.mem_of_head? hh) hlit.1
    · rcases valid_level ha (.inr ⟨l, rfl⟩) h with ⟨-, hl⟩ | ⟨rfl | hlit, -⟩
      · exact absurd hl (List.cons_ne_nil _ _)
      · exact absurd hh (by simp [show plus ≠ hash by decide])
      · cases a with
        | nil => exact absurd hh (by simp [show slash ≠ hash by decide])
        | cons c a => exact absurd (List.mem_of_head? (l := c :: a) hh) hlit.1
  · rintro rfl
    rfl

/-- The filter `#` matches every name but the empty one. -/
theorem topicMatch_hash {n : Bytes} (hn : Literal n) :
    topicMatch [hash] n = true ↔ MatchesByLevel [hash] n ∧ ¬EndsInWildcards [hash] n := by
  have hmatch : MatchesByLevel [hash] n := .many _
  have hne (b : Bytes) (hb : b ⊆ n) : [hash] ≠ b := by
    rintro rfl
    exact hn.1 (hb List.mem_cons_self)
  have hends : EndsInWildcards [hash] n ↔ n = [] := by
    rcases levels_cases slash n with hslash | ⟨b, l, hb, rfl⟩
    · rw [EndsInWildcards, topicLevels_level hslash, topicLevels_level (by decide),
        levelsEndInWildcards_cons]
      simp [hne n (List.Subset.refl n), not_levelsEndInWildcards_nil, show hash ≠ plus by decide]
    · rw [EndsInWildcards, topicLevels_cons hb, topicLevels_level (by decide),
        levelsEndInWildcards_cons]
      simp [hne b (List.subset_append_left _ _), topicLevels_ne_nil, show hash ≠ plus by decide]
  cases n with
  | nil => simp [hmatch, hends, topicMatch, show hash ≠ slash by decide]
  | cons c n => simp [hmatch, hends, topicMatch]

/-- After a level, the walk goes on with what follows, where a `/#` may match
    the end of the name. -/
theorem topicMatch_rest {frest nrest : Bytes} (hf : LevelEnds frest) (hn : LevelEnds nrest)
    (hvalid : ∀ f, frest = slash :: f → ValidFrom f)
    (h : ∀ f n, frest = slash :: f → nrest = slash :: n →
      (topicMatch f n = true ↔ MatchesByLevel f n ∧ ¬EndsInWildcards f n)) :
    topicMatch frest nrest = true ↔
      LevelsMatch [plus] [hash] (laterLevels frest) (laterLevels nrest) ∧
        ¬LevelsEndInWildcards (laterLevels frest) (laterLevels nrest) := by
  rcases hf with rfl | ⟨f, rfl⟩ <;> rcases hn with rfl | ⟨n, rfl⟩
  · simp [topicMatch, laterLevels, levelsMatch_nil_left, not_levelsEndInWildcards_nil]
  · simp [topicMatch, laterLevels, levelsMatch_nil_left, topicLevels_ne_nil]
  · simp [topicMatch, laterLevels, levelsMatch_nil_right, topicLevels_ne_nil,
      not_levelsEndInWildcards_nil, head_hash_iff (hvalid f rfl)]
  · rw [topicMatch, if_neg (by decide), if_neg (by decide), if_pos rfl]
    exact h f n rfl rfl

/-- One level of a filter, where it is known how the rest is matched. -/
theorem topicMatch_step {a frest n : Bytes} (ha : slash ∉ a) (hrest : LevelEnds frest)
    (hf : ValidFrom (a ++ frest)) (hn : Literal n)
    (h : ∀ f m, frest = slash :: f → ValidFrom f → Literal m →
      (topicMatch f m = true ↔ MatchesByLevel f m ∧ ¬EndsInWildcards f m)) :
    topicMatch (a ++ frest) n = true ↔
      MatchesByLevel (a ++ frest) n ∧ ¬EndsInWildcards (a ++ frest) n := by
  rcases valid_level ha hrest hf with ⟨rfl, rfl⟩ | ⟨hlevel, hvalid⟩
  · exact topicMatch_hash hn
  obtain ⟨b, nrest, hb, hnrest, rfl⟩ : ∃ b nrest, slash ∉ b ∧ LevelEnds nrest ∧ n = b ++ nrest := by
    rcases levels_cases slash n with hs | ⟨b, l, hb, rfl⟩
    · exact ⟨n, [], hs, .inl rfl, (List.append_nil n).symm⟩
    · exact ⟨b, slash :: l, hb, .inr ⟨l, rfl⟩, rfl⟩
  have hplus : plus ∉ b := fun hp => hn.2 (List.mem_append_left _ hp)
  have hne : [plus] ≠ b := by
    rintro rfl
    exact hplus List.mem_cons_self
  have hhash : a ≠ [hash] := by
    rintro rfl
    simp [Literal, show hash ≠ plus by decide] at hlevel
  have hlater := topicMatch_rest hrest hnrest hvalid fun f m hfm hnm =>
    h f m hfm (hvalid f hfm) ⟨fun hm => hn.1 (by simp [hnm, hm]), fun hm => hn.2 (by simp [hnm, hm])⟩
  rw [topicMatch_level hlevel ha hb hplus hrest hnrest, hlater, MatchesByLevel, EndsInWildcards,
    topicLevels_append ha hrest, topicLevels_append hb hnrest, levelsMatch_cons_cons,
    levelsEndInWildcards_cons]
  simp only [hhash, false_and, or_false, false_or, laterLevels_eq_nil]
  rcases hlevel with rfl | hlit
  · -- A `+` is left over where the name is at its end, alone or before a `/#`.
    have hend (hn : nrest = []) : LevelsMatch [plus] [hash] (laterLevels frest)
        (laterLevels nrest) ↔ frest = [] ∨ laterLevels frest = [[hash]] := by
      rw [hn, laterLevels, levelsMatch_nil_right, laterLevels_eq_nil]
    simp only [hne, true_and, or_false, ne_eq, List.append_eq_nil_iff]
    tauto
  · have ha' : a ≠ [plus] := by
      rintro rfl
      exact hlit.2 List.mem_cons_self
    simp only [ha', false_and, false_or, and_false]
    tauto

/-- `topic::match` decides whether the levels match, unless wildcards are left
    over for the empty level the name ends with. -/
theorem topicMatch_iff {f n : Bytes} (hf : ValidFrom f) (hn : Literal n) :
    topicMatch f n = true ↔ MatchesByLevel f n ∧ ¬EndsInWildcards f n := by
  induction f using levels_induction slash generalizing n with
  | level a ha =>
    have hstep := topicMatch_step (n := n) ha (.inl rfl) (by rwa [List.append_nil]) hn
      fun f m h => absurd h.symm (List.cons_ne_nil _ _)
    rwa [List.append_nil] at hstep
  | cons a f ha ih =>
    exact topicMatch_step ha (.inr ⟨f, rfl⟩) hf hn fun g m hg hvalid hm => by
      rw [← List.tail_eq_of_cons_eq hg] at hvalid ⊢
      exact ih hvalid hm

/-- `topic::match` on a valid filter and a topic name that can be published to
    agrees with matching by levels exactly where the filter does not end in
    wildcards for the empty level the name ends with. -/
theorem topicMatch_agrees_iff (f n : Bytes) (hf : f ≠ [] ∧ (isTopicFilterValid f).1 = true)
    (hn : n ≠ [] ∧ hash ∉ n ∧ plus ∉ n ∧ n.head? ≠ some dollar) :
    (topicMatch f n = true ↔ MatchesByLevel f n) ↔ ¬EndsInWildcards f n := by
  rw [topicMatch_iff (validFrom_of_valid hf.2) ⟨hn.2.1, hn.2.2.1⟩]
  have h := EndsInWildcards.matchesByLevel (f := f) (n := n)
  tauto

/-- `a/b/#` matches `a/b`. -/
theorem topicMatch_agrees_iff_parent :
    (topicMatch (ascii ['a', '/', 'b', '/', '#']) (ascii ['a', '/', 'b']) = true ↔
      MatchesByLevel (ascii ['a', '/', 'b', '/', '#']) (ascii ['a', '/', 'b'])) ↔
    ¬EndsInWildcards (ascii ['a', '/', 'b', '/', '#']) (ascii ['a', '/', 'b']) :=
  topicMatch_agrees_iff _ _ (by decide) (by decide)

/-- The filter `a/+` matches the name `a/` level by level, but `topic::match`
    finds the name at its end. -/
theorem topicMatch_misses_empty_level :
    ¬∀ f n : Bytes, f ≠ [] ∧ (isTopicFilterValid f).1 = true →
      n ≠ [] ∧ hash ∉ n ∧ plus ∉ n ∧ n.head? ≠ some dollar →
      (topicMatch f n = true ↔ MatchesByLevel f n) := by
  intro h
  have hmiss := h (ascii ['a', '/', '+']) (ascii ['a', '/']) (by decide) (by decide)
  exact absurd hmiss (by decide)

end MqttBroker
