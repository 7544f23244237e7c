import MqttBroker.Delivery.Posting

/-!
# What publishing stores

A message to retain is stored in every topic it is published to
(`World.Stores`): by `handle_publish` in the topic of its name and in the wild
topics that match (`returns_forwardPublish_stores`), and by a will in the topic
of its name alone (`publishWillMessage_stores`). Nothing else in the tables
changes.
-/

namespace MqttBroker

open Prog

/-- A message comes to the topics of its name: the one in `_topics`, and those in
    `_wild_topics` that match. -/
def MqttPublish.Reaches (m : MqttPublish) (b : Bool) (f : Bytes) : Prop :=
  if b then topicMatch f m.topicName = true else f = m.topicName

instance (m : MqttPublish) (b : Bool) (f : Bytes) : Decidable (m.Reaches b f) :=
  inferInstanceAs (Decidable (if b then _ else _))

/-- The message is stored in the topics at the places `ps`, if it is one to
    retain, and the tables stay as they are otherwise. -/
structure World.Stores (w : World) (m : MqttPublish) (ps : List TopicPtr) (w' : World) : Prop where
  topicAt b f : w'.topicAt (.entry b f) =
    if m.retain = true ∧ .entry b f ∈ ps then (w.topicAt (.entry b f)).map fun t => t.retain m
    else w.topicAt (.entry b f)
  trash : w'.trashTopic.topicFilter = w.trashTopic.topicFilter

variable {w v w' : World} {m : MqttPublish} {ps qs : List TopicPtr}

theorem stores_nil (htopics : w'.topics = w.topics)
    (htrash : w'.trashTopic.topicFilter = w.trashTopic.topicFilter) : w.Stores m [] w' := by
  refine ⟨fun b f => ?_, htrash⟩
  rw [if_neg fun h => List.not_mem_nil h.2, World.topicAt, htopics]
  rfl

theorem World.Stores.trans (h : w.Stores m ps v) (h' : v.Stores m qs w') :
    w.Stores m (ps ++ qs) w' := by
  refine ⟨fun b f => ?_, h'.trash.trans h.trash⟩
  rw [h'.topicAt, h.topicAt]
  simp only [List.mem_append]
  -- Storing the message once more makes no difference.
  have hidem : ∀ t : Option Topic, (t.map fun t => t.retain m).map (fun t => t.retain m) =
      t.map fun t => t.retain m := by
    intro t
    cases t <;> rfl
  cases m.retain with
  | true =>
    simp only [true_and]
    split_ifs <;> simp_all
  | false => simp only [Bool.false_eq_true, false_and, if_false]

/-- Every topic stays in its table. -/
theorem World.Stores.isSome (h : w.Stores m ps w') (b : Bool) (f : Bytes) :
    (w'.topicAt (.entry b f)).isSome = (w.topicAt (.entry b f)).isSome := by
  rw [h.topicAt]
  split_ifs
  · exact Option.isSome_map
  · rfl

/-- A topic is published to. -/
theorem returns_publishTopic_stores (hm : m.Sendable) (p : TopicPtr) (w : World) :
    Returns (publishTopic p m) (fun _ w' => w.Stores m [p] w') w := by
  refine (returns_publishTopic hm p w).mono fun _ w' ⟨_, hposts⟩ => ⟨fun b f => ?_, ?_⟩
  · rw [World.topicAt, hposts.frame.2.1]
    refine (w.topicAt_storeRetained p m b f).trans ?_
    simp only [List.mem_singleton, eq_comm]
  · rw [hposts.frame.2.2, w.trashTopic_storeRetained]

/-! ## `handle_publish` -/

/-- The loop over the wild topics. -/
theorem returns_publishWild_stores (hm : m.Sendable) (sent : Bool) (ts : List Topic) (w : World) :
    Returns (publishWild m sent ts) (fun _ w' => w.Stores m
      ((ts.filter fun t => topicMatch t.topicFilter m.topicName).map
        fun t => .entry true t.topicFilter) w') w := by
  refine returns_foldEach (I := fun done _ w' => w.Stores m
    ((done.filter fun t : Topic => topicMatch t.topicFilter m.topicName).map
      fun t => .entry true t.topicFilter) w') (fun done t _ sent v hv => ?_) (stores_nil rfl rfl)
  rw [List.filter_append, List.map_append]
  split_ifs with hmatch
  · refine (returns_publishTopic_stores hm (.entry true t.topicFilter) v).mono fun _ u hu => ?_
    rw [List.filter_cons_of_pos (by exact hmatch)]
    exact hv.trans hu
  · rw [List.filter_cons_of_neg (by exact hmatch)]
    exact returns_pure (hv.trans (stores_nil rfl rfl))

/-- What `$sys/trash` is told is not retained. -/
theorem returns_publishTrash_stores
    (hsize : w.trashTopic.topicFilter.length + m.topicName.length + 4 ≤ 0x0fffffff) :
    Returns (publishTrash m) (fun _ w' => w.Stores m [] w') w := by
  obtain ⟨p, hp⟩ := mqttPublish_of_sizes (by decide : 1 < 3) hsize false false 0xffff
  have hretain := (mqttPublish_eq_ok hp).2.2.1
  refine returns_get_bind ?_
  rw [hp]
  refine returns_ok_bind (returns_bind
    (returns_publishTopic_stores (sendable_of_eq_ok hp (by decide) hsize) .trash w) fun _ w' h => ?_)
  refine returns_pure ⟨fun b f => ?_, h.trash⟩
  rw [h.topicAt, if_neg fun hp => Bool.false_ne_true (hretain.symm.trans hp.1),
    if_neg fun hp => List.not_mem_nil hp.2]

/-- The message is stored in the topic of its name, if that is there. -/
theorem returns_publishExact_stores (hm : m.Sendable) (w : World) :
    Returns (tryCatch (do publishTopic (← topicsAt m.topicName) m) fun _ => pure false)
      (fun _ v => w.Stores m [.entry false m.topicName] v) w := by
  refine returns_tryCatch_topicsAt (fun t _ => returns_publishTopic_stores hm _ w) fun ht => ?_
  refine ⟨fun b f => ?_, rfl⟩
  split_ifs with hp
  · obtain ⟨rfl, rfl⟩ := TopicPtr.entry.inj (List.mem_singleton.1 hp.2)
    rw [ht]
    rfl
  · rfl

/-- Forwarding a message stores it in the topics it comes to. -/
theorem returns_forwardPublish_stores (hm : m.Sendable)
    (hsize : w.trashTopic.topicFilter.length + m.topicName.length + 4 ≤ 0x0fffffff)
    (it : Iteration) : Returns (forwardPublish it m) (fun _ w' => ∀ b f,
      w'.topicAt (.entry b f) = if m.retain = true ∧ m.Reaches b f then
        (w.topicAt (.entry b f)).map fun t => t.retain m else w.topicAt (.entry b f)) w := by
  have hnote : w.Stores m [] (w.noteRetain m.retain m.topicName m.payload) := by
    rw [World.noteRetain]
    split_ifs <;> exact stores_nil rfl rfl
  refine returns_modify_bind (returns_bind (returns_publishExact_stores hm _) fun sent v hv =>
    returns_get_bind (returns_bind (returns_publishWild_stores hm sent _ v) fun sent' u hu => ?_))
  have hv := hnote.trans hv
  have hwu := hv.trans hu
  have hdone : ∀ t, u.Stores m [] t → ∀ b f,
      t.topicAt (.entry b f) = if m.retain = true ∧ m.Reaches b f then
        (w.topicAt (.entry b f)).map fun t => t.retain m else w.topicAt (.entry b f) := by
    intro t ht b f
    rw [(hwu.trans ht).topicAt]
    cases hw : w.topicAt (.entry b f) with
    | none => simp
    | some t' =>
      refine if_congr (and_congr_right fun _ => ?_) rfl rfl
      rw [MqttPublish.Reaches]
      cases b with
      | false => simp
      | true =>
        -- A topic that is there comes up in the iteration.
        obtain ⟨t'', ht''⟩ := Option.isSome_iff_exists.1
          ((hv.isSome true f).trans (Option.isSome_iff_exists.2 ⟨t', hw⟩))
        obtain ⟨hmem, hf⟩ := Keyed.mem_of_find ht''
        have hmem := (it.perm _).mem_iff.2 hmem
        simp only [List.nil_append, List.append_nil, List.mem_append, List.mem_singleton,
          TopicPtr.entry.injEq, Bool.true_eq_false, false_and, false_or, List.mem_map,
          List.mem_filter, true_and, if_true]
        constructor
        · rintro ⟨t, ⟨-, hmatch⟩, rfl⟩
          exact hmatch
        · intro hmatch
          exact ⟨t'', ⟨hmem, by rwa [hf]⟩, hf⟩
  cases sent' with
  | true => exact returns_pure (hdone u (stores_nil rfl rfl))
  | false =>
    refine (returns_publishTrash_stores ?_).mono fun _ t ht => hdone t ht
    rwa [hwu.trash]

/-! ## Wills -/

/-- What a message says, whatever its packet id is and whether it came before. -/
def MqttPublish.content (m : MqttPublish) : Nat × Bool × Bytes × Bytes :=
  (m.qos, m.retain, m.topicName, m.payload)

/-- What the will of a client says. -/
def MqttClient.willContent (c : MqttClient) : Nat × Bool × Bytes × Bytes :=
  (c.willQos, c.willRetain, c.willTopic, c.willMessage)

/-- A will is stored in the topic of its name. -/
theorem returns_publishWillMessage_stores {c : MqttClient} (hqos : c.willQos < 3)
    (hsize : c.willTopic.length + c.willMessage.length + 4 ≤ 0x0fffffff) (w : World) :
    Returns (publishWillMessage c) (fun _ u => ∃ p : MqttPublish, p.content = c.willContent ∧
      ∀ b f, u.topicAt (.entry b f) =
        if c.willFlag = true ∧ c.willRetain = true ∧ b = false ∧ f = c.willTopic then
          (w.topicAt (.entry b f)).map fun t => t.retain p
        else w.topicAt (.entry b f)) w := by
  have hnote : ∀ b f, (w.noteWill c).topicAt (.entry b f) = w.topicAt (.entry b f) := by
    intro b f
    rw [World.noteWill_eq]
    rfl
  have hcontent : ∀ {id p}, mqttPublish false c.willQos c.willRetain c.willTopic id
      c.willMessage = .ok p → p.content = c.willContent := by
    intro id p hp
    obtain ⟨-, hqos, hretain, htopic, hpayload, -⟩ := mqttPublish_eq_ok hp
    rw [MqttPublish.content, hqos, hretain, htopic, hpayload]
    rfl
  obtain ⟨p₀, hp₀⟩ := mqttPublish_of_sizes hqos hsize false c.willRetain 0
  have hp₀ := hcontent hp₀
  refine returns_publishWillMessage_of hqos hsize (fun hflag => ⟨p₀, hp₀, fun b f => ?_⟩)
    (fun _ hnone => ⟨p₀, hp₀, fun b f => ?_⟩) fun hflag s id p hp => ?_
  · rw [if_neg fun h => Bool.false_ne_true (hflag.symm.trans h.1)]
    rfl
  · rw [hnote]
    split_ifs with hp
    · obtain ⟨-, -, rfl, rfl⟩ := hp
      rw [hnone]
      rfl
    · rfl
  · have hretain := (mqttPublish_eq_ok hp).2.2.1
    refine (returns_publishTopic_stores (sendable_of_eq_ok hp hqos hsize) _ _).mono
      fun _ u hu => ⟨p, hcontent hp, fun b f => ?_⟩
    rw [hu.topicAt, hretain]
    simp only [List.mem_singleton, TopicPtr.entry.injEq, hflag, true_and]
    exact if_congr Iff.rfl (congrArg _ (hnote b f)) (hnote b f)

end MqttBroker
