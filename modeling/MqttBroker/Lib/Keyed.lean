import Mathlib.Data.List.Perm.Basic
import Mathlib.Data.List.Sort

/-!
# Ordered collections with a key

A `Keyed key` is a collection of elements no two of which have the same key,
listed in the order of their keys: a `std::set`, or a `std::map` whose elements
are its pairs, under a comparison of keys. An element is put in by replacing the
one with its key (`Keyed.put`), and taken out by its key (`Keyed.erase`).
-/

/-- In a list with different keys, the element with a key is the only one. -/
theorem List.eraseP_eq_filter_of_nodup_map {α κ : Type} [DecidableEq κ] {key : α → κ} {l : List α}
    (h : (l.map key).Nodup) (k : κ) :
    l.eraseP (fun a => key a = k) = l.filter fun a => key a ≠ k := by
  induction l with
  | nil => rfl
  | cons a l ih =>
    rw [List.map_cons, List.nodup_cons] at h
    by_cases hk : key a = k
    · have hl : ∀ b ∈ l, key b ≠ k := by
        intro b hb hbk
        exact h.1 (List.mem_map.2 ⟨b, hb, hbk.trans hk.symm⟩)
      rw [List.eraseP_cons_of_pos (by simp [hk]), List.filter_cons_of_neg (by simp [hk])]
      exact (List.filter_eq_self.2 fun b hb => decide_eq_true (hl b hb)).symm
    · simp [hk, ih h.2]

/-- A collection of elements with different keys. -/
structure Keyed {α κ : Type} (key : α → κ) where
  /-- The elements, in the order of the collection. -/
  elems : List α
  nodup : (elems.map key).Nodup

namespace Keyed

variable {α κ : Type} {key : α → κ}

/-- No element. -/
def empty : Keyed key := ⟨[], List.nodup_nil⟩

instance : Membership α (Keyed key) := ⟨fun s a => a ∈ s.elems⟩

theorem mem_def {s : Keyed key} {a : α} : a ∈ s ↔ a ∈ s.elems := Iff.rfl

@[simp] theorem not_mem_empty (a : α) : a ∉ (empty : Keyed key) := List.not_mem_nil

/-- Two elements with the same key are the same. -/
theorem eq_of_key {s : Keyed key} {a b : α} (ha : a ∈ s) (hb : b ∈ s) (h : key a = key b) :
    a = b :=
  List.inj_on_of_nodup_map s.nodup ha hb h

variable [DecidableEq κ]

/-- The element with the key `k`. -/
def find (s : Keyed key) (k : κ) : Option α := s.elems.find? fun a => key a = k

theorem find_eq_none {s : Keyed key} {k : κ} : s.find k = none ↔ ∀ a ∈ s, key a ≠ k := by
  simp [find, mem_def]

theorem mem_of_find {s : Keyed key} {k : κ} {a : α} (h : s.find k = some a) :
    a ∈ s ∧ key a = k := by
  rw [find] at h
  exact ⟨List.mem_of_find?_eq_some h, by simpa using List.find?_some h⟩

theorem find_eq_some {s : Keyed key} {k : κ} {a : α} :
    s.find k = some a ↔ a ∈ s ∧ key a = k := by
  refine ⟨mem_of_find, fun ⟨ha, hk⟩ => ?_⟩
  cases hf : s.find k with
  | none => exact absurd hk (find_eq_none.1 hf a ha)
  | some b =>
    obtain ⟨hb, hk'⟩ := mem_of_find hf
    rw [eq_of_key hb ha (hk'.trans hk.symm)]

@[simp] theorem find_empty (k : κ) : (empty : Keyed key).find k = none := rfl

/-- Take out the element with the key `k`. -/
def erase (s : Keyed key) (k : κ) : Keyed key where
  elems := s.elems.filter fun a => key a ≠ k
  nodup := s.nodup.sublist (List.filter_sublist.map key)

@[simp] theorem mem_erase {s : Keyed key} {k : κ} {a : α} : a ∈ s.erase k ↔ a ∈ s ∧ key a ≠ k := by
  simp [mem_def, erase]

theorem find_erase (s : Keyed key) (k k' : κ) :
    (s.erase k).find k' = if k' = k then none else s.find k' := by
  apply Option.ext
  intro a
  rw [find_eq_some, mem_erase]
  split_ifs with h
  · subst h
    simp +contextual
  · rw [find_eq_some]
    constructor
    · rintro ⟨⟨ha, _⟩, hk⟩
      exact ⟨ha, hk⟩
    · rintro ⟨ha, hk⟩
      exact ⟨⟨ha, fun e => h (hk.symm.trans e)⟩, hk⟩

theorem erase_erase (s : Keyed key) (k : κ) : (s.erase k).erase k = s.erase k := by
  simp [erase, List.filter_filter]

/-- The number of elements is zero. -/
def isEmpty (s : Keyed key) : Bool := s.elems.isEmpty

theorem isEmpty_iff {s : Keyed key} : s.isEmpty = true ↔ ∀ k, s.find k = none := by
  rw [isEmpty, List.isEmpty_iff]
  constructor
  · intro h k
    rw [find, h, List.find?_nil]
  · intro h
    refine List.eq_nil_iff_forall_not_mem.2 fun a ha => ?_
    exact find_eq_none.1 (h (key a)) a ha rfl

variable [LE κ] [DecidableLE κ]

/-- Put in an element, replacing the one with its key. -/
def put (s : Keyed key) (a : α) : Keyed key where
  elems := (s.erase (key a)).elems.orderedInsert (fun b c => key b ≤ key c) a
  nodup := by
    refine ((List.perm_orderedInsert _ a _).map key).nodup_iff.2 ?_
    rw [List.map_cons, List.nodup_cons]
    refine ⟨fun h => ?_, (s.erase (key a)).nodup⟩
    obtain ⟨b, hb, hk⟩ := List.mem_map.1 h
    exact (mem_erase.1 hb).2 hk

@[simp] theorem mem_put {s : Keyed key} {a b : α} : b ∈ s.put a ↔ b = a ∨ b ∈ s ∧ key b ≠ key a := by
  rw [mem_def, put, List.mem_orderedInsert]
  exact or_congr_right mem_erase

theorem find_put (s : Keyed key) (a : α) (k : κ) :
    (s.put a).find k = if k = key a then some a else s.find k := by
  apply Option.ext
  intro b
  rw [find_eq_some, mem_put]
  split_ifs with h
  · subst h
    constructor
    · rintro ⟨rfl | ⟨_, hne⟩, hk⟩
      · rfl
      · exact absurd hk hne
    · rintro ⟨⟩
      exact ⟨.inl rfl, rfl⟩
  · rw [find_eq_some]
    constructor
    · rintro ⟨rfl | ⟨hb, _⟩, hk⟩
      · exact absurd hk.symm h
      · exact ⟨hb, hk⟩
    · rintro ⟨hb, hk⟩
      exact ⟨.inr ⟨hb, fun e => h (hk.symm.trans e)⟩, hk⟩

end Keyed
