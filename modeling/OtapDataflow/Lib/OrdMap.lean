import Mathlib

/-! # Ordered maps

A finite map kept as its entries in increasing key order, the order in which a B-tree map
iterates.  The order is part of the type, so two entries never share a key.  Clients reason
with `get?`; `mem_entries` is the bridge to iteration. -/

namespace OtapDataflow

open List

/-- A finite map from a linearly ordered key type. -/
structure OrdMap (κ β : Type) [LinearOrder κ] where
  entries : List (κ × β)
  sorted : entries.Pairwise (fun a b => a.1 < b.1)

namespace OrdMap

variable {κ β γ : Type} [LinearOrder κ]

def empty : OrdMap κ β := ⟨[], .nil⟩

variable (m : OrdMap κ β)

def get? (k : κ) : Option β := (m.entries.find? (fun e => e.1 = k)).map (·.2)

def contains (k : κ) : Bool := (m.get? k).isSome

def keys : List κ := m.entries.map (·.1)

def values : List β := m.entries.map (·.2)

/-- Keep the entries that satisfy `p`. -/
def filter (p : κ → β → Bool) : OrdMap κ β :=
  ⟨m.entries.filter (fun e => p e.1 e.2), m.sorted.sublist filter_sublist⟩

/-- Apply a function to every value. -/
def mapVal (f : κ → β → γ) : OrdMap κ γ :=
  ⟨m.entries.map (fun e => (e.1, f e.1 e.2)), pairwise_map.mpr m.sorted⟩

/-- Bind `k` to `v`, replacing what it was bound to. -/
def insert (k : κ) (v : β) : OrdMap κ β where
  entries := m.entries.filter (fun e => e.1 < k) ++ (k, v) :: m.entries.filter (fun e => k < e.1)
  sorted := by
    refine pairwise_append.mpr ⟨m.sorted.sublist filter_sublist,
      pairwise_cons.mpr ⟨?_, m.sorted.sublist filter_sublist⟩, ?_⟩
    · intro e he
      simpa using (mem_filter.mp he).2
    · intro e he e' he'
      have hlt : e.1 < k := by simpa using (mem_filter.mp he).2
      rcases mem_cons.mp he' with rfl | he'
      · exact hlt
      · exact lt_trans hlt (by simpa using (mem_filter.mp he').2)

/-- Bind `k` to `v` unless it is bound already. -/
def insertNew (k : κ) (v : β) : OrdMap κ β :=
  if m.contains k then m else m.insert k v

/-- Change the value of `k`, if it has one. -/
def modify (k : κ) (f : β → β) : OrdMap κ β :=
  m.mapVal (fun k' v => if k' = k then f v else v)

def erase (k : κ) : OrdMap κ β := m.filter (fun k' _ => k' ≠ k)

/-! ## Lookup -/

variable {m : OrdMap κ β} {k : κ} {v : β}

theorem entries_unique {v' : β} (h : (k, v) ∈ m.entries) (h' : (k, v') ∈ m.entries) : v = v' := by
  by_contra hne
  have hkeys : m.entries.Pairwise (fun a b => a.1 ≠ b.1) := m.sorted.imp ne_of_lt
  have : Std.Symm (fun a b : κ × β => a.1 ≠ b.1) := ⟨fun _ _ hab => hab.symm⟩
  exact hkeys.forall h h' (fun he => hne (Prod.mk.inj he).2) rfl

theorem get?_eq_some : m.get? k = some v ↔ (k, v) ∈ m.entries := by
  unfold get?
  constructor
  · intro h
    obtain ⟨e, he, rfl⟩ := Option.map_eq_some_iff.mp h
    have hk : e.1 = k := by simpa using find?_some he
    rw [← hk]
    exact mem_of_find?_eq_some he
  · intro h
    cases hfind : m.entries.find? (fun e => e.1 = k) with
    | none =>
      have hno := find?_eq_none.mp hfind _ h
      simp at hno
    | some e =>
      obtain ⟨k', v'⟩ := e
      have hk : k' = k := by simpa using find?_some hfind
      subst hk
      rw [entries_unique h (mem_of_find?_eq_some hfind)]
      rfl

theorem get?_ext {o : Option β} (h : ∀ v, (k, v) ∈ m.entries ↔ o = some v) : m.get? k = o := by
  ext v
  rw [get?_eq_some, h]

@[simp] theorem get?_empty (k : κ) : (empty : OrdMap κ β).get? k = none := rfl

section

variable (m : OrdMap κ β)

@[simp] theorem get?_insert (k k' : κ) (v : β) :
    (m.insert k v).get? k' = if k' = k then some v else m.get? k' := by
  apply get?_ext
  intro v'
  rw [insert, mem_append, mem_cons, mem_filter, mem_filter]
  split_ifs with hk
  · subst hk
    simp [eq_comm]
  · rw [get?_eq_some]
    have hcmp : (k' < k) ∨ (k < k') := lt_or_gt_of_ne hk
    have hne : (k', v') ≠ (k, v) := fun he => hk (Prod.mk.inj he).1
    constructor
    · rintro (⟨hmem, -⟩ | heq | ⟨hmem, -⟩)
      · exact hmem
      · exact absurd heq hne
      · exact hmem
    · intro hmem
      rcases hcmp with hlt | hgt
      · exact .inl ⟨hmem, decide_eq_true hlt⟩
      · exact .inr (.inr ⟨hmem, decide_eq_true hgt⟩)

@[simp] theorem get?_filter (p : κ → β → Bool) (k : κ) :
    (m.filter p).get? k = (m.get? k).filter (p k) := by
  apply get?_ext
  intro v
  rw [filter, mem_filter, Option.filter_eq_some_iff, get?_eq_some]

@[simp] theorem get?_mapVal (f : κ → β → γ) (k : κ) :
    (m.mapVal f).get? k = (m.get? k).map (f k) := by
  apply get?_ext
  intro v
  rw [mapVal, mem_map, Option.map_eq_some_iff]
  constructor
  · rintro ⟨⟨k', v'⟩, hmem, heq⟩
    cases heq
    exact ⟨v', get?_eq_some.mpr hmem, rfl⟩
  · rintro ⟨v', hget, rfl⟩
    exact ⟨(k, v'), get?_eq_some.mp hget, rfl⟩

@[simp] theorem get?_insertNew (k k' : κ) (v : β) :
    (m.insertNew k v).get? k' = if k' = k then some ((m.get? k).getD v) else m.get? k' := by
  unfold insertNew contains
  by_cases hk : k' = k
  · subst hk
    cases hget : m.get? k' <;> simp [hget]
  · cases m.get? k with
    | none | some => simp [hk]

@[simp] theorem get?_modify (k k' : κ) (f : β → β) :
    (m.modify k f).get? k' = if k' = k then (m.get? k).map f else m.get? k' := by
  rw [modify, get?_mapVal]
  by_cases hk : k' = k
  · subst hk
    simp
  · simp [hk]

@[simp] theorem get?_erase (k k' : κ) :
    (m.erase k).get? k' = if k' = k then none else m.get? k' := by
  rw [erase, get?_filter]
  by_cases hk : k' = k <;> (cases m.get? k' <;> simp [hk])

end

theorem ext_entries {m' : OrdMap κ β} (h : m.entries = m'.entries) : m = m' := by
  cases m
  cases h
  rfl

theorem erase_eq_self (h : m.get? k = none) : m.erase k = m := by
  refine ext_entries (filter_eq_self.mpr ?_)
  rintro ⟨k', v⟩ he
  have hne : k' ≠ k := by
    rintro rfl
    rw [get?_eq_some.mpr he] at h
    cases h
  exact decide_eq_true hne

theorem contains_iff : m.contains k = true ↔ ∃ v, m.get? k = some v :=
  Option.isSome_iff_exists

/-- A key above all others is added at the end. -/
theorem insert_entries (v : β) (h : ∀ e ∈ m.entries, e.1 < k) :
    (m.insert k v).entries = m.entries ++ [(k, v)] := by
  have hlow : m.entries.filter (fun e => e.1 < k) = m.entries :=
    filter_eq_self.mpr fun e he => by simpa using h e he
  have hhigh : m.entries.filter (fun e => k < e.1) = [] :=
    filter_eq_nil_iff.mpr fun e he => by simpa using (h e he).le
  show m.entries.filter _ ++ (k, v) :: m.entries.filter _ = _
  rw [hlow, hhigh]

/-- Erasing the least key removes the first entry. -/
theorem erase_entries {rest : List (κ × β)} (h : m.entries = (k, v) :: rest) :
    (m.erase k).entries = rest := by
  have hsorted := m.sorted
  rw [h] at hsorted
  have hgt := (pairwise_cons.mp hsorted).1
  show m.entries.filter (fun e => decide (e.1 ≠ k)) = rest
  rw [h, filter_cons_of_neg (by simp), filter_eq_self]
  intro e he
  simpa using (hgt e he).ne'

theorem mem_keys : k ∈ m.keys ↔ ∃ v, m.get? k = some v := by
  simp [keys, get?_eq_some]

theorem mem_values : v ∈ m.values ↔ ∃ k, m.get? k = some v := by
  simp [values, get?_eq_some]

/-! ## Totals -/

end OrdMap

end OtapDataflow
