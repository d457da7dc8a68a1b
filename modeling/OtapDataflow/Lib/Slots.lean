import OtapDataflow.Lib.OrdMap

/-! # Slot tables

A table of bounded size that chooses the keys of its entries itself.  A key is given out once: a
removed key never names an entry again, so that whoever still holds it finds nothing.  Keys are
numbered in the order in which they are given out, and `fresh` says that all of them lie below the
next one. -/

namespace OtapDataflow

structure Slots (α : Type) where
  slots : OrdMap Nat α
  next : Nat
  maxSize : Nat
  fresh : ∀ k v, slots.get? k = some v → k < next

namespace Slots

variable {α : Type}

def new (maxSize : Nat) : Slots α := ⟨.empty, 0, maxSize, by simp⟩

variable (s : Slots α)

def get? (k : Nat) : Option α := s.slots.get? k

/-- The number of live slots. -/
def len : Nat := s.slots.entries.length

theorem lt_next {s : Slots α} {k : Nat} {v : α} (h : s.get? k = some v) : k < s.next :=
    s.fresh k v h

/-- Store the data under the next key. -/
def insert (data : α) : Slots α where
  slots := s.slots.insert s.next data
  next := s.next + 1
  maxSize := s.maxSize
  fresh := by
    intro k v h
    rw [OrdMap.get?_insert] at h
    split at h
    · omega
    · exact (s.fresh k v h).trans (Nat.lt_succ_self _)

/-- A full table gives the data back. -/
def allocateWithData (data : α) : Except α (Nat × Slots α) :=
  if s.maxSize ≤ s.len then .error data else .ok (s.next, s.insert data)

/-- How much free capacity there is. -/
def remainingCapacity : Nat := s.maxSize - s.len

def hasCapacity : Bool := 0 < s.remainingCapacity

/-- Change the data of a slot, if the key is valid. -/
def modify (k : Nat) (f : α → α) : Slots α where
  slots := s.slots.modify k f
  next := s.next
  maxSize := s.maxSize
  fresh := by
    intro k' v h
    rw [OrdMap.get?_modify] at h
    split_ifs at h with hk
    · obtain ⟨v', hv', -⟩ := Option.map_eq_some_iff.mp h
      exact hk ▸ s.fresh k v' hv'
    · exact s.fresh k' v h

def erase (k : Nat) : Slots α where
  slots := s.slots.erase k
  next := s.next
  maxSize := s.maxSize
  fresh := by
    intro k' v h
    rw [OrdMap.get?_erase] at h
    split at h
    · cases h
    · exact s.fresh k' v h

/-- Take the data out of a slot, if the key is valid. -/
def take (k : Nat) : Option α × Slots α := (s.get? k, s.erase k)

/-- Change the data of a slot, if the key is valid.  The slot stays alive if the function says so;
otherwise the data is taken out. -/
def mutate (k : Nat) (f : α → α × Bool) : Option α × Slots α :=
  match s.get? k with
  | none => (none, s)
  | some data =>
    if (f data).2 then (none, s.modify k fun _ => (f data).1) else (some (f data).1, s.erase k)

/-! ## Lookup -/

@[simp] theorem get?_new (maxSize k : Nat) : (new maxSize : Slots α).get? k = none := rfl

@[simp] theorem get?_insert (s : Slots α) (data : α) (k : Nat) :
    (s.insert data).get? k = if k = s.next then some data else s.get? k :=
  OrdMap.get?_insert _ _ _ _

@[simp] theorem get?_modify (s : Slots α) (k k' : Nat) (f : α → α) :
    (s.modify k f).get? k' = if k' = k then (s.get? k).map f else s.get? k' :=
  OrdMap.get?_modify _ _ _ _

@[simp] theorem get?_erase (s : Slots α) (k k' : Nat) :
    (s.erase k).get? k' = if k' = k then none else s.get? k' := OrdMap.get?_erase _ _ _

@[simp] theorem next_insert (s : Slots α) (data : α) : (s.insert data).next = s.next + 1 := rfl

theorem get?_next (s : Slots α) : s.get? s.next = none := by
  by_contra h
  obtain ⟨v, hv⟩ := Option.ne_none_iff_exists'.mp h
  exact (lt_irrefl _ (lt_next hv))

theorem erase_eq_self {s : Slots α} {k : Nat} (h : s.get? k = none) : s.erase k = s := by
  simp [erase, OrdMap.erase_eq_self h]

end Slots

end OtapDataflow
