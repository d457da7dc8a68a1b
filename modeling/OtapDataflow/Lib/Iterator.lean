import Mathlib

/-! # Iterators

An iterator is a function `next : σ → Option (α × σ)`.  `Yields next s xs` says that
iterating from `s` produces exactly the items `xs` and then ends, so it is a statement of
termination as well as of content. -/

namespace OtapDataflow.Iterator

variable {σ α : Type*} {next : σ → Option (α × σ)}

inductive Yields (next : σ → Option (α × σ)) : σ → List α → Prop where
  | done {s : σ} (h : next s = none) : Yields next s []
  | more {s s' : σ} {a : α} {as : List α} (h : next s = some (a, s')) (rest : Yields next s' as) :
      Yields next s (a :: as)

variable {s : σ} {xs : List α}

/-- What an iterator yields is determined by its state. -/
theorem Yields.unique {ys : List α} (hx : Yields next s xs) (hy : Yields next s ys) : xs = ys := by
  induction hx generalizing ys with
  | done h =>
    cases hy with
    | done _ => rfl
    | more h' _ =>
      rw [h] at h'
      cases h'
  | more h _ ih =>
    cases hy with
    | done h' =>
      rw [h] at h'
      cases h'
    | more h' rest =>
      rw [h] at h'
      cases h'
      rw [ih rest]

/-- What is yielded starts with what `next` returns. -/
theorem Yields.of_next {s' : σ} {a : α} (h : Yields next s xs) (hn : next s = some (a, s')) :
    ∃ rest, xs = a :: rest ∧ Yields next s' rest := by
  cases h with
  | done h' =>
    rw [hn] at h'
    cases h'
  | more h' rest =>
    rw [hn] at h'
    cases h'
    exact ⟨_, rfl, rest⟩

/-- States with the same next step yield the same items. -/
theorem Yields.congr {s' : σ} (h : next s = next s') (hy : Yields next s' xs) :
    Yields next s xs := by
  cases hy with
  | done hn => exact .done (h.trans hn)
  | more hn rest => exact .more (h.trans hn) rest

/-- Iterating from `s` returns the items `xs` first, whatever follows them. -/
inductive Starts (next : σ → Option (α × σ)) : σ → List α → Prop where
  | nil (s : σ) : Starts next s []
  | cons {s s' : σ} {a : α} {as : List α} (h : next s = some (a, s')) (rest : Starts next s' as) :
      Starts next s (a :: as)

/-- A relation between states and items that can be followed back along the iteration. -/
structure Backward (next : σ → Option (α × σ)) (P : σ → List α → Prop) : Prop where
  step {s s' : σ} {a : α} {as : List α} : next s = some (a, s') → P s' as → P s (a :: as)
  congr {s s' : σ} {as : List α} : next s = next s' → P s' as → P s as

theorem Yields.backward : Backward next (Yields next) := ⟨.more, .congr⟩

theorem Starts.backward : Backward next (Starts next) where
  step := .cons
  congr := by
    intro s s' as h hs
    cases hs with
    | nil => exact .nil _
    | cons hn rest => exact .cons (h.trans hn) rest

end OtapDataflow.Iterator
