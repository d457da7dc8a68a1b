import Mathlib

/-! # Frames laid end to end

A log is a sequence of frames of varying size, each placed where the one before it ends.
The positions are those of an unbounded log; a log kept in several files is a chain of
such sequences (`Chained`). -/

namespace OtapDataflow.Frames

open List

variable {α : Type*} (size : α → Nat)

/-- Bytes taken by a list of frames. -/
def total (xs : List α) : Nat := (xs.map size).sum

/-- Each frame with the position at which it starts. -/
def place : Nat → List α → List (Nat × α)
  | _, [] => []
  | start, x :: xs => (start, x) :: place (start + size x) xs

@[simp] theorem total_nil : total size ([] : List α) = 0 := rfl

@[simp] theorem total_cons (x : α) (xs : List α) :
    total size (x :: xs) = size x + total size xs := by
  simp [total]

@[simp] theorem total_append (xs ys : List α) :
    total size (xs ++ ys) = total size xs + total size ys := by
  simp [total]

@[simp] theorem place_nil (start : Nat) : place size start ([] : List α) = [] := rfl

@[simp] theorem place_cons (start : Nat) (x : α) (xs : List α) :
    place size start (x :: xs) = (start, x) :: place size (start + size x) xs := rfl

theorem place_append (start : Nat) (xs ys : List α) :
    place size start (xs ++ ys) =
      place size start xs ++ place size (start + total size xs) ys := by
  induction xs generalizing start with
  | nil => simp
  | cons x xs ih => simp [ih, add_assoc]

@[simp] theorem map_snd_place (start : Nat) (xs : List α) :
    (place size start xs).map Prod.snd = xs := by
  induction xs generalizing start with
  | nil => rfl
  | cons x xs ih => simp [ih]

variable {start : Nat} {xs : List α}

/-- A placed frame lies inside the log. -/
theorem place_bounds {p : Nat} {x : α} (h : (p, x) ∈ place size start xs) :
    start ≤ p ∧ p + size x ≤ start + total size xs := by
  induction xs generalizing start with
  | nil => cases h
  | cons y ys ih =>
    rw [total_cons]
    rcases mem_cons.mp h with heq | htail
    · cases heq
      omega
    · have hb := ih htail
      omega

/-- Every placed frame cuts the log into the frames before it and those from it on. -/
theorem place_split {p : Nat} {x : α} (h : (p, x) ∈ place size start xs) :
    ∃ pre post, xs = pre ++ x :: post ∧ p = start + total size pre := by
  induction xs generalizing start with
  | nil => cases h
  | cons y ys ih =>
    rcases mem_cons.mp h with heq | htail
    · cases heq
      exact ⟨[], ys, rfl, by simp⟩
    · obtain ⟨pre, post, rfl, hp⟩ := ih htail
      refine ⟨y :: pre, post, rfl, ?_⟩
      rw [hp, total_cons]
      omega

/-- When no frame is empty, the frames before a cut are exactly those placed before it. -/
theorem filter_place (hsize : ∀ x, 0 < size x) (start : Nat) (pre post : List α) :
    (place size start (pre ++ post)).filter (fun e => decide (start + total size pre ≤ e.1)) =
      place size (start + total size pre) post := by
  rw [place_append, filter_append]
  have hpre : (place size start pre).filter
      (fun e => decide (start + total size pre ≤ e.1)) = [] := by
    rw [filter_eq_nil_iff]
    rintro ⟨p, x⟩ hmem
    have hb := place_bounds size hmem
    have hx := hsize x
    simp only [decide_eq_true_eq]
    omega
  have hpost : (place size (start + total size pre) post).filter
      (fun e => decide (start + total size pre ≤ e.1)) =
        place size (start + total size pre) post := by
    rw [filter_eq_self]
    rintro ⟨p, x⟩ hmem
    simpa using (place_bounds size hmem).1
  rw [hpre, hpost, nil_append]

/-- There are at most as many frames as bytes. -/
theorem length_le_total (hsize : ∀ x, 0 < size x) (xs : List α) : xs.length ≤ total size xs := by
  induction xs with
  | nil => rfl
  | cons x xs ih =>
    have hx := hsize x
    rw [length_cons, total_cons]
    omega

omit size in
/-- A cut before an element of a concatenation lies in one of the two parts. -/
theorem append_cut {ys pre post : List α} {e : α} (h : xs ++ ys = pre ++ e :: post) :
    (∃ c, pre = xs ++ c ∧ ys = c ++ e :: post) ∨ ∃ c, xs = pre ++ e :: c ∧ post = c ++ ys := by
  rcases append_eq_append_iff.mp h with ⟨c, hpre, hys⟩ | ⟨c, hxs, htail⟩
  · exact .inl ⟨c, hpre, hys⟩
  · cases c with
    | nil => exact .inl ⟨[], by rw [hxs, append_nil, append_nil], htail.symm⟩
    | cons e' c =>
      obtain ⟨rfl, hpost⟩ := List.cons.inj htail
      exact .inr ⟨c, hxs, hpost⟩

/-! ## Several files -/

/-- The frames of one file and where they start in the log. -/
structure Run (α : Type*) where
  start : Nat
  frames : List α

/-- Where the next file starts. -/
def Run.stop (r : Run α) : Nat := r.start + total size r.frames

/-- Each file's frames start where those of the file before it end. -/
def Chained : Nat → List (Run α) → Prop
  | _, [] => True
  | start, r :: rs => r.start = start ∧ Chained (r.stop size) rs

@[simp] theorem chained_nil (start : Nat) : Chained size start ([] : List (Run α)) := trivial

@[simp] theorem chained_cons (start : Nat) (r : Run α) (rs : List (Run α)) :
    Chained size start (r :: rs) ↔ r.start = start ∧ Chained size (r.stop size) rs := Iff.rfl

/-- Where a chain that starts at `start` ends. -/
def endOf (start : Nat) (rs : List (Run α)) : Nat :=
  start + total size (rs.flatMap Run.frames)

@[simp] theorem endOf_nil (start : Nat) : endOf size start ([] : List (Run α)) = start := rfl

variable {r : Run α} {rs : List (Run α)}

theorem endOf_cons (h : r.start = start) :
    endOf size start (r :: rs) = endOf size (r.stop size) rs := by
  simp [endOf, Run.stop, h, add_assoc]

theorem chained_append {ts : List (Run α)} :
    Chained size start (rs ++ ts) ↔
      Chained size start rs ∧ Chained size (endOf size start rs) ts := by
  induction rs generalizing start with
  | nil => simp
  | cons r rs ih =>
    simp only [cons_append, chained_cons, ih, and_assoc]
    constructor
    · rintro ⟨hr, hrs, hts⟩
      exact ⟨hr, hrs, by rwa [endOf_cons size hr]⟩
    · rintro ⟨hr, hrs, hts⟩
      exact ⟨hr, hrs, by rwa [endOf_cons size hr] at hts⟩

/-- The last file starts where the one before it ends. -/
theorem Chained.last_start {t : Run α} (h : Chained size start (rs ++ [t]))
    (hr : rs.getLast? = some r) : t.start = r.stop size := by
  obtain ⟨init, rfl⟩ := getLast?_eq_some_iff.mp hr
  rw [append_assoc] at h
  obtain ⟨-, -, ht, -⟩ := (chained_append size).mp h
  exact ht

theorem Chained.stop_le (h : Chained size start rs) (hr : r ∈ rs) :
    r.stop size ≤ endOf size start rs := by
  induction rs generalizing start with
  | nil => cases hr
  | cons t rs ih =>
    obtain ⟨ht, hrs⟩ := h
    rw [endOf_cons size ht]
    rcases mem_cons.mp hr with rfl | hr
    · exact Nat.le_add_right _ _
    · exact ih hrs hr

/-- The files of a chain start in increasing order. -/
theorem Chained.start_le (h : Chained size start rs) :
    (∀ r ∈ rs, start ≤ r.start) ∧ rs.Pairwise (fun r r' => r.stop size ≤ r'.start) := by
  induction rs generalizing start with
  | nil => simp
  | cons r rs ih =>
    obtain ⟨hr, hrs⟩ := h
    obtain ⟨hle, hpair⟩ := ih hrs
    refine ⟨?_, pairwise_cons.mpr ⟨hle, hpair⟩⟩
    intro r' hr'
    rcases mem_cons.mp hr' with rfl | hr'
    · exact hr.ge
    · have := hle r' hr'
      unfold Run.stop at this
      omega

end OtapDataflow.Frames
