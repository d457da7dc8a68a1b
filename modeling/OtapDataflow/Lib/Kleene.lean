import Mathlib

/-! # Three-valued columns

A column of truth values in which some are unknown (`none`), with the logic of Kleene: a conjunction
with a false part is false and a disjunction with a true part is true, whatever the other part is.
Columns are combined row by row and only if they have the same length; selecting rows by a column
takes those that are known to be true. -/

namespace OtapDataflow.Kleene

open List

def and3 : Option Bool → Option Bool → Option Bool
  | some false, _ => some false
  | _, some false => some false
  | some true, some true => some true
  | _, _ => none

def or3 : Option Bool → Option Bool → Option Bool
  | some true, _ => some true
  | _, some true => some true
  | some false, some false => some false
  | _, _ => none

def not3 : Option Bool → Option Bool := Option.map (!·)

/-- Known to be true. -/
def holds (a : Option Bool) : Bool := a = some true

@[simp] theorem holds_some (b : Bool) : holds (some b) = b := by cases b <;> rfl

@[simp] theorem holds_none : holds none = false := rfl

@[simp] theorem holds_and3 (a b : Option Bool) : holds (and3 a b) = (holds a && holds b) := by
  rcases a with _ | _ | _ <;> rcases b with _ | _ | _ <;> rfl

@[simp] theorem holds_or3 (a b : Option Bool) : holds (or3 a b) = (holds a || holds b) := by
  rcases a with _ | _ | _ <;> rcases b with _ | _ | _ <;> rfl

/-- Only of a known value is the negation known to be true. -/
@[simp] theorem holds_not3_some (b : Bool) : holds (not3 (some b)) = !b := by cases b <;> rfl

abbrev Mask := List (Option Bool)

/-- Row by row, for columns of one length. -/
def zip3 (op : Option Bool → Option Bool → Option Bool) (a b : Mask) : Option Mask :=
  if a.length = b.length then some (List.zipWith op a b) else none

def select {α : Type} (rows : List α) (mask : Mask) : List α :=
  ((rows.zip mask).filter fun p => holds p.2).map Prod.fst

theorem select_sublist {α : Type} (rows : List α) (mask : Mask) :
    (select rows mask).Sublist rows := by
  induction rows generalizing mask with
  | nil => exact List.Sublist.slnil
  | cons r rows ih =>
    cases mask with
    | nil => exact nil_sublist _
    | cons x mask =>
      have hrest := ih mask
      unfold select at hrest ⊢
      rw [zip_cons_cons, filter_cons]
      split
      · exact hrest.cons_cons r
      · exact hrest.cons r

theorem mem_of_mem_select {α : Type} {rows : List α} {mask : Mask} {r : α}
    (h : r ∈ select rows mask) : r ∈ rows :=
  (select_sublist rows mask).mem h

/-! ## What a column says about rows -/

variable {op : Option Bool → Option Bool → Option Bool} {op' : Bool → Bool → Bool}

section

variable {α β : Type} {rows : List α} {a b : Mask} {p q : α → Bool}

/-- The column is known to be true on exactly the rows with `p`. -/
def Reads (rows : List α) (a : Mask) (p : α → Bool) : Prop := a.map holds = rows.map p

/-- No value is unknown. -/
def Known (a : Mask) : Prop := none ∉ a

theorem Reads.length (h : Reads rows a p) : a.length = rows.length := by
  have hlength := congrArg List.length h
  rwa [length_map, length_map] at hlength

theorem Reads.congr (h : Reads rows a p) (hpq : ∀ r ∈ rows, p r = q r) : Reads rows a q :=
  h.trans (map_congr_left hpq)

theorem reads_replicate (rows : List α) (value : Option Bool) :
    Reads rows (List.replicate rows.length value) fun _ => holds value := by
  rw [Reads, map_replicate, map_const']

/-- A column given row by row. -/
theorem reads_map (rows : List α) (f : α → Option Bool) : Reads rows (rows.map f) (holds ∘ f) :=
  map_map

theorem map_holds_zipWith (hop : ∀ x y, holds (op x y) = op' (holds x) (holds y)) (a b : Mask) :
    (List.zipWith op a b).map holds = List.zipWith op' (a.map holds) (b.map holds) := by
  rw [map_zipWith, zipWith_map]
  simp [hop]

theorem Reads.zip (hop : ∀ x y, holds (op x y) = op' (holds x) (holds y)) (ha : Reads rows a p)
    (hb : Reads rows b q) : ∃ m, zip3 op a b = some m ∧ Reads rows m fun r => op' (p r) (q r) := by
  refine ⟨List.zipWith op a b, if_pos (ha.length.trans hb.length.symm), ?_⟩
  rw [Reads, map_holds_zipWith hop, ha, hb, zipWith_map, zipWith_self]

/-- The negation of a column without unknown values. -/
theorem Reads.negate (h : Reads rows a p) (hknown : Known a) :
    Reads rows (a.map not3) fun r => !p r := by
  have hnot : (a.map not3).map holds = (a.map holds).map (!·) := by
    rw [map_map, map_map]
    refine map_congr_left fun x hx => ?_
    cases x with
    | none => exact absurd hx hknown
    | some v => simp
  rw [Reads, hnot, h, map_map]
  rfl

/-- Selecting from a column of the same table. -/
theorem Reads.select_map (h : Reads rows a p) (f : α → β) :
    select (rows.map f) a = (rows.filter p).map f := by
  induction rows generalizing a with
  | nil => simp [select]
  | cons r rows ih =>
    cases a with
    | nil => cases h
    | cons x a =>
      obtain ⟨hx, hrest⟩ := List.cons.inj h
      have hselect := ih hrest
      unfold select at hselect ⊢
      rw [map_cons, zip_cons_cons, filter_cons, filter_cons]
      rw [hx]
      cases p r with
      | true =>
        rw [if_pos rfl, if_pos rfl, map_cons, map_cons, hselect]
      | false => exact hselect

theorem Reads.select (h : Reads rows a p) : select rows a = rows.filter p := by
  have hselect := h.select_map id
  rwa [map_id, map_id] at hselect

end

end OtapDataflow.Kleene
