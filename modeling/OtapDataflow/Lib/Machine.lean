import Mathlib

/-! # Deterministic machines and their runs

A component is a function `step : σ → ι → σ × ο`: from a state and an input it computes
the next state and an output.  Everything the environment decides (a clock reading, the
outcome of a write, which task moves next) is part of the input, so a run is a list of
inputs and every safety statement is a statement about `exec`.

The rules below package the induction over runs once: an invariant of the state
(`exec_invariant`), an invariant relating the state to the history it has produced
(`exec_history`), and both for the runs whose steps all meet a side condition (`Meets`). -/

namespace OtapDataflow.Machine

variable {σ ι ο : Type*} (step : σ → ι → σ × ο)

/-- Run the machine on a list of inputs.  The history pairs each input with the output it
produced, oldest first. -/
def exec : σ → List ι → σ × List (ι × ο)
  | s, [] => (s, [])
  | s, i :: is => ((exec (step s i).1 is).1, (i, (step s i).2) :: (exec (step s i).1 is).2)

/-- The state after a run. -/
def final (s : σ) (is : List ι) : σ := (exec step s is).1

/-- The history of a run. -/
def history (s : σ) (is : List ι) : List (ι × ο) := (exec step s is).2

/-- Every step of the run from `s` on `is` meets `ok`, which reads the state before the
step and the input. -/
def Meets (ok : σ → ι → Prop) : σ → List ι → Prop
  | _, [] => True
  | s, i :: is => ok s i ∧ Meets ok (step s i).1 is

@[simp] theorem final_nil (s : σ) : final step s [] = s := rfl

@[simp] theorem final_cons (s : σ) (i : ι) (is : List ι) :
    final step s (i :: is) = final step (step s i).1 is := rfl

@[simp] theorem history_nil (s : σ) : history step s [] = [] := rfl

@[simp] theorem history_cons (s : σ) (i : ι) (is : List ι) :
    history step s (i :: is) = (i, (step s i).2) :: history step (step s i).1 is := rfl

@[simp] theorem meets_nil (ok : σ → ι → Prop) (s : σ) : Meets step ok s [] := trivial

@[simp] theorem meets_cons (ok : σ → ι → Prop) (s : σ) (i : ι) (is : List ι) :
    Meets step ok s (i :: is) ↔ ok s i ∧ Meets step ok (step s i).1 is := Iff.rfl

theorem final_append (s : σ) (is js : List ι) :
    final step s (is ++ js) = final step (final step s is) js := by
  induction is generalizing s with
  | nil => rfl
  | cons i is ih => simpa using ih (step s i).1

theorem meets_append (ok : σ → ι → Prop) (s : σ) (is js : List ι) :
    Meets step ok s (is ++ js) ↔ Meets step ok s is ∧ Meets step ok (final step s is) js := by
  induction is generalizing s with
  | nil => simp
  | cons i is ih => simp [ih, and_assoc]

section

variable {step} {ok : σ → ι → Prop}

variable {s : σ}

/-- A state invariant of every step that meets `ok` holds after every run whose steps all
meet it. -/
theorem final_invariant_of_meets (Inv : σ → Prop) (hstep : ∀ s i, Inv s → ok s i → Inv (step s i).1)
    (h : Inv s) {is : List ι} (hok : Meets step ok s is) : Inv (final step s is) := by
  induction is generalizing s with
  | nil => exact h
  | cons i is ih => exact ih (hstep s i h hok.1) hok.2

/-- An invariant that relates the state to the history so far, for runs whose steps all
meet `ok`. -/
theorem history_invariant_of_meets (Inv : σ → List (ι × ο) → Prop)
    (hstep : ∀ s i past, Inv s past → ok s i →
      Inv (step s i).1 (past ++ [(i, (step s i).2)])) {past : List (ι × ο)} (h : Inv s past)
    {is : List ι} (hok : Meets step ok s is) :
    Inv (final step s is) (past ++ history step s is) := by
  induction is generalizing s past with
  | nil => simpa using h
  | cons i is ih => simpa using ih (hstep s i past h hok.1) hok.2

theorem meets_true (s : σ) (is : List ι) : Meets step (fun _ _ => True) s is := by
  induction is generalizing s with
  | nil => trivial
  | cons i is ih => exact ⟨trivial, ih _⟩

theorem history_invariant (Inv : σ → List (ι × ο) → Prop)
    (hstep : ∀ s i past, Inv s past → Inv (step s i).1 (past ++ [(i, (step s i).2)])) (h : Inv s [])
    (is : List ι) : Inv (final step s is) (history step s is) := by
  have hrun := history_invariant_of_meets Inv
    (fun s i past hs _ => hstep s i past hs) h (meets_true s is)
  rwa [List.nil_append] at hrun

end

end OtapDataflow.Machine

/-! # Labelled transition relations and forward simulation

An abstract component is a relation `Step : α → ℓ → α → Prop`.  `Trace` is its
reflexive-transitive closure with the labels kept.  `Machine.exec_simulates` carries every
run of a deterministic machine to a trace of the abstract relation, label by label. -/

namespace OtapDataflow.Transition

variable {α ℓ : Type*} (Step : α → ℓ → α → Prop)

/-- `Trace a ls b`: the labels `ls`, in order, lead from `a` to `b`. -/
inductive Trace : α → List ℓ → α → Prop
  | nil (a : α) : Trace a [] a
  | cons {a b c : α} {l : ℓ} {ls : List ℓ} : Step a l b → Trace b ls c → Trace a (l :: ls) c

variable {Step}

theorem Trace.split {a c : α} {ls ms : List ℓ} (h : Trace Step a (ls ++ ms) c) :
    ∃ b, Trace Step a ls b ∧ Trace Step b ms c := by
  induction ls generalizing a with
  | nil => exact ⟨a, .nil a, h⟩
  | cons l ls ih =>
    cases h with
    | cons hstep hrest =>
      obtain ⟨b, h₁, h₂⟩ := ih hrest
      exact ⟨b, .cons hstep h₁, h₂⟩

variable {a b : α} {ls : List ℓ}

/-- An invariant relating the state to the labels seen so far holds at the end of every
trace. -/
theorem Trace.invariant_from {past : List ℓ} (ht : Trace Step a ls b) (Inv : α → List ℓ → Prop)
    (hstep : ∀ a l b past, Inv a past → Step a l b → Inv b (past ++ [l])) (h : Inv a past) :
    Inv b (past ++ ls) := by
  induction ht generalizing past with
  | nil a => simpa using h
  | cons hs _ ih => simpa using ih (hstep _ _ _ _ h hs)

theorem Trace.invariant (ht : Trace Step a ls b) (Inv : α → List ℓ → Prop)
    (hstep : ∀ a l b past, Inv a past → Step a l b → Inv b (past ++ [l])) (h : Inv a []) :
    Inv b ls := by
  have hrun := ht.invariant_from Inv hstep h
  rwa [List.nil_append] at hrun

/-- What every step from a state of the invariant shows in its label holds of all labels
of a trace. -/
theorem Trace.forall_labels (ht : Trace Step a ls b) (Inv : α → Prop) {P : ℓ → Prop}
    (hstep : ∀ a l b, Inv a → Step a l b → Inv b ∧ P l) (h : Inv a) : ∀ l ∈ ls, P l := by
  induction ht with
  | nil a => simp
  | cons hs _ ih =>
    have hb := hstep _ _ _ h hs
    rintro l (_ | ⟨_, hl⟩)
    · exact hb.2
    · exact ih hb.1 l hl

end OtapDataflow.Transition

namespace OtapDataflow.Machine

variable {σ ι ο α ℓ : Type*} {step : σ → ι → σ × ο} {Step : α → ℓ → α → Prop}

/-- **Forward simulation.**  If every step of the machine from related states is matched
by an abstract step with the label `obs` reads off it, every run is matched by a trace. -/
theorem exec_simulates {R : σ → α → Prop} {obs : ι × ο → ℓ}
    (hsim : ∀ s a i, R s a → ∃ b, Step a (obs (i, (step s i).2)) b ∧ R (step s i).1 b)
    {s : σ} {a : α} (h : R s a) (is : List ι) :
    ∃ b, Transition.Trace Step a ((history step s is).map obs) b ∧ R (final step s is) b := by
  induction is generalizing s a with
  | nil => exact ⟨a, .nil a, h⟩
  | cons i is ih =>
    obtain ⟨b, hb, hrel⟩ := hsim s a i h
    obtain ⟨c, hc, hfin⟩ := ih hrel
    exact ⟨c, .cons hb hc, hfin⟩

end OtapDataflow.Machine
