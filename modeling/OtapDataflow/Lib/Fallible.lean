import Mathlib.Init

/-! # Computations that fail and keep their state

A computation reads and writes a state and can fail on the way.  What it wrote before the failure
stays written: a caller that wants to undo it has to do so itself.

`Spec I m Q E` is the triple for such computations: started with `I`, `m` ends with `Q` if it
succeeds and with `E` if it fails.  The rules follow the composition of the computation. -/

namespace OtapDataflow

/-- A computation over the state `σ` that can fail with `ε`. -/
def Fallible (ε σ α : Type) : Type := σ → Except ε α × σ

namespace Fallible

variable {ε σ α β : Type}

instance : Monad (Fallible ε σ) where
  pure a := fun s => (.ok a, s)
  bind m f := fun s =>
    match m s with
    | (.ok a, s') => f a s'
    | (.error e, s') => (.error e, s')

/-- A computation that does not look at the state. -/
def lift (x : Except ε α) : Fallible ε σ α := fun s => (x, s)

/-- Go through a list from the left, with an accumulator. -/
def loop (f : β → α → Fallible ε σ β) : β → List α → Fallible ε σ β
  | b, [] => pure b
  | b, a :: as => f b a >>= fun b' => loop f b' as

/-- The loop over `as`, started with `b` in the state `s`, gets to `a`: what comes in front of it
succeeds, with `b'` and `s'`. -/
def Reaches (f : β → α → Fallible ε σ β) (b : β) (as : List α) (s : σ) (b' : β) (a : α) (s' : σ) :
    Prop :=
  ∃ pre post, as = pre ++ a :: post ∧ loop f b pre s = (.ok b', s')

theorem Reaches.of_singleton {f : β → α → Fallible ε σ β} {b b' : β} {a a' : α} {s s' : σ}
    (h : Reaches f b [a] s b' a' s') : b' = b ∧ a' = a ∧ s' = s := by
  obtain ⟨pre, post, has, hloop⟩ := h
  cases pre with
  | nil =>
    cases has
    cases hloop
    exact ⟨rfl, rfl, rfl⟩
  | cons x pre => simp at has

theorem run_bind (m : Fallible ε σ α) (f : α → Fallible ε σ β) (s : σ) :
    (m >>= f) s =
      match m s with
      | (.ok a, s') => f a s'
      | (.error e, s') => (.error e, s') := rfl

/-- Started with `I`, the computation ends with `Q` if it succeeds and with `E` if it fails. -/
def Spec (I : σ → Prop) (m : Fallible ε σ α) (Q : α → σ → Prop) (E : σ → Prop) : Prop :=
  ∀ s, I s → (∀ a s', m s = (.ok a, s') → Q a s') ∧ ∀ e s', m s = (.error e, s') → E s'

namespace Spec

variable {I E : σ → Prop} {Q : α → σ → Prop} {R : β → σ → Prop} {m : Fallible ε σ α}
  {f : α → Fallible ε σ β}

theorem pure {a : α} (h : ∀ s, I s → Q a s) : Spec I (Pure.pure a : Fallible ε σ α) Q E := by
  intro s hs
  refine ⟨fun a' s' heq => ?_, nofun⟩
  cases heq
  exact h s hs

/-- What holds of the state however the computation ends. -/
theorem of_state {J : σ → Prop} (h : ∀ s, I s → J (m s).2) : Spec I m (fun _ => J) J := by
  intro s hs
  have hstate := h s hs
  constructor
  · intro a s' heq
    rwa [heq] at hstate
  · intro e s' heq
    rwa [heq] at hstate

theorem lift {x : Except ε α} (hok : ∀ a, x = .ok a → ∀ s, I s → Q a s)
    (herror : ∀ s, I s → E s) : Spec I (lift x : Fallible ε σ α) Q E := by
  intro s hs
  constructor
  · rintro a s' ⟨⟩
    exact hok a rfl s hs
  · rintro e s' ⟨⟩
    exact herror s hs

theorem bind (hm : Spec I m Q E) (hf : ∀ a, Spec (Q a) (f a) R E) : Spec I (m >>= f) R E := by
  intro s hs
  obtain ⟨hok, herror⟩ := hm s hs
  rw [run_bind]
  split
  · rename_i a s' heq
    exact hf a s' (hok a s' heq)
  · rename_i e s' heq
    refine ⟨nofun, fun e' s'' heq' => ?_⟩
    cases heq'
    exact herror e s' heq

/-- A fact that does not depend on the state moves out of the triple. -/
theorem of_and {φ : Prop} (h : φ → Spec I m Q E) : Spec (fun s => I s ∧ φ) m Q E :=
  fun s hs => h hs.2 s hs.1

theorem mono {I' : σ → Prop} {Q' : α → σ → Prop} {E' : σ → Prop} (h : Spec I m Q E)
    (hI : ∀ s, I' s → I s) (hQ : ∀ a s, Q a s → Q' a s) (hE : ∀ s, E s → E' s) :
    Spec I' m Q' E' := fun s hs =>
  ⟨fun a s' heq => hQ a s' ((h s (hI s hs)).1 a s' heq),
    fun e s' heq => hE s' ((h s (hI s hs)).2 e s' heq)⟩

/-- What a computation that starts in the state `t` has come to. -/
theorem keep {t : σ} (h : Spec (fun s => s = t ∧ I s) m Q E) :
    Spec (fun s => s = t ∧ I s) m (fun a s => m t = (.ok a, s) ∧ Q a s) E := by
  rintro s ⟨rfl, hs⟩
  obtain ⟨hok, herror⟩ := h s ⟨rfl, hs⟩
  exact ⟨fun a s' heq => ⟨heq, hok a s' heq⟩, herror⟩

/-- An invariant of the accumulator and the state, at the elements that the loop gets to. -/
theorem loop_reached {g : β → α → Fallible ε σ β} {as : List α} {J : β → σ → Prop} {b : β} {t : σ}
    (h : ∀ b' a s', Reaches g b as t b' a s' → Spec (fun s => s = s' ∧ J b' s) (g b' a) J E) :
    Spec (fun s => s = t ∧ J b s) (loop g b as) J E := by
  induction as generalizing b t with
  | nil => exact .pure fun _ hs => hs.2
  | cons a as ih =>
    refine .bind (h b a t ⟨[], as, rfl, rfl⟩).keep fun b₁ => ?_
    rintro s ⟨hrun, hs⟩
    refine ih (fun b' a' s' hreach => h b' a' s' ?_) s ⟨rfl, hs⟩
    obtain ⟨pre, post, has, hloop⟩ := hreach
    refine ⟨a :: pre, post, congrArg _ has, ?_⟩
    rw [Fallible.loop, run_bind, hrun]
    exact hloop

/-- An invariant of the accumulator and the state. -/
theorem loop {g : β → α → Fallible ε σ β} {as : List α} {J : β → σ → Prop}
    (h : ∀ b, ∀ a ∈ as, Spec (J b) (g b a) J E) (b : β) : Spec (J b) (loop g b as) J E := by
  induction as generalizing b with
  | nil => exact .pure fun _ hs => hs
  | cons a as ih =>
    exact .bind (h b a List.mem_cons_self) fun b' =>
      ih (fun b a ha => h b a (List.mem_cons_of_mem _ ha)) b'

end Spec

end Fallible

end OtapDataflow
