import OtapDataflow.Lib.Word

/-! # Ratio sampling

The sampler keeps `emit` of every `out_of` records.  From a batch it keeps a number of records that
a formula with a quotient and a remainder gives.  Its two counters are the position in the cycle
(`RatioSampler.at`), so what has been kept depends on the number of records alone
(`ratio_sampling_independent`). -/

namespace OtapDataflow.Sampling

open Word List

structure RatioConfig where
  emit : Nat
  outOf : Nat

inductive ConfigError
  | invalidUserConfig (error : String)
  deriving DecidableEq

def RatioConfig.validate (cfg : RatioConfig) : Except ConfigError Unit :=
  if cfg.emit = 0 then .error (.invalidUserConfig "ratio.emit must be greater than 0")
  else if cfg.outOf = 0 then .error (.invalidUserConfig "ratio.out_of must be greater than 0")
  else if cfg.outOf < cfg.emit then
    .error (.invalidUserConfig "ratio.emit must be less than or equal to ratio.out_of")
  else .ok ()

structure RatioSampler where
  emit : Nat
  outOf : Nat
  /-- Records emitted in the current cycle. -/
  emitted : Nat
  /-- Records seen in the current cycle. -/
  seen : Nat
  deriving DecidableEq

/-- Subtraction of machine integers; `none` is an underflow. -/
def checkedSub (a b : Nat) : Option Nat := if b ≤ a then some (a - b) else none

/-- Multiplication of machine integers; `none` is an overflow. -/
def checkedMul (a b : Nat) : Option Nat := if a * b ≤ u64Max then some (a * b) else none

/-- Division of machine integers; `none` is a division by zero. -/
def checkedDiv (a b : Nat) : Option Nat := if b = 0 then none else some (a / b)

namespace RatioSampler

def new (cfg : RatioConfig) : RatioSampler := ⟨cfg.emit, cfg.outOf, 0, 0⟩

/-- How many records of a batch to keep; `none` where the arithmetic panics. -/
def computeToKeep (s : RatioSampler) (batchSize : Nat) : Option (RatioSampler × Nat) :=
  if batchSize = 0 then some (s, 0)
  else do
    let remainingInCycle ← checkedSub s.outOf s.seen
    let fromCurrent := min batchSize remainingInCycle
    let keepFromCurrent := min (s.emit - s.emitted) fromCurrent
    let afterCurrent ← checkedSub batchSize fromCurrent
    let fullCycles ← checkedDiv afterCurrent s.outOf
    let leftover := afterCurrent % s.outOf
    let keepFromCycles ← checkedMul fullCycles s.emit
    let keep ← checkedAdd keepFromCurrent keepFromCycles
    let toKeep ← checkedAdd keep (min s.emit leftover)
    let position ← checkedAdd s.seen batchSize
    let newSeen := position % s.outOf
    some ({ s with seen := newSeen, emitted := min s.emit newSeen }, toKeep)

/-- The selection of a batch with `total` rows. -/
def sampleArrowRecords (s : RatioSampler) (total : Nat) : Option (RatioSampler × List Bool) := do
  let (s, toKeep) ← s.computeToKeep total
  let dropped ← checkedSub total toKeep
  some (s, replicate toKeep true ++ replicate dropped false)

/-- The selections of one batch after the other. -/
def sampleBatches (s : RatioSampler) : List Nat → Option (List (List Bool))
  | [] => some []
  | total :: batches => do
    let (s, selection) ← s.sampleArrowRecords total
    let selections ← s.sampleBatches batches
    some (selection :: selections)

end RatioSampler

/-- The counters of the record-by-record reference. -/
structure Reference where
  emitted : Nat
  seen : Nat
  toKeep : Nat

/-- One round of `reference_compute_to_keep`. -/
def Reference.next (emit outOf : Nat) (r : Reference) : Reference :=
  let r := { r with seen := r.seen + 1 }
  let r :=
    if r.emitted < emit then { r with emitted := r.emitted + 1, toKeep := r.toKeep + 1 } else r
  if r.seen = outOf then { r with seen := 0, emitted := 0 } else r

/-- What the reference keeps of `n` records. -/
def referenceToKeep (emit outOf n : Nat) : Nat :=
  ((Reference.next emit outOf)^[n] ⟨0, 0, 0⟩).toKeep

open RatioSampler

/-! ## The position in the cycle -/

/-- What should be kept of `n` records. -/
def kept (emit outOf n : Nat) : Nat := emit * (n / outOf) + min emit (n % outOf)

/-- The sampler after `n` records. -/
def RatioSampler.at (emit outOf n : Nat) : RatioSampler :=
  ⟨emit, outOf, min emit (n % outOf), n % outOf⟩

theorem RatioConfig.bounds_of_validate {cfg : RatioConfig} (h : cfg.validate = .ok ()) :
    0 < cfg.outOf ∧ cfg.emit ≤ cfg.outOf := by
  unfold validate at h
  split_ifs at h
  omega

variable {emit outOf n b : Nat}

theorem kept_zero : kept emit outOf 0 = 0 := by simp [kept]

theorem kept_le (hle : emit ≤ outOf) (n : Nat) : kept emit outOf n ≤ n := by
  have hn := Nat.div_add_mod n outOf
  have hcycles := Nat.mul_le_mul_right (n / outOf) hle
  unfold kept
  omega

section

variable (hpos : 0 < outOf) (hle : emit ≤ outOf)

include hpos

/-- Records that stay inside the current cycle. -/
theorem kept_within (h : n % outOf + b < outOf) :
    kept emit outOf (n + b) = emit * (n / outOf) + min emit (n % outOf + b) := by
  have hn := Nat.div_add_mod n outOf
  obtain ⟨hdiv, hmod⟩ := (Nat.div_mod_unique (a := n + b) (c := n % outOf + b)
    (d := n / outOf) hpos).mpr ⟨by omega, h⟩
  rw [kept, hdiv, hmod]

/-- Records that complete the current cycle and go on for `after` more. -/
theorem kept_beyond {after : Nat} (h : n % outOf + b = outOf + after) :
    kept emit outOf (n + b) = emit * (n / outOf) + emit + kept emit outOf after := by
  have hn := Nat.div_add_mod n outOf
  have hsplit : n + b = after + outOf * (n / outOf + 1) := by
    rw [Nat.mul_add, mul_one]
    omega
  rw [hsplit, kept, Nat.add_mul_div_left _ _ hpos, Nat.add_mul_mod_self_left, kept]
  ring

include hle

/-- **One batch.**  Nothing leaves the range, and the sampler is where the records are. -/
theorem computeToKeep_at (hrange : n + b ≤ u64Max) :
    ∃ k, (RatioSampler.at emit outOf n).computeToKeep b = some (.at emit outOf (n + b), k) ∧ k ≤ b ∧
      kept emit outOf n + k = kept emit outOf (n + b) := by
  have hmod := Nat.mod_lt n hpos
  have hseen := Nat.mod_le n outOf
  by_cases hb : b = 0
  · subst hb
    exact ⟨0, rfl, le_refl 0, rfl⟩
  obtain ⟨current, hcurrent⟩ : ∃ c, c = min b (outOf - n % outOf) := ⟨_, rfl⟩
  have hrest := kept_le hle (b - current)
  refine ⟨min (emit - min emit (n % outOf)) current + kept emit outOf (b - current), ?_,
    by omega, ?_⟩
  · have hremaining : checkedSub outOf (n % outOf) = some (outOf - n % outOf) := if_pos hmod.le
    have hafter : checkedSub b current = some (b - current) := if_pos (by omega)
    have hdiv : checkedDiv (b - current) outOf = some ((b - current) / outOf) :=
      if_neg (Nat.ne_of_gt hpos)
    rw [kept, mul_comm] at hrest ⊢
    simp only [RatioSampler.at, computeToKeep, if_neg hb, hremaining, ← hcurrent, hafter, hdiv,
      Option.bind_eq_bind, Option.bind_some]
    rw [checkedMul, if_pos (by omega), Option.bind_some, checkedAdd_eq (by omega), Option.bind_some,
      checkedAdd_eq (by omega), Option.bind_some, checkedAdd_eq (by omega), Option.bind_some,
      Nat.mod_add_mod, add_assoc]
  · -- the batch ends in the current cycle, or it completes the cycle
    by_cases hin : n % outOf + b < outOf
    · have hnone : b - current = 0 := by omega
      rw [kept_within hpos hin, hnone, kept_zero, kept]
      omega
    · have hsum : n % outOf + b = outOf + (b - current) := by omega
      rw [kept_beyond hpos hsum, kept.eq_1 emit outOf n]
      omega

theorem sampleBatches_at (batches : List Nat) (hrange : n + batches.sum ≤ u64Max) :
    ∃ selections, (RatioSampler.at emit outOf n).sampleBatches batches = some selections ∧
      Forall₂ (fun total selection => selection.length = total ∧ selection.count true ≤ total)
        batches selections ∧
      kept emit outOf n + (selections.map (count true)).sum = kept emit outOf
        (n + batches.sum) := by
  induction batches generalizing n with
  | nil => exact ⟨[], rfl, .nil, rfl⟩
  | cons total batches ih =>
    rw [sum_cons, ← add_assoc] at hrange ⊢
    obtain ⟨k, hstep, hk, hkept⟩ := computeToKeep_at hpos hle (Nat.le_of_add_right_le hrange)
    obtain ⟨selections, hrun, hshape, hsum⟩ := ih hrange
    refine ⟨(replicate k true ++ replicate (total - k) false) :: selections, ?_,
      .cons ⟨?_, ?_⟩ hshape, ?_⟩
    · simp only [sampleBatches, sampleArrowRecords, hstep, checkedSub, if_pos hk,
        Option.bind_eq_bind, Option.bind_some, hrun]
    · rw [length_append, length_replicate, length_replicate, Nat.add_sub_cancel' hk]
    · simpa [count_replicate] using hk
    · simp only [map_cons, sum_cons, count_append, count_replicate]
      rw [← hsum, ← hkept]
      simp
      omega

/-- The reference is where the records are, too. -/
theorem reference_at (n : Nat) : (Reference.next emit outOf)^[n] ⟨0, 0, 0⟩ =
    ⟨min emit (n % outOf), n % outOf, kept emit outOf n⟩ := by
  induction n with
  | zero => simp [kept]
  | succ n ih =>
    have hmod := Nat.mod_lt n hpos
    rw [Function.iterate_succ_apply', ih]
    by_cases hend : n % outOf + 1 < outOf
    · have hnext : (n + 1) % outOf = n % outOf + 1 := by
        rw [← Nat.mod_add_mod, Nat.mod_eq_of_lt hend]
      rw [kept_within hpos hend, hnext, kept, Reference.next]
      split_ifs <;> simp_all <;> omega
    · have hfull : n % outOf + 1 = outOf + 0 := by omega
      have hnext : (n + 1) % outOf = 0 := by
        rw [← Nat.mod_add_mod, hfull, add_zero, Nat.mod_self]
      rw [kept_beyond hpos hfull, hnext, kept, Reference.next]
      split_ifs <;> simp_all [kept_zero]
      omega

end

/-- **Sampling is independent of batching.** -/
theorem ratio_sampling_independent (cfg : RatioConfig) (hvalid : cfg.validate = .ok ())
    (batches : List Nat) (hrange : batches.sum ≤ u64Max) :
    ∃ selections, (RatioSampler.new cfg).sampleBatches batches = some selections ∧
      Forall₂ (fun total selection => selection.length = total ∧ selection.count true ≤ total)
        batches selections ∧
      (selections.map (count true)).sum =
        cfg.emit * (batches.sum / cfg.outOf) + min cfg.emit (batches.sum % cfg.outOf) ∧
      (selections.map (count true)).sum = referenceToKeep cfg.emit cfg.outOf batches.sum := by
  obtain ⟨hpos, hle⟩ := RatioConfig.bounds_of_validate hvalid
  have hnew : RatioSampler.new cfg = .at cfg.emit cfg.outOf 0 := by simp [new, RatioSampler.at]
  obtain ⟨selections, hrun, hshape, hsum⟩ :=
    sampleBatches_at hpos hle batches (n := 0) (by rwa [zero_add])
  rw [kept_zero, zero_add, zero_add] at hsum
  refine ⟨selections, hnew ▸ hrun, hshape, hsum, ?_⟩
  rw [referenceToKeep, reference_at hpos hle, hsum]

/-- Two records of five are kept of the batches in the documentation's table. -/
theorem ratio_sampling_independent_table : ∃ selections,
    (RatioSampler.new ⟨2, 5⟩).sampleBatches [12, 4, 5, 4] = some selections ∧
      (selections.map (count true)).sum = 10 := by
  obtain ⟨selections, hrun, -, hsum, -⟩ :=
    ratio_sampling_independent ⟨2, 5⟩ rfl [12, 4, 5, 4] (by decide)
  exact ⟨selections, hrun, hsum⟩

end OtapDataflow.Sampling
