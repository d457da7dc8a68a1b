import OtapDataflow.Lib.Machine
import OtapDataflow.Lib.Word

/-! # The rate bucket of admission

The bucket holds the theoretical arrival time of the next conforming request.  A charge costs its
units at the rate of the policy, rounded up to nanoseconds, and conforms if the time it moves the
bucket to is within the burst window (`RateBucket.outcome`).

**`whole_burst_granted`**: a bucket grants exactly its burst, however it is charged, if and only if
it is drained and the burst costs as much as its units one by one, as it does when the allowance
divides the interval.  Otherwise the charges are rounded up one by one and the window as a whole,
and part of the burst is lost (`burst_cut_by_rounding`). -/

namespace OtapDataflow.Admission

open Word Machine Nat

/-- The token bucket of a policy. -/
structure TokenBucketPolicy where
  allow : Nat
  intervalNanos : Nat
  burst : Option Nat := none

/-- Raw result of charging the bucket. -/
inductive BucketOutcome
  | withinLimit
  | overLimit (retryAfterNanos : Nat)
  | oversized
  deriving DecidableEq

/-- A bucket, without its state. -/
structure RateBucket where
  allow : Nat
  intervalNanos : Nat
  burst : Nat
  burstWindowNanos : Nat

open RateBucket

/-- What units cost at a rate. -/
def nanosForRate (allow intervalNanos units : Nat) : Nat :=
  if units = 0 then 0
  else if allow = 0 ∨ intervalNanos = 0 then u64Max
  else min ((units * intervalNanos) ⌈/⌉ allow) u64Max

def TokenBucketPolicy.burstOrAllow (policy : TokenBucketPolicy) : Nat :=
  max (policy.burst.getD policy.allow) 1

/-- The bucket of a policy.  Its state starts at the clock reading. -/
def RateBucket.withClock (policy : TokenBucketPolicy) : RateBucket :=
  let intervalNanos := min policy.intervalNanos u64Max
  { allow := policy.allow
    intervalNanos
    burst := policy.burstOrAllow
    burstWindowNanos :=
      if policy.burstOrAllow = 0 ∨ policy.allow = 0 ∨ intervalNanos = 0 then 0
      else nanosForRate policy.allow intervalNanos policy.burstOrAllow }

/-- The time to publish, which never moves backwards. -/
def nextTheoreticalArrival (current now cost debtLimit : Nat) : Nat :=
  max (min (saturatingAdd (max current now) cost) debtLimit) current

namespace RateBucket

variable (b : RateBucket)

def nanosForUnits (units : Nat) : Nat := nanosForRate b.allow b.intervalNanos units

/-- What a charge means, given a clock reading and the time that was loaded. -/
def outcome (units now current : Nat) : BucketOutcome :=
  let limit := saturatingAdd now b.burstWindowNanos
  let candidate := saturatingAdd (max current now) (b.nanosForUnits units)
  if b.burst < units then .oversized
  else if limit < candidate then .overLimit (candidate - limit)
  else .withinLimit

/-- A charge at a clock reading, without contention: the exchange succeeds. -/
def applyUnits (chargeOverLimit : Bool) (now current units : Nat) : Nat × BucketOutcome :=
  let debtLimit := saturatingAdd (saturatingAdd now b.burstWindowNanos) b.burstWindowNanos
  if units = 0 then (current, .withinLimit)
  else if b.outcome units now current ≠ .withinLimit ∧ chargeOverLimit = false then
    (current, b.outcome units now current)
  else (nextTheoreticalArrival current now (b.nanosForUnits units) debtLimit,
    b.outcome units now current)

def checkUnits (now current units : Nat) : Nat × BucketOutcome :=
    b.applyUnits false now current units

end RateBucket

/-! ## Decisions -/

section

variable {b : RateBucket} {units now current : Nat}

variable (hroom : now + b.burstWindowNanos < u64Max)

include hroom

/-- A charge is within the limit if it moves the bucket to a time inside the window. -/
theorem outcome_eq_within : b.outcome units now current = .withinLimit ↔
    units ≤ b.burst ∧ max current now + b.nanosForUnits units ≤ now + b.burstWindowNanos := by
  have hlimit : saturatingAdd now b.burstWindowNanos = now + b.burstWindowNanos :=
    min_eq_left hroom.le
  rw [outcome, hlimit, saturatingAdd]
  split_ifs
  · simp
    omega
  · simp
    omega
  · simp
    omega

/-- A check within the limit moves the bucket by its cost. -/
theorem checkUnits_within (hunits : units ≠ 0) (h : b.outcome units now current = .withinLimit) :
    b.checkUnits now current units = (max current now + b.nanosForUnits units, .withinLimit) := by
  have hfits := ((outcome_eq_within hroom).mp h).2
  rw [checkUnits, applyUnits, if_neg hunits, h,
    if_neg fun hrefused => hrefused.1 rfl, nextTheoreticalArrival]
  simp only [saturatingAdd, Prod.mk.injEq, and_true]
  omega

end

/-! ## The price of a unit -/

section

variable {allow interval burst units : Nat}

theorem nanosForRate_eq (hallow : 0 < allow) (hinterval : 0 < interval) :
    nanosForRate allow interval units = min ((units * interval) ⌈/⌉ allow) u64Max := by
  rw [nanosForRate, if_neg (by omega : ¬(allow = 0 ∨ interval = 0))]
  split_ifs with hunits
  · rw [hunits, zero_mul, zero_ceilDiv, Nat.zero_min]
  · rfl

/-- Units cost no more together than one by one. -/
theorem ceilDiv_mul_le (hallow : 0 < allow) :
    (units * interval) ⌈/⌉ allow ≤ units * (interval ⌈/⌉ allow) := by
  rw [ceilDiv_le_iff_le_mul hallow]
  calc units * interval ≤ units * (allow * (interval ⌈/⌉ allow)) :=
        Nat.mul_le_mul_left _ ((ceilDiv_le_iff_le_mul hallow).mp le_rfl)
    _ = allow * (units * (interval ⌈/⌉ allow)) := by ring

/-- If a burst costs as much as its units one by one, so do fewer units. -/
theorem ceilDiv_mul_of_burst (hallow : 0 < allow)
    (hexact : burst * (interval ⌈/⌉ allow) = (burst * interval) ⌈/⌉ allow)
    (hle : units ≤ burst) : (units * interval) ⌈/⌉ allow = units * (interval ⌈/⌉ allow) := by
  refine le_antisymm (ceilDiv_mul_le hallow) ?_
  obtain ⟨rest, rfl⟩ := Nat.exists_eq_add_of_le hle
  have hrest : (rest * interval) ⌈/⌉ allow ≤ rest * (interval ⌈/⌉ allow) := ceilDiv_mul_le hallow
  have hsum : ((units + rest) * interval) ⌈/⌉ allow ≤
      (units * interval) ⌈/⌉ allow + (rest * interval) ⌈/⌉ allow := by
    rw [ceilDiv_le_iff_le_mul hallow, add_mul, mul_add]
    exact Nat.add_le_add ((ceilDiv_le_iff_le_mul hallow).mp le_rfl)
      ((ceilDiv_le_iff_le_mul hallow).mp le_rfl)
  rw [add_mul] at hexact
  omega

end

/-! ## The whole burst -/

section

/-- Charges within the burst are granted one after the other, where `spent` units are gone. -/
theorem checks_granted {b : RateBucket} {now current k spent : Nat} {charges : List Nat}
    (hcost : ∀ units ≤ b.burst, b.nanosForUnits units = units * k)
    (hwindow : b.burstWindowNanos = b.burst * k) (hroom : now + b.burstWindowNanos < u64Max)
    (hspent : max current now = now + spent * k) (hsum : spent + charges.sum ≤ b.burst) :
    (∀ e ∈ history (b.checkUnits now) current charges, e.2 = .withinLimit) ∧
      max (final (b.checkUnits now) current charges) now = now + (spent + charges.sum) * k := by
  induction charges generalizing current spent with
  | nil => exact ⟨List.forall_mem_nil _, hspent⟩
  | cons units charges ih =>
    rw [List.sum_cons, ← add_assoc] at hsum ⊢
    have hfits := mul_le_mul_right k ((le_add_right _ _).trans hsum)
    rw [add_mul] at hfits
    have hpaid : b.nanosForUnits units = units * k := hcost units (by omega)
    have hwithin : b.outcome units now current = .withinLimit :=
      (outcome_eq_within hroom).mpr ⟨by omega, by omega⟩
    have hcheck : (b.checkUnits now current units).2 = .withinLimit ∧
        max (b.checkUnits now current units).1 now = now + (spent + units) * k := by
      rw [add_mul]
      by_cases hzero : units = 0
      · rw [checkUnits, applyUnits, if_pos hzero, hspent, hzero]
        exact ⟨rfl, by omega⟩
      · rw [checkUnits_within hroom hzero hwithin, hspent, hpaid]
        exact ⟨rfl, by omega⟩
    obtain ⟨hrest, hend⟩ := ih hcheck.2 hsum
    exact ⟨List.forall_mem_cons.mpr ⟨hcheck.1, hrest⟩, hend⟩

/-- The answer to a charge that is not empty. -/
theorem checkUnits_answer {b : RateBucket} {now current units : Nat} (hunits : units ≠ 0) :
    (b.checkUnits now current units).2 = b.outcome units now current := by
  rw [checkUnits, applyUnits, if_neg hunits]
  split_ifs <;> rfl

/-- What was granted was paid for out of the window. -/
theorem granted_paid {b : RateBucket} {now current : Nat} {charges : List Nat}
    (hroom : now + b.burstWindowNanos < u64Max)
    (hstart : max current now ≤ now + b.burstWindowNanos) (hunits : ∀ units ∈ charges, units ≠ 0)
    (hgranted : ∀ e ∈ history (b.checkUnits now) current charges, e.2 = .withinLimit) :
    max current now + (charges.map b.nanosForUnits).sum ≤ now + b.burstWindowNanos := by
  induction charges generalizing current with
  | nil => simpa using hstart
  | cons units charges ih =>
    obtain ⟨hfirst, hunits⟩ := List.forall_mem_cons.mp hunits
    obtain ⟨hwithin, hgranted⟩ := List.forall_mem_cons.mp hgranted
    have hwithin : b.outcome units now current = .withinLimit :=
      (checkUnits_answer hfirst).symm.trans hwithin
    have hfits := ((outcome_eq_within hroom).mp hwithin).2
    have hnext := checkUnits_within hroom hfirst hwithin
    rw [hnext] at hgranted
    have hrest := ih (by omega) hunits hgranted
    rw [List.map_cons, List.sum_cons]
    omega

variable {policy : TokenBucketPolicy} {now current : Nat} (hallow : 0 < policy.allow)
  (hinterval : 0 < policy.intervalNanos)

include hallow hinterval

theorem RateBucket.withClock_eq : withClock policy = ⟨policy.allow, min policy.intervalNanos u64Max,
    policy.burstOrAllow,
    nanosForRate policy.allow (min policy.intervalNanos u64Max) policy.burstOrAllow⟩ := by
  have hburst : 1 ≤ policy.burstOrAllow := le_max_right ..
  have hcut : 0 < min policy.intervalNanos u64Max := lt_min hinterval (by decide)
  rw [withClock, if_neg (by omega)]

/-- **A bucket grants its whole burst**, in any charges and no more, exactly if it is drained, the
burst costs as much as its units one by one and the window ends before the largest time. -/
theorem whole_burst_granted :
    (∀ charges : List Nat, charges.sum ≤ policy.burstOrAllow →
      (∀ e ∈ history ((withClock policy).checkUnits now) current charges,
        e.2 = .withinLimit) ∧
      ∀ units, policy.burstOrAllow < charges.sum + units →
        ((withClock policy).checkUnits now
          (final ((withClock policy).checkUnits now) current charges) units).2 ≠
            .withinLimit) ↔
    current ≤ now ∧ policy.burstOrAllow * (min policy.intervalNanos u64Max ⌈/⌉ policy.allow) =
        (policy.burstOrAllow * min policy.intervalNanos u64Max) ⌈/⌉ policy.allow ∧
      now + (policy.burstOrAllow * min policy.intervalNanos u64Max) ⌈/⌉ policy.allow < u64Max := by
  have hb := withClock_eq hallow hinterval
  have hburst : 1 ≤ policy.burstOrAllow := le_max_right ..
  have hcut : 0 < min policy.intervalNanos u64Max := lt_min hinterval (by decide)
  have hcosts : ∀ units, (withClock policy).nanosForUnits units =
      min ((units * min policy.intervalNanos u64Max) ⌈/⌉ policy.allow) u64Max := by
    intro units
    rw [hb]
    exact nanosForRate_eq hallow hcut
  have hwindow : (withClock policy).burstWindowNanos =
      min ((policy.burstOrAllow * min policy.intervalNanos u64Max) ⌈/⌉ policy.allow) u64Max := by
    rw [hb, nanosForRate_eq hallow hcut]
  have hsize : (withClock policy).burst = policy.burstOrAllow := by rw [hb]
  have hunit : 0 < min policy.intervalNanos u64Max ⌈/⌉ policy.allow := by
    by_contra hzero
    have := (ceilDiv_le_iff_le_mul hallow).mp (not_lt.mp hzero)
    omega
  generalize withClock policy = b at *
  generalize min policy.intervalNanos u64Max = interval at *
  rw [← hsize] at hburst hwindow ⊢
  constructor
  · intro hall
    have hroom : now + (b.burst * interval) ⌈/⌉ policy.allow < u64Max := by
      by_contra hfull
      -- at the largest time every charge within the burst is granted, also one more
      have hgrant : ∀ units current, units ≤ b.burst →
          b.outcome units now current = .withinLimit := by
        intro units current hle
        rw [outcome, if_neg (by omega), if_neg]
        rw [hwindow]
        simp only [saturatingAdd]
        omega
      refine (hall [b.burst] (by simp)).2 1 (by simp) ?_
      rw [checkUnits_answer one_ne_zero, hgrant 1 _ hburst]
    have hidle : current ≤ now := by
      have hwhole := (hall [b.burst] (by simp)).1 _ (.head _)
      rw [checkUnits_answer (by omega)] at hwhole
      have hfits := ((outcome_eq_within (by omega)).mp hwhole).2
      have hprice := hcosts b.burst
      omega
    refine ⟨hidle, le_antisymm ?_ (ceilDiv_mul_le hallow), hroom⟩
    have hsum : (List.replicate b.burst 1).sum = b.burst := by simp
    have hpaid := granted_paid (by omega) (by omega)
      (fun units hunits => by rw [List.eq_of_mem_replicate hunits]; exact one_ne_zero)
      (hall _ hsum.le).1
    rw [List.map_replicate, List.sum_replicate, hcosts, one_mul, smul_eq_mul] at hpaid
    have hprice : interval ⌈/⌉ policy.allow ≤ u64Max := by
      by_contra hlarge
      rw [min_eq_right (not_le.mp hlarge).le] at hpaid
      have := Nat.le_mul_of_pos_left u64Max hburst
      omega
    rw [min_eq_left hprice] at hpaid
    omega
  · rintro ⟨hidle, hexact, hroom⟩ charges hsum
    have hcost : ∀ units ≤ b.burst,
        b.nanosForUnits units = units * (interval ⌈/⌉ policy.allow) := by
      intro units hle
      rw [hcosts, ceilDiv_mul_of_burst hallow hexact hle]
      have := Nat.mul_le_mul_right (interval ⌈/⌉ policy.allow) hle
      omega
    have hwindow : b.burstWindowNanos = b.burst * (interval ⌈/⌉ policy.allow) := by omega
    have hdrained : max current now = now + 0 * (interval ⌈/⌉ policy.allow) := by
      rw [zero_mul]
      omega
    obtain ⟨hgranted, hend⟩ :=
      checks_granted hcost hwindow (by omega) hdrained (by rwa [zero_add])
    refine ⟨hgranted, fun units hover hwithin => ?_⟩
    rw [checkUnits_answer (by omega)] at hwithin
    obtain ⟨hle, hfits⟩ := (outcome_eq_within (by omega)).mp hwithin
    have hmore := mul_lt_mul_of_pos_right hover hunit
    rw [add_mul] at hmore
    rw [hend, zero_add, hcost units hle] at hfits
    omega

end

/-- Three units cost ten nanoseconds, but one costs four: the third charge is refused. -/
theorem burst_cut_by_rounding :
    (withClock ⟨3, 10, none⟩).burst = 3 ∧
    (history ((withClock ⟨3, 10, none⟩).checkUnits 100) 0 [1, 1, 1]).map (·.2) =
      [.withinLimit, .withinLimit, .overLimit 2] := by
  decide

/-- Ten units at a rate of ten in a hundred nanoseconds. -/
theorem whole_burst_granted_ten : [3, 7].sum = 10 ∧
    ∀ e ∈ history ((withClock ⟨10, 100, none⟩).checkUnits 7) 0 [3, 7], e.2 = .withinLimit :=
  ⟨rfl, ((@whole_burst_granted ⟨10, 100, none⟩ 7 0 (by decide) (by decide)).mpr
    (by decide) [3, 7] (by decide)).1⟩

end OtapDataflow.Admission
