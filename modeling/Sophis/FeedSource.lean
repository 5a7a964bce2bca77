import Sophis.ListSelection
import Sophis.MachineWord

namespace Sophis.FeedSource

open List ListSelection MachineWord

/-!
# The flip between the two price feeds

`oracle/pqc-core/src/source.rs`, where an abort is `none`.
-/

/-- A price with its exponent and time. -/
structure PriceSample where
  publishTs : UInt64
  priceE8 : Int64

/-- The thresholds of a change of source. -/
structure FlipPolicy where
  minPublishers : UInt8
  minConsistencyWindowSecs : UInt64
  maxSpreadBp : UInt32
  staleAfterSecs : UInt64

/-- The samples on which a change is decided. -/
structure FlipInputs where
  (phase5History phase9AggregatedHistory : List PriceSample)
  phase9PublisherCount : UInt8
  now : UInt64

/-- Why the source is kept. -/
inductive StayReason where
  | belowQuorum | consistencyWindowNotReached | spreadOutOfBounds | operatorHold
  deriving DecidableEq

/-- Whether the source changes. -/
inductive FlipDecision where
  | stay (reason : StayReason)
  | flip
  | staleSource (phase5LastSeenSecsAgo : UInt64)
  deriving DecidableEq

def FlipPolicy.windowStart (policy : FlipPolicy) (now : UInt64) : UInt64 :=
  saturatingSub now policy.minConsistencyWindowSecs

/-- The history reaches from the start of the window into it. -/
def phase9WindowSatisfied (phase9History : List PriceSample) (policy : FlipPolicy)
    (now : UInt64) : Bool :=
  match phase9History.head?, phase9History.getLast? with
  | some oldest, some latest => latest.publishTs ≤ now ∧
      oldest.publishTs ≤ policy.windowStart now ∧ policy.windowStart now ≤ latest.publishTs
  | _, _ => false

def absDiff (first second : UInt64) : Nat := (first.toNat - second.toNat : Int).natAbs

/-- Multiplication that stops at the largest `u128`. -/
def saturatingMul (first second : Nat) : Nat := min (first * second) (2 ^ 128 - 1)

/-- The difference to a positive reference can exceed an `i64`. -/
def withinSpreadBp (reference candidate : Int64) (maxBp : UInt32) : Option Bool :=
  if reference ≤ 0 then
    some (reference == candidate)
  else if reference.toInt - candidate.toInt < 2 ^ 63 then
    some (saturatingMul (reference.toInt - candidate.toInt).natAbs 10000 ≤
      saturatingMul reference.toInt.toNat maxBp.toNat)
  else
    none

/-- The first of the samples nearest in time, among those that are not stale. -/
def nearestSample (policy : FlipPolicy) (phase5History : List PriceSample) (p9 : PriceSample) :
    Option PriceSample :=
  let distance (sample : PriceSample) := absDiff sample.publishTs p9.publishTs
  (firstMin distance (phase5History.filter (distance · ≤ policy.staleAfterSecs.toNat))).map Prod.snd

/-- The body of the loop over the samples of the window. -/
def comparePrice (policy : FlipPolicy) (phase5History : List PriceSample) (p9 : PriceSample) :
    Option Bool :=
  match nearestSample policy phase5History p9 with
  | none => some false
  | some p5 => withinSpreadBp p5.priceE8 p9.priceE8 policy.maxSpreadBp

/-- Compares each aggregated price of the window with the nearest one. -/
def spreadWithinBounds (phase5History phase9History : List PriceSample) (policy : FlipPolicy)
    (now : UInt64) : Option Bool :=
  if phase5History.isEmpty || phase9History.isEmpty then
    some false
  else
    (phase9History.filter (policy.windowStart now ≤ ·.publishTs)).allM
      (comparePrice policy phase5History)

/-- Decides whether to change to the aggregated prices. -/
def evaluateFlip (inputs : FlipInputs) (policy : FlipPolicy) : Option FlipDecision := do
  let secsAgo := inputs.phase5History.getLast?.map (saturatingSub inputs.now ·.publishTs)
  let phase5Stale := secsAgo.all (policy.staleAfterSecs < ·)
  let covered := phase9WindowSatisfied inputs.phase9AggregatedHistory policy inputs.now
  let quorum := policy.minPublishers ≤ inputs.phase9PublisherCount
  if phase5Stale && !(quorum && covered) then
    return .staleSource (secsAgo.getD 0xFFFFFFFFFFFFFFFF)
  if !quorum then
    return .stay .belowQuorum
  if !covered then
    return .stay .consistencyWindowNotReached
  if ← spreadWithinBounds inputs.phase5History inputs.phase9AggregatedHistory policy inputs.now then
    return .flip
  return .stay .spreadOutOfBounds

def WithinSpread (reference candidate : Int64) (maxBp : UInt32) : Prop :=
  if reference ≤ 0 then
    reference = candidate
  else
    |reference.toInt - candidate.toInt| * 10000 ≤ reference.toInt * maxBp.toNat

/-- The sample agrees with the one nearest to it in time. -/
def Confirmed (policy : FlipPolicy) (phase5History : List PriceSample) (p9 : PriceSample) : Prop :=
  ∃ p5 ∈ phase5History, WithinSpread p5.priceE8 p9.priceE8 policy.maxSpreadBp ∧
    ∀ other ∈ phase5History,
      absDiff p5.publishTs p9.publishTs ≤ absDiff other.publishTs p9.publishTs

/-- What a flip is meant to guarantee. -/
structure FlipCriteria (inputs : FlipInputs) (policy : FlipPolicy) : Prop where
  quorum : policy.minPublishers ≤ inputs.phase9PublisherCount
  started : ∃ oldest ∈ inputs.phase9AggregatedHistory,
    oldest.publishTs ≤ policy.windowStart inputs.now
  current : ∃ latest ∈ inputs.phase9AggregatedHistory,
    policy.windowStart inputs.now ≤ latest.publishTs ∧ latest.publishTs ≤ inputs.now
  confirmed : ∀ p9 ∈ inputs.phase9AggregatedHistory,
    policy.windowStart inputs.now ≤ p9.publishTs → Confirmed policy inputs.phase5History p9

/-- The difference of a sample to a positive price nearest to it is an `i64`. -/
def PriceFits (policy : FlipPolicy) (phase5History : List PriceSample) (p9 : PriceSample) : Prop :=
  ∀ p5 ∈ nearestSample policy phase5History p9,
    0 < p5.priceE8 → p5.priceE8.toInt - p9.priceE8.toInt < 2 ^ 63

/-- A sample is within the spread of the one nearest to it. -/
def PriceAgrees (policy : FlipPolicy) (phase5History : List PriceSample) (p9 : PriceSample) :
    Prop :=
  ∃ p5 ∈ nearestSample policy phase5History p9,
    WithinSpread p5.priceE8 p9.priceE8 policy.maxSpreadBp

/-- The samples fit one after the other, as long as those before agree. -/
def PricesFit (policy : FlipPolicy) (phase5History : List PriceSample) : List PriceSample → Prop
  | [] => True
  | p9 :: rest => PriceFits policy phase5History p9 ∧
      (PriceAgrees policy phase5History p9 → PricesFit policy phase5History rest)

/-- When the publishers suffice and the window is covered, prices are compared:
no difference of those leaves the `i64` range. -/
def FlipInputs.ComparedFit (inputs : FlipInputs) (policy : FlipPolicy) : Prop :=
  policy.minPublishers ≤ inputs.phase9PublisherCount →
  phase9WindowSatisfied inputs.phase9AggregatedHistory policy inputs.now = true →
    PricesFit policy inputs.phase5History
      (inputs.phase9AggregatedHistory.filter (policy.windowStart inputs.now ≤ ·.publishTs))

/-- A verdict that is computed, and says whether a criterion holds. -/
def Verdict (verdict : Option Bool) (criterion : Prop) : Prop :=
  ∃ holds, verdict = some holds ∧ (holds = true ↔ criterion)

theorem withinSpreadBp_verdict {reference candidate : Int64} (maxBp : UInt32)
    (fits : 0 < reference → reference.toInt - candidate.toInt < 2 ^ 63) :
    Verdict (withinSpreadBp reference candidate maxBp)
      (WithinSpread reference candidate maxBp) := by
  by_cases nonpos : reference ≤ 0
  · refine ⟨_, if_pos nonpos, ?_⟩
    rw [WithinSpread, if_pos nonpos, beq_iff_eq]
  refine ⟨_, (if_neg nonpos).trans (if_pos (fits (Int64.not_le.mp nonpos))), ?_⟩
  have pos : 0 < reference.toInt := Int64.lt_iff_toInt_lt.mp (Int64.not_le.mp nonpos)
  have upper := reference.toInt_lt
  have diff : (reference.toInt - candidate.toInt).natAbs * 10000 ≤ 2 ^ 128 - 1 := by
    have := candidate.toInt_lt
    have := candidate.le_toInt
    omega
  have bound : reference.toInt.toNat * maxBp.toNat ≤ 2 ^ 63 * 2 ^ 32 :=
    Nat.mul_le_mul (by omega) maxBp.toNat_lt.le
  rw [decide_eq_true_eq, saturatingMul, saturatingMul, min_eq_left diff, min_eq_left (by omega),
    WithinSpread, if_neg nonpos, Int.abs_eq_natAbs]
  rw [← Int.ofNat_le, Int.natCast_mul, Int.natCast_mul, Int.toNat_of_nonneg pos.le]
  rfl

variable {policy : FlipPolicy} {phase5History : List PriceSample} {p9 : PriceSample}

theorem comparePrice_verdict (fits : PriceFits policy phase5History p9) :
    Verdict (comparePrice policy phase5History p9) (PriceAgrees policy phase5History p9) := by
  unfold comparePrice PriceAgrees
  cases nearest : nearestSample policy phase5History p9 with
  | none => exact ⟨false, rfl, by simp⟩
  | some p5 => simpa using withinSpreadBp_verdict policy.maxSpreadBp (fits p5 nearest)

/-- A difference that does not fit aborts the loop. -/
theorem comparePrice_aborts (large : ¬ PriceFits policy phase5History p9) :
    comparePrice policy phase5History p9 = none := by
  simp only [PriceFits, not_forall] at large
  obtain ⟨p5, nearest, pos, large⟩ := large
  rw [comparePrice, nearest]
  exact (if_neg (Int64.not_le.mpr pos)).trans (if_neg large)

theorem PriceAgrees.confirmed (agrees : PriceAgrees policy phase5History p9) :
    Confirmed policy phase5History p9 := by
  obtain ⟨p5, nearest, within⟩ := agrees
  obtain ⟨⟨position, _⟩, selected, rfl⟩ := Option.map_eq_some_iff.mp nearest
  obtain ⟨here, least⟩ := firstMin_spec selected
  obtain ⟨mem, close⟩ := mem_filter.mp (mem_of_getElem? here)
  refine ⟨_, mem, within, fun other isOther => ?_⟩
  -- A sample outside the staleness limit is farther than the one inside it.
  by_cases inRange : absDiff other.publishTs p9.publishTs ≤ policy.staleAfterSecs.toNat
  · exact least other (mem_filter.mpr ⟨isOther, decide_eq_true inRange⟩)
  · exact (of_decide_eq_true close).trans (Nat.le_of_not_le inRange)

/-- The loop stops at the first sample that does not agree, and it returns
exactly when the samples up to there fit. -/
theorem allM_comparePrice (samples : List PriceSample) :
    (PricesFit policy phase5History samples →
      Verdict (samples.allM (comparePrice policy phase5History))
        (∀ p9 ∈ samples, PriceAgrees policy phase5History p9)) ∧
    (¬ PricesFit policy phase5History samples →
      samples.allM (comparePrice policy phase5History) = none) := by
  induction samples with
  | nil => exact ⟨fun _ => ⟨true, rfl, by simp⟩, fun unfit => (unfit trivial).elim⟩
  | cons p9 rest ih =>
    by_cases fits : PriceFits policy phase5History p9
    · obtain ⟨holds, compared, agrees⟩ := comparePrice_verdict fits
      rw [allM, compared, PricesFit, forall_mem_cons, ← agrees]
      cases holds with
      | false => exact ⟨fun _ => ⟨false, rfl, by simp⟩, fun unfit => (unfit ⟨fits, nofun⟩).elim⟩
      | true => simpa [fits] using ih
    · rw [allM, comparePrice_aborts fits]
      exact ⟨fun unfit => (fits unfit.1).elim, fun _ => rfl⟩

theorem spreadWithinBounds_eq {phase9History : List PriceSample} {now : UInt64}
    (covered : phase9WindowSatisfied phase9History policy now = true) :
    spreadWithinBounds phase5History phase9History policy now =
      (phase9History.filter (policy.windowStart now ≤ ·.publishTs)).allM
        (comparePrice policy phase5History) := by
  have nonempty : phase9History.isEmpty = false := by
    cases phase9History with
    | nil => cases covered
    | cons => rfl
  rw [spreadWithinBounds, nonempty, Bool.or_false]
  cases phase5History with
  | cons => rfl
  | nil =>
    -- the window holds the last sample, and this finds no price to compare with
    simp only [phase9WindowSatisfied] at covered
    split at covered
    · rename_i latest _ isLatest
      obtain ⟨-, -, inWindow⟩ := of_decide_eq_true covered
      cases window : phase9History.filter (policy.windowStart now ≤ ·.publishTs) with
      | nil =>
        exact absurd (decide_eq_true inWindow)
          (filter_eq_nil_iff.mp window latest (mem_of_getLast? isLatest))
      | cons => rfl
    · cases covered

/-- The decision is reached, and a flip meets its criteria, exactly when the
prices that are compared fit. -/
theorem evaluateFlip_criteria (inputs : FlipInputs) (policy : FlipPolicy) :
    (∃ decision, evaluateFlip inputs policy = some decision ∧
      (decision = .flip → FlipCriteria inputs policy)) ↔ inputs.ComparedFit policy := by
  unfold FlipInputs.ComparedFit
  by_cases quorum : policy.minPublishers ≤ inputs.phase9PublisherCount
  case neg =>
    refine iff_of_true ?_ fun yes => (quorum yes).elim
    simp only [evaluateFlip, quorum]
    split <;> exact ⟨_, rfl, nofun⟩
  cases covered : phase9WindowSatisfied inputs.phase9AggregatedHistory policy inputs.now with
  | false =>
    refine iff_of_true ?_ nofun
    simp only [evaluateFlip, covered, quorum]
    split <;> exact ⟨_, rfl, nofun⟩
  | true =>
    have ran : evaluateFlip inputs policy = (spreadWithinBounds inputs.phase5History
        inputs.phase9AggregatedHistory policy inputs.now).map
          fun within => if within then .flip else .stay .spreadOutOfBounds := by
      simp only [evaluateFlip, covered, quorum]
      cases spreadWithinBounds inputs.phase5History inputs.phase9AggregatedHistory policy
        inputs.now with
      | none => simp
      | some within => cases within <;> simp
    rw [ran, spreadWithinBounds_eq covered]
    obtain ⟨returns, aborts⟩ := @allM_comparePrice policy inputs.phase5History
      (inputs.phase9AggregatedHistory.filter (policy.windowStart inputs.now ≤ ·.publishTs))
    constructor
    · rintro ⟨decision, evaluated, -⟩ _ _
      by_contra unfit
      rw [aborts unfit] at evaluated
      cases evaluated
    · intro fits
      obtain ⟨within, compared, agree⟩ := returns (fits quorum rfl)
      refine ⟨_, by rw [compared, Option.map_some], fun flips => ?_⟩
      cases within with
      | false => cases flips
      | true =>
        simp only [phase9WindowSatisfied] at covered
        split at covered
        · rename_i oldest latest isOldest isLatest
          obtain ⟨notFuture, old, inWindow⟩ := of_decide_eq_true covered
          refine ⟨quorum, ⟨oldest, mem_of_head? isOldest, old⟩,
            ⟨latest, mem_of_getLast? isLatest, inWindow, notFuture⟩, fun p9 mem inside => ?_⟩
          exact (agree.mp rfl p9 (mem_filter.mpr ⟨mem, decide_eq_true inside⟩)).confirmed
        · cases covered

/-- One publisher, one round and an equal price. -/
theorem flipCriteria_of_decision :
    FlipCriteria ⟨[⟨60, 100⟩], [⟨60, 100⟩], 1, 120⟩ ⟨1, 60, 50, 300⟩ := by
  have fits : FlipInputs.ComparedFit ⟨[⟨60, 100⟩], [⟨60, 100⟩], 1, 120⟩ ⟨1, 60, 50, 300⟩ := by
    refine fun _ _ => ⟨fun p5 nearest _ => ?_, fun _ => trivial⟩
    cases nearest
    decide
  obtain ⟨decision, evaluated, criteria⟩ := (evaluateFlip_criteria _ ⟨1, 60, 50, 300⟩).mpr fits
  have flips : some FlipDecision.flip = some decision := .trans (by decide +kernel) evaluated
  exact criteria (Option.some.inj flips).symm

/-- A positive reference minus a negative candidate. -/
theorem evaluateFlip_overflows :
    evaluateFlip ⟨[⟨60, 0x7FFFFFFFFFFFFFFF⟩], [⟨60, -1⟩], 1, 120⟩ ⟨1, 60, 50, 300⟩ = none := by
  decide +kernel

end Sophis.FeedSource
