import Mathlib.Data.Nat.Sqrt
import Mathlib.Tactic.Linarith
import Cxsw.CrMotion.StepRecords

/-!
# Cxsw.CrMotion.VelocityProfile — the rates of a line (`CrMotion/Bresenham.cpp`, `CrMotion/SmoothAlgorithm.cpp`)

`CalculateForLine` leaves the squares of the planned entry and exit rates; `Calc` starts from `EntryRate` and clamps at
`ExitRate`, which nothing writes.  So a line starts at `MIN_STEP_RATE`, and decelerates from the nominal rate as far as
its time goes, past zero if the phase lasts.

* `accelRate`, `decelRate`: the rate of a phase as a function of its time.
* `Shaped`: the phases have their shapes; `Faithful`: the rates at the ends of the line are those of the plan as well.
* `InProfile`: the invariant of a line in progress.
* `profile_faithful_iff`: a finished line had the planned profile exactly when each of its passes met its condition.
* `retract_leaps`: a retract of three steps.
-/

namespace Cxsw.Motion

/-! ## The profile -/

section Defs

/-- The planned entry rate: `CalculateForLine` leaves its square. -/
def plannedEntry (l : PlanLine) : ℕ := Nat.sqrt l.planCalc.entryRateSqr

/-- The planned exit rate. -/
def plannedExit (l : PlanLine) : ℕ := Nat.sqrt l.planCalc.exitRateSqr

/-- The states from which a line takes its steps: a pass that finds the line done takes none. -/
def stepStates (cs : List CalcState) : List CalcState := cs.filter fun c => decide (¬ Overrun c)

/-- The rates of a phase, in order. -/
def phaseRates (phase : CrMotionStatus) (cs : List CalcState) : List ℕ :=
  (cs.filter fun c => decide (c.status = phase)).map stepRate

/-- The shapes of the phases, and the first rate. -/
structure Shaped (l : PlanLine) (cs : List CalcState) : Prop where
  accelerate : (phaseRates .accelerate cs).Pairwise (· ≤ ·)
  nominal : ∀ r ∈ phaseRates .accelerate cs, r ≤ l.planCalc.nominalRate
  uniform : (phaseRates .uniform cs).Pairwise (· = ·)
  decelerate : (phaseRates .decelerate cs).Pairwise (· ≥ ·)
  first : ∀ c, cs.head? = some c → stepRate c = plannedEntry l

/-- **The planned profile.** -/
structure Faithful (l : PlanLine) (cs : List CalcState) : Prop extends Shaped l cs where
  bottom : ∀ r ∈ phaseRates .decelerate cs, max (plannedExit l) minStepRate ≤ r
  last : ∀ c, cs.getLast? = some c → stepRate c = plannedExit l

/-- The longest interval, that of the lowest rate. -/
def maxInterval : ℕ := stepperTimerRate / minStepRate

/-- The time of the phase, and the speed that goes with it, stay below `2 ^ 32` in this pass. -/
def Fits (c : CalcState) : Prop :=
  let tick := c.line.planCalc.accelStepPerSecTick
  (c.status = .accelerate → c.accCompletedTime + maxInterval < 2 ^ 32 ∧
      multiU32X24toH32 (c.accCompletedTime + maxInterval) tick < 2 ^ 32) ∧
    (c.status = .decelerate → c.decCompletedTime + maxInterval < 2 ^ 32 ∧
      multiU32X24toH32 (c.decCompletedTime + maxInterval) tick < 2 ^ 32)

instance (c : CalcState) : Decidable (Fits c) := inferInstanceAs (Decidable ((_ → _) ∧ (_ → _)))

/-- After the time `t` the deceleration has not passed zero; it may have come to zero, where the nominal rate is the
lowest one, or in one interval. -/
def NotPast (nominal tick t : ℕ) : Prop :=
  multiU32X24toH32 t tick < nominal ∨
    multiU32X24toH32 t tick = nominal ∧
      (nominal = minStepRate ∨ multiU32X24toH32 (t - stepperTimerRate / nominal) tick = 0)

/-- A pass that keeps the shape of its phase. -/
structure ShapeOk (c : CalcState) : Prop where
  entry : plannedEntry c.line = minStepRate
  nominal : minStepRate ≤ c.line.planCalc.nominalRate
  decel : c.status = .decelerate →
    NotPast c.line.planCalc.nominalRate c.line.planCalc.accelStepPerSecTick c.decCompletedTime

/-- The rate of `ACCELERATE` after the time `t`, from a standing start. -/
def accelRate (nominal tick t : ℕ) : ℕ := max (min (multiU32X24toH32 t tick) nominal) minStepRate

/-- The rate of `DECELERATE` after the time `t`, with no exit rate. -/
def decelRate (nominal tick t : ℕ) : ℕ :=
  max (if multiU32X24toH32 t tick < nominal then nominal - multiU32X24toH32 t tick else multiU32X24toH32 t tick)
    minStepRate

/-- The pass takes the last step of its line. -/
def LastStep (c : CalcState) : Prop := (longest c).steps ≤ c.stepsCount + 1

/-- The time of the phase has brought the line to the planned exit rate. -/
def ExitMet (c : CalcState) : Prop :=
  let p := c.line.planCalc
  match c.status with
  | .accelerate => accelRate p.nominalRate p.accelStepPerSecTick c.accCompletedTime = plannedExit c.line
  | .uniform => p.nominalRate = plannedExit c.line
  | .decelerate => decelRate p.nominalRate p.accelStepPerSecTick c.decCompletedTime = plannedExit c.line
  | .stop => True

/-- A pass that follows the plan. -/
structure ProfileOk (c : CalcState) : Prop extends ShapeOk c where
  exit : LastStep c → ExitMet c

end Defs

/-! ## The rates of the phases -/

section Rates

theorem multi_zero (tick : ℕ) : multiU32X24toH32 0 tick = 0 := by simp [multiU32X24toH32]

theorem multi_mono {s t : ℕ} (h : s ≤ t) (tick : ℕ) : multiU32X24toH32 s tick ≤ multiU32X24toH32 t tick := by
  have hmul : s * tick + 0x00800000 ≤ t * tick + 0x00800000 := Nat.add_le_add_right (Nat.mul_le_mul_right tick h) _
  exact Nat.div_le_div_right hmul

/-- Where one interval takes the speed from zero to `n + 1`, the next takes it past `2 n`. -/
theorem multi_twice {t i tick n : ℕ} (h0 : multiU32X24toH32 (t - i) tick = 0)
    (hn : n + 1 ≤ multiU32X24toH32 t tick) : 2 * n + 1 ≤ multiU32X24toH32 (t + i) tick := by
  unfold multiU32X24toH32 at h0 hn ⊢
  have hpos : 0 < 2 ^ 24 := Nat.two_pow_pos 24
  have h1 : (t - i) * tick + 0x00800000 < 2 ^ 24 := by simpa using (Nat.div_eq_zero_iff.mp h0).resolve_left hpos.ne'
  have h2 : (n + 1) * 2 ^ 24 ≤ t * tick + 0x00800000 := (Nat.le_div_iff_mul_le hpos).mp hn
  have h3 : t * tick ≤ (t - i) * tick + i * tick := by
    rw [← Nat.add_mul]
    exact Nat.mul_le_mul_right tick (by omega)
  rw [Nat.le_div_iff_mul_le hpos, Nat.add_mul t]
  linarith

theorem calculateInterval_le {rate : ℕ} (h : minStepRate ≤ rate) : calculateInterval rate ≤ maxInterval :=
  Nat.div_le_div_left h (by decide)

theorem accelRate_mono {s t : ℕ} (h : s ≤ t) (nominal tick : ℕ) :
    accelRate nominal tick s ≤ accelRate nominal tick t := by
  unfold accelRate
  have := multi_mono h tick
  omega

theorem accelRate_zero (nominal tick : ℕ) : accelRate nominal tick 0 = minStepRate := by
  unfold accelRate
  rw [multi_zero, Nat.zero_min, Nat.max_eq_right (Nat.zero_le _)]

/-- Where the lowest rate is within the nominal one, so is every rate of the phase. -/
theorem accelRate_le {nominal : ℕ} (h : minStepRate ≤ nominal) (tick t : ℕ) : accelRate nominal tick t ≤ nominal := by
  unfold accelRate
  omega

theorem minStepRate_le_decelRate (nominal tick t : ℕ) : minStepRate ≤ decelRate nominal tick t := le_max_right _ _

theorem decelRate_of_lt {nominal tick t : ℕ} (h : multiU32X24toH32 t tick < nominal) :
    decelRate nominal tick t = max (nominal - multiU32X24toH32 t tick) minStepRate := by
  unfold decelRate
  rw [if_pos h]

theorem decelRate_of_le {nominal tick t : ℕ} (h : nominal ≤ multiU32X24toH32 t tick) :
    decelRate nominal tick t = max (multiU32X24toH32 t tick) minStepRate := by
  unfold decelRate
  rw [if_neg (not_lt.mpr h)]

theorem decelRate_le {nominal tick t : ℕ} (hn : minStepRate ≤ nominal) (h : multiU32X24toH32 t tick ≤ nominal) :
    decelRate nominal tick t ≤ nominal := by
  unfold decelRate
  split_ifs <;> omega

theorem NotPast.le {nominal tick t : ℕ} (h : NotPast nominal tick t) : multiU32X24toH32 t tick ≤ nominal := by
  obtain h | ⟨h, -⟩ := h <;> omega

/-- An interval after a time that has not passed zero the rate has not risen: then it has not passed zero now. -/
theorem NotPast.next {nominal tick s : ℕ} (hn : minStepRate ≤ nominal) (hs : NotPast nominal tick s)
    (h : decelRate nominal tick (s + calculateInterval (decelRate nominal tick s)) ≤ decelRate nominal tick s) :
    NotPast nominal tick (s + calculateInterval (decelRate nominal tick s)) := by
  have hnom := decelRate_le hn hs.le
  generalize hrate : decelRate nominal tick s = rate at h hnom ⊢
  by_cases hlt : multiU32X24toH32 (s + calculateInterval rate) tick < nominal
  · exact Or.inl hlt
  · rw [decelRate_of_le (not_lt.mp hlt)] at h
    have hmul : multiU32X24toH32 (s + calculateInterval rate) tick = nominal := by omega
    have htop : rate = nominal := by omega
    refine Or.inr ⟨hmul, ?_⟩
    by_cases hmin : nominal = minStepRate
    · exact Or.inl hmin
    · rw [htop] at hmul hrate ⊢
      rw [show s + calculateInterval nominal - stepperTimerRate / nominal = s from Nat.add_sub_cancel _ _]
      right
      obtain hslt | ⟨hseq, hs0⟩ := hs
      · rw [decelRate_of_lt hslt] at hrate
        omega
      · -- it came to zero in one interval then, and is past it now
        unfold minStepRate at hn
        obtain ⟨n, rfl⟩ := Nat.exists_eq_add_of_le' (show 1 ≤ nominal by omega)
        have htwice := multi_twice (hs0.resolve_left hmin) hseq.ge
        rw [show s + stepperTimerRate / (n + 1) = s + calculateInterval (n + 1) from rfl, hmul] at htwice
        omega

/-- A time that has not passed zero, an interval or more after `s`. -/
theorem NotPast.rate_le {nominal tick s t : ℕ} (hn : minStepRate ≤ nominal) (ht : NotPast nominal tick t)
    (h : s + calculateInterval (decelRate nominal tick s) ≤ t) :
    decelRate nominal tick t ≤ decelRate nominal tick s := by
  have hmono := multi_mono (le_trans (Nat.le_add_right s _) h) tick
  obtain hlt | ⟨heq, hcorner⟩ := ht
  · rw [decelRate_of_lt hlt, decelRate_of_lt (lt_of_le_of_lt hmono hlt)]
    omega
  · rw [decelRate_of_le heq.ge, heq, Nat.max_eq_left hn]
    by_cases hslt : multiU32X24toH32 s tick < nominal
    · obtain hmin | h0 := hcorner
      · rw [hmin]
        exact minStepRate_le_decelRate _ _ _
      · -- `s` lies an interval of the nominal rate back, where the speed was zero
        have hI : stepperTimerRate / nominal ≤ calculateInterval (decelRate nominal tick s) :=
          Nat.div_le_div_left (decelRate_le hn hslt.le) (lt_of_lt_of_le (by decide) (minStepRate_le_decelRate _ _ _))
        have hback := multi_mono (show s ≤ t - stepperTimerRate / nominal by omega) tick
        rw [decelRate_of_lt hslt]
        omega
    · rw [decelRate_of_le (not_lt.mp hslt)]
      omega

/-- **One step of a deceleration**: after the times of `P`, none of which has passed zero, the rate does not rise at `t`
exactly when `t` has not passed zero either. -/
theorem decelRate_le_iff {nominal tick t : ℕ} {P : ℕ → Prop} (hn : minStepRate ≤ nominal)
    (hok : ∀ s, P s → NotPast nominal tick s)
    (hbefore : ∀ s, P s → s + calculateInterval (decelRate nominal tick s) ≤ t)
    (hprev : t = 0 ∨ ∃ s, P s ∧ t = s + calculateInterval (decelRate nominal tick s)) :
    (∀ s, P s → decelRate nominal tick t ≤ decelRate nominal tick s) ↔ NotPast nominal tick t := by
  constructor
  · intro h
    obtain rfl | ⟨s, hs, rfl⟩ := hprev
    · refine Or.inl ?_
      rw [multi_zero]
      exact lt_of_lt_of_le (by decide) hn
    · exact (hok s hs).next hn (h s hs)
  · intro h s hs
    exact h.rate_le hn (hbefore s hs)

end Rates

/-! ## One pass -/

section Pass

variable {c : CalcState} {l : PlanLine} {ss : List CalcState}

/-- What a pass that takes a step does to the times and the phase. -/
structure PhaseSpec (c t : CalcState) : Prop where
  stepsCount : t.stepsCount = nextStepsCount c
  accTime : t.accCompletedTime =
    if c.status = .accelerate then u32 (c.accCompletedTime + calculateInterval (stepRate c)) else c.accCompletedTime
  decTime : t.decCompletedTime =
    if c.status = .decelerate then u32 (c.decCompletedTime + calculateInterval (stepRate c)) else c.decCompletedTime
  stop : t.status = .stop → (longest c).steps ≤ nextStepsCount c
  later : c.status = .decelerate → t.status = .decelerate

theorem pass_phase (hs : c.status ≠ .stop) (ho : ¬ Overrun c) (i : ℕ) : PhaseSpec c (pass c i).1 := by
  have ht := turn_spec hs ho i
  suffices h : (turn c i).1.accCompletedTime =
        (if c.status = .accelerate then u32 (c.accCompletedTime + calculateInterval (stepRate c))
          else c.accCompletedTime) ∧
      (turn c i).1.decCompletedTime =
        (if c.status = .decelerate then u32 (c.decCompletedTime + calculateInterval (stepRate c))
          else c.decCompletedTime) ∧ (c.status = .decelerate → (turn c i).1.status = .decelerate) from
    ⟨ht.stepsCount, h.1, h.2.1, ht.stop, h.2.2⟩
  unfold turn stepRate
  cases hst : c.status with
  | stop => exact absurd hst hs
  | accelerate => simp
  | uniform => simp
  | decelerate =>
    have hlt : ¬ (longest c).steps ≤ c.stepsCount := fun h => ho ⟨hst, h⟩
    simp [hlt]

/-- The rates of a planned line, which has no entry rate of its own. -/
theorem stepRate_accelerate (hs : c.status = .accelerate) (hf : Fits c) (h0 : c.line.planCalc.entryRate = 0) :
    stepRate c = accelRate c.line.planCalc.nominalRate c.line.planCalc.accelStepPerSecTick c.accCompletedTime := by
  have hlt := lt_of_le_of_lt (multi_mono (Nat.le_add_right c.accCompletedTime maxInterval) _) (hf.1 hs).2
  unfold stepRate accelerateRate accelRate
  rw [hs, h0, Nat.add_zero, u32_of_lt hlt]
  dsimp only
  split_ifs <;> omega

theorem stepRate_uniform (hs : c.status = .uniform) : stepRate c = max c.line.planCalc.nominalRate minStepRate := by
  unfold stepRate
  rw [hs]
  rfl

theorem stepRate_decelerate (hs : c.status = .decelerate) (hf : Fits c) (h0 : c.line.planCalc.exitRate = 0) :
    stepRate c = decelRate c.line.planCalc.nominalRate c.line.planCalc.accelStepPerSecTick c.decCompletedTime := by
  have hlt := lt_of_le_of_lt (multi_mono (Nat.le_add_right c.decCompletedTime maxInterval) _) (hf.2 hs).2
  unfold stepRate decelerateRate decelRate
  rw [hs, h0, u32_of_lt hlt]
  dsimp only
  split_ifs <;> omega

theorem PhaseSpec.times {t : CalcState} (h : PhaseSpec c t) (hs : c.status ≠ .stop) (hf : Fits c) :
    (t.accCompletedTime = if c.status = .accelerate then c.accCompletedTime + calculateInterval (stepRate c)
        else c.accCompletedTime) ∧
      t.decCompletedTime = if c.status = .decelerate then c.decCompletedTime + calculateInterval (stepRate c)
        else c.decCompletedTime := by
  have hI := calculateInterval_le (minStepRate_le_stepRate hs)
  rw [h.accTime, h.decTime]
  cases hst : c.status with
  | stop => exact absurd hst hs
  | accelerate => simp [u32_of_lt (lt_of_le_of_lt (Nat.add_le_add_left hI _) (hf.1 hst).1)]
  | uniform => simp
  | decelerate => simp [u32_of_lt (lt_of_le_of_lt (Nat.add_le_add_left hI _) (hf.2 hst).1)]

end Pass

/-! ## The shapes, pass by pass -/

section Shapes

variable {c : CalcState} {l : PlanLine} {ss : List CalcState}

theorem phaseRates_concat (phase : CrMotionStatus) (ss : List CalcState) (c : CalcState) :
    phaseRates phase (ss ++ [c]) = phaseRates phase ss ++ if c.status = phase then [stepRate c] else [] := by
  unfold phaseRates
  rw [List.filter_append, List.map_append, List.filter_singleton]
  split_ifs with h <;> simp_all

theorem mem_phaseRates {phase : CrMotionStatus} {ss : List CalcState} {r : ℕ} :
    r ∈ phaseRates phase ss ↔ ∃ z ∈ ss, z.status = phase ∧ stepRate z = r := by
  simp [phaseRates, and_assoc]

theorem pairwise_concat {R : ℕ → ℕ → Prop} {rs : List ℕ} {r : ℕ} :
    (rs ++ [r]).Pairwise R ↔ rs.Pairwise R ∧ ∀ s ∈ rs, R s r := by
  rw [List.pairwise_append]
  simp

/-- What a step may do to the shapes. -/
structure NextShaped (l : PlanLine) (ss : List CalcState) (c : CalcState) : Prop where
  accelerate : c.status = .accelerate → ∀ z ∈ ss, z.status = .accelerate → stepRate z ≤ stepRate c
  nominal : c.status = .accelerate → stepRate c ≤ l.planCalc.nominalRate
  uniform : c.status = .uniform → ∀ z ∈ ss, z.status = .uniform → stepRate z = stepRate c
  decelerate : c.status = .decelerate → ∀ z ∈ ss, z.status = .decelerate → stepRate z ≥ stepRate c
  first : ss = [] → stepRate c = plannedEntry l

/-- One step of a property of the rates of a phase. -/
theorem pairwise_phaseRates {R : ℕ → ℕ → Prop} (phase : CrMotionStatus) (ss : List CalcState) (c : CalcState) :
    (phaseRates phase (ss ++ [c])).Pairwise R ↔
      (phaseRates phase ss).Pairwise R ∧
        (c.status = phase → ∀ z ∈ ss, z.status = phase → R (stepRate z) (stepRate c)) := by
  rw [phaseRates_concat]
  by_cases h : c.status = phase
  · rw [if_pos h, pairwise_concat]
    simp only [mem_phaseRates]
    exact and_congr_right fun _ => ⟨fun h1 _ z hz hzs => h1 _ ⟨z, hz, hzs, rfl⟩,
      fun h1 r ⟨z, hz, hzs, hr⟩ => hr ▸ h1 h z hz hzs⟩
  · rw [if_neg h, List.append_nil]
    exact ⟨fun h1 => ⟨h1, fun h2 => absurd h2 h⟩, fun h1 => h1.1⟩

theorem shaped_nil (l : PlanLine) : Shaped l [] where
  accelerate := List.Pairwise.nil
  nominal r hr := absurd hr List.not_mem_nil
  uniform := List.Pairwise.nil
  decelerate := List.Pairwise.nil
  first c hc := by cases hc

/-- **The shapes grow by one step.** -/
theorem shaped_concat : Shaped l (ss ++ [c]) ↔ Shaped l ss ∧ NextShaped l ss c := by
  have hfirst : (∀ z, (ss ++ [c]).head? = some z → stepRate z = plannedEntry l) ↔
      (∀ z, ss.head? = some z → stepRate z = plannedEntry l) ∧ (ss = [] → stepRate c = plannedEntry l) := by
    cases ss with
    | nil => simp
    | cons z ss => simp
  have hnominal : (∀ r ∈ phaseRates .accelerate (ss ++ [c]), r ≤ l.planCalc.nominalRate) ↔
      (∀ r ∈ phaseRates .accelerate ss, r ≤ l.planCalc.nominalRate) ∧
        (c.status = .accelerate → stepRate c ≤ l.planCalc.nominalRate) := by
    rw [phaseRates_concat]
    by_cases h : c.status = .accelerate
    · rw [if_pos h]
      simp [h, or_imp, forall_and]
    · rw [if_neg h]
      simp [h]
  constructor
  · rintro ⟨ha, hn, hu, hd, hf⟩
    rw [pairwise_phaseRates] at ha hu hd
    rw [hnominal] at hn
    rw [hfirst] at hf
    exact ⟨⟨ha.1, hn.1, hu.1, hd.1, hf.1⟩, ⟨ha.2, hn.2, hu.2, hd.2, hf.2⟩⟩
  · rintro ⟨⟨ha, hn, hu, hd, hf⟩, ⟨ha', hn', hu', hd', hf'⟩⟩
    exact ⟨(pairwise_phaseRates _ ss c).mpr ⟨ha, ha'⟩, hnominal.mpr ⟨hn, hn'⟩,
      (pairwise_phaseRates _ ss c).mpr ⟨hu, hu'⟩, (pairwise_phaseRates _ ss c).mpr ⟨hd, hd'⟩, hfirst.mpr ⟨hf, hf'⟩⟩

/-- The times of the current phase come after those of the steps before. -/
structure Timed (c : CalcState) (ss : List CalcState) : Prop where
  start : ss = [] → c.status = .accelerate ∧ c.accCompletedTime = 0
  acc : ∀ z ∈ ss, z.status = .accelerate → z.accCompletedTime ≤ c.accCompletedTime
  dec : ∀ z ∈ ss, z.status = .decelerate → z.decCompletedTime + calculateInterval (stepRate z) ≤ c.decCompletedTime
  prev : c.decCompletedTime = 0 ∨
    ∃ z ∈ ss, z.status = .decelerate ∧ c.decCompletedTime = z.decCompletedTime + calculateInterval (stepRate z)

/-- The steps are those of the line `l`. -/
structure StepsOf (l : PlanLine) (ss : List CalcState) : Prop where
  line : ∀ z ∈ ss, z.line.planCalc = l.planCalc
  running : ∀ z ∈ ss, z.status ≠ .stop
  fits : ∀ z ∈ ss, Fits z

theorem plannedEntry_congr {k l : PlanLine} (h : k.planCalc = l.planCalc) : plannedEntry k = plannedEntry l := by
  unfold plannedEntry
  rw [h]

/-- **One step keeps the shapes exactly when it meets its condition**, after steps that met theirs. -/
theorem nextShaped_iff (he : l.planCalc.entryRate = 0) (hx : l.planCalc.exitRate = 0)
    (hsteps : StepsOf l (ss ++ [c])) (ht : Timed c ss) (hok : ∀ z ∈ ss, ShapeOk z) :
    NextShaped l ss c ↔ ShapeOk c := by
  have hc : c ∈ ss ++ [c] := by simp
  have hmem : ∀ z ∈ ss, z ∈ ss ++ [c] := fun z hz => List.mem_append_left [c] hz
  have hline := hsteps.line c hc
  have hacc : ∀ z ∈ ss ++ [c], z.status = .accelerate →
      stepRate z = accelRate l.planCalc.nominalRate l.planCalc.accelStepPerSecTick z.accCompletedTime := by
    intro z hz hzs
    rw [stepRate_accelerate hzs (hsteps.fits z hz) (by rw [hsteps.line z hz, he]), hsteps.line z hz]
  have hdec : ∀ z ∈ ss ++ [c], z.status = .decelerate →
      stepRate z = decelRate l.planCalc.nominalRate l.planCalc.accelStepPerSecTick z.decCompletedTime := by
    intro z hz hzs
    rw [stepRate_decelerate hzs (hsteps.fits z hz) (by rw [hsteps.line z hz, hx]), hsteps.line z hz]
  -- what the first step has decided
  have hplan : (plannedEntry l = minStepRate ∧ minStepRate ≤ l.planCalc.nominalRate) ∨ ss = [] := by
    cases ss with
    | nil => exact Or.inr rfl
    | cons z ss =>
      have hz := hok z List.mem_cons_self
      have hzl := hsteps.line z (by simp)
      rw [← plannedEntry_congr hzl, ← hzl]
      exact Or.inl ⟨hz.entry, hz.nominal⟩
  have hdecel : minStepRate ≤ l.planCalc.nominalRate → c.status = .decelerate →
      ((∀ z ∈ ss, z.status = .decelerate → stepRate z ≥ stepRate c) ↔
        NotPast l.planCalc.nominalRate l.planCalc.accelStepPerSecTick c.decCompletedTime) := by
    intro hn hst
    rw [← decelRate_le_iff (P := fun t => ∃ z ∈ ss, z.status = .decelerate ∧ z.decCompletedTime = t) hn]
    · constructor
      · rintro h t ⟨z, hz, hzs, rfl⟩
        have := h z hz hzs
        rwa [hdec z (hmem z hz) hzs, hdec c hc hst] at this
      · intro h z hz hzs
        rw [hdec z (hmem z hz) hzs, hdec c hc hst]
        exact h _ ⟨z, hz, hzs, rfl⟩
    · rintro t ⟨z, hz, hzs, rfl⟩
      have := (hok z hz).decel hzs
      rwa [hsteps.line z (hmem z hz)] at this
    · rintro t ⟨z, hz, hzs, rfl⟩
      have := ht.dec z hz hzs
      rwa [hdec z (hmem z hz) hzs] at this
    · obtain h0 | ⟨z, hz, hzs, heq⟩ := ht.prev
      · exact Or.inl h0
      · refine Or.inr ⟨_, ⟨z, hz, hzs, rfl⟩, ?_⟩
        rw [heq, hdec z (hmem z hz) hzs]
  constructor
  · intro h
    have hstart : plannedEntry l = minStepRate ∧ minStepRate ≤ l.planCalc.nominalRate := by
      obtain hp | rfl := hplan
      · exact hp
      · obtain ⟨hst, h0⟩ := ht.start rfl
        have hrate := hacc c hc hst
        rw [h0, accelRate_zero] at hrate
        exact ⟨by rw [← h.first rfl, hrate], by rw [← hrate]; exact h.nominal hst⟩
    refine ⟨by rw [plannedEntry_congr hline, hstart.1], by rw [hline]; exact hstart.2, fun hst => ?_⟩
    rw [hline]
    exact (hdecel hstart.2 hst).mp (h.decelerate hst)
  · intro h
    have hn := h.nominal
    rw [hline] at hn
    refine ⟨fun hst z hz hzs => ?_, fun hst => ?_, fun hst z hz hzs => ?_, fun hst => ?_, fun hnil => ?_⟩
    · rw [hacc z (hmem z hz) hzs, hacc c hc hst]
      exact accelRate_mono (ht.acc z hz hzs) _ _
    · rw [hacc c hc hst]
      exact accelRate_le hn _ _
    · rw [stepRate_uniform hzs, stepRate_uniform hst, hline, hsteps.line z (hmem z hz)]
    · refine (hdecel hn hst).mpr ?_
      have := h.decel hst
      rwa [hline] at this
    · obtain ⟨hst, h0⟩ := ht.start hnil
      rw [hacc c hc hst, h0, accelRate_zero, ← plannedEntry_congr hline, h.entry]

/-- The exit condition says what the rate of the pass is. -/
theorem exitMet_iff (hs : c.status ≠ .stop) (hf : Fits c) (hn : minStepRate ≤ c.line.planCalc.nominalRate)
    (he : c.line.planCalc.entryRate = 0) (hx : c.line.planCalc.exitRate = 0) :
    ExitMet c ↔ stepRate c = plannedExit c.line := by
  unfold ExitMet
  cases hst : c.status with
  | stop => exact absurd hst hs
  | accelerate => rw [stepRate_accelerate hst hf he]
  | uniform => rw [stepRate_uniform hst, Nat.max_eq_left hn]
  | decelerate => rw [stepRate_decelerate hst hf hx]

end Shapes

/-! ## The line in progress -/

section Line

variable {c : CalcState} {l : PlanLine} {ss : List CalcState}

/-- The invariant of the line `l` in progress, which has taken its steps from `ss`. -/
structure InProfile (c : CalcState) (l : PlanLine) (ss : List CalcState) : Prop where
  longest : Longest c
  planCalc : c.line.planCalc = l.planCalc
  line : ∀ z ∈ ss, z.line.planCalc = l.planCalc
  running : ∀ z ∈ ss, z.status ≠ .stop
  stop : c.status = .stop → l.planCalc.stepEventCnt ≤ c.stepsCount
  last : ∀ z ∈ ss, LastStep z → l.planCalc.stepEventCnt ≤ c.stepsCount ∧ ss.getLast? = some z
  done : l.planCalc.stepEventCnt ≤ c.stepsCount → ∃ z, ss.getLast? = some z ∧ LastStep z
  later : ∀ z ∈ ss, z.status = .decelerate → c.status = .decelerate ∨ c.status = .stop
  lastPhase : ∀ z ∈ ss, z.status = .decelerate → ∀ y, ss.getLast? = some y → y.status = .decelerate
  timed : (∀ z ∈ ss, Fits z) → c.status ≠ .stop → Timed c ss
  shaped : (∀ z ∈ ss, Fits z) → (Shaped l ss ↔ ∀ z ∈ ss, ShapeOk z)

theorem inProfile_fetch (hacc : c.accCompletedTime = 0) (hdec : c.decCompletedTime = 0) (hl : Executable l)
    (hpos : 0 < l.maxSteps) : InProfile (fetchLine 0 c l) l [] where
  longest := longest_fetch c hl hpos
  planCalc := rfl
  line z hz := absurd hz List.not_mem_nil
  running z hz := absurd hz List.not_mem_nil
  stop h := by
    rw [show (fetchLine 0 c l).status = l.planCalc.enterStatus from rfl, hl.enterStatus] at h
    cases h
  last z hz := absurd hz List.not_mem_nil
  done h := by
    rw [hl.stepEventCnt] at h
    exact absurd h (not_le.mpr hpos)
  later z hz := absurd hz List.not_mem_nil
  lastPhase z hz := absurd hz List.not_mem_nil
  timed _ _ := ⟨fun _ => ⟨hl.enterStatus, hacc⟩, fun z hz => absurd hz List.not_mem_nil,
    fun z hz => absurd hz List.not_mem_nil, Or.inl hdec⟩
  shaped _ := ⟨fun _ z hz => absurd hz List.not_mem_nil, fun _ => shaped_nil l⟩

theorem Timed.next {t : CalcState} (h : Timed c ss) (hs : c.status ≠ .stop) (hf : Fits c) (ht : PhaseSpec c t) :
    Timed t (ss ++ [c]) := by
  obtain ⟨hacc, hdec⟩ := ht.times hs hf
  have haccle : c.accCompletedTime ≤ t.accCompletedTime := by
    rw [hacc]
    split_ifs <;> omega
  have hdecle : c.decCompletedTime ≤ t.decCompletedTime := by
    rw [hdec]
    split_ifs <;> omega
  refine ⟨fun hnil => by simp at hnil, fun z hz hzs => ?_, fun z hz hzs => ?_, ?_⟩
  · obtain hz | hz := List.mem_append.mp hz
    · exact (h.acc z hz hzs).trans haccle
    · rw [List.mem_singleton.mp hz]
      exact haccle
  · obtain hz | hz := List.mem_append.mp hz
    · exact (h.dec z hz hzs).trans hdecle
    · rw [List.mem_singleton.mp hz] at hzs ⊢
      rw [hdec, if_pos hzs]
  · by_cases hst : c.status = .decelerate
    · exact Or.inr ⟨c, by simp, hst, by rw [hdec, if_pos hst]⟩
    · rw [hdec, if_neg hst]
      obtain h0 | ⟨z, hz, hzs, heq⟩ := h.prev
      · exact Or.inl h0
      · exact Or.inr ⟨z, List.mem_append_left [c] hz, hzs, heq⟩

/-- **A pass that takes a step keeps the invariant.** -/
theorem InProfile.step (h : InProfile c l ss) (hl : Executable l) (hs : c.status ≠ .stop) (ho : ¬ Overrun c) (i : ℕ) :
    InProfile (pass c i).1 l (ss ++ [c]) := by
  have ht := pass_phase hs ho i
  have hM : c.line.planCalc.stepEventCnt = l.planCalc.stepEventCnt := by rw [h.planCalc]
  have hlong : (Motion.longest c).steps = l.planCalc.stepEventCnt := h.longest.steps.trans hM
  have hk : c.stepsCount < l.planCalc.stepEventCnt := by
    rw [← hM]
    exact h.longest.stepsCount_lt hs ho
  have hcnt : (pass c i).1.stepsCount = c.stepsCount + 1 := by
    have hlt := h.longest.lt
    rw [ht.stepsCount]
    exact nextStepsCount_of_lt (by omega) (by omega)
  have hline : ∀ z ∈ ss ++ [c], z.line.planCalc = l.planCalc := by
    intro z hz
    obtain hz | hz := List.mem_append.mp hz
    · exact h.line z hz
    · rw [List.mem_singleton.mp hz, h.planCalc]
  have hrunning : ∀ z ∈ ss ++ [c], z.status ≠ .stop := by
    intro z hz
    obtain hz | hz := List.mem_append.mp hz
    · exact h.running z hz
    · rw [List.mem_singleton.mp hz]
      exact hs
  have hlater : ∀ z ∈ ss ++ [c], z.status = .decelerate → c.status = .decelerate := by
    intro z hz hzs
    obtain hz | hz := List.mem_append.mp hz
    · exact (h.later z hz hzs).resolve_right hs
    · rwa [List.mem_singleton.mp hz] at hzs
  have hfits : (∀ z ∈ ss ++ [c], Fits z) → ∀ z ∈ ss, Fits z := fun hf z hz => hf z (List.mem_append_left [c] hz)
  have hlast : (ss ++ [c]).getLast? = some c := List.getLast?_concat
  refine ⟨longest_pass h.longest hs i, ?_, hline, hrunning, fun hst => ?_, fun z hz hz1 => ?_, fun hdone => ?_,
    fun z hz hzs => Or.inl (ht.later (hlater z hz hzs)), fun z hz hzs y hy => ?_, fun hf _ => ?_, fun hf => ?_⟩
  · rw [pass_line]
    exact h.planCalc
  · have hle := ht.stop hst
    rw [hlong, ← ht.stepsCount] at hle
    exact hle
  · obtain hz | hz := List.mem_append.mp hz
    · exact absurd (h.last z hz hz1).1 (not_le.mpr hk)
    · rw [List.mem_singleton.mp hz] at hz1 ⊢
      unfold LastStep at hz1
      rw [hlong] at hz1
      exact ⟨by omega, hlast⟩
  · refine ⟨c, hlast, ?_⟩
    unfold LastStep
    rw [hlong]
    omega
  · rw [hlast] at hy
    rw [← Option.some.inj hy]
    exact hlater z hz hzs
  · exact (h.timed (hfits hf) hs).next hs (hf c (by simp)) ht
  · -- one more step: the shapes before it are kept by the induction, and it keeps them by its condition
    rw [shaped_concat, h.shaped (hfits hf)]
    constructor
    · rintro ⟨hok, hnext⟩ z hz
      obtain hz | hz := List.mem_append.mp hz
      · exact hok z hz
      · rw [List.mem_singleton.mp hz]
        exact (nextShaped_iff hl.entryRate hl.exitRate ⟨hline, hrunning, hf⟩ (h.timed (hfits hf) hs) hok).mp hnext
    · intro hok
      have hss : ∀ z ∈ ss, ShapeOk z := fun z hz => hok z (List.mem_append_left [c] hz)
      exact ⟨hss, (nextShaped_iff hl.entryRate hl.exitRate ⟨hline, hrunning, hf⟩ (h.timed (hfits hf) hs) hss).mpr
        (hok c (by simp))⟩

/-- A pass that finds the line done keeps the invariant. -/
theorem InProfile.overrun (h : InProfile c l ss) (hs : c.status ≠ .stop) (ho : Overrun c) (i : ℕ) :
    InProfile (pass c i).1 l ss := by
  have hdone : l.planCalc.stepEventCnt ≤ c.stepsCount := by
    rw [← h.planCalc, ← h.longest.steps]
    exact ho.2
  have hstatus : (pass c i).1.status = .stop := by
    unfold pass
    rw [turn_overrun ho]
    rfl
  have hcnt : (pass c i).1.stepsCount = c.stepsCount := by
    unfold pass
    rw [turn_overrun ho]
    rfl
  refine ⟨longest_pass h.longest hs i, ?_, h.line, h.running, fun _ => ?_, ?_, ?_, fun z hz hzs => Or.inr hstatus,
    h.lastPhase, fun _ hst => absurd hstatus hst, h.shaped⟩
  · rw [pass_line]
    exact h.planCalc
  · rw [hcnt]
    exact hdone
  · rw [hcnt]
    exact h.last
  · rw [hcnt]
    exact h.done

/-- **A finished line.** -/
theorem InProfile.faithful_iff (h : InProfile c l ss) (hl : Executable l) (hs : c.status = .stop)
    (hf : ∀ z ∈ ss, Fits z) : Faithful l ss ↔ ∀ z ∈ ss, ProfileOk z := by
  obtain ⟨y, hy, hylast⟩ := h.done (h.stop hs)
  obtain ⟨before, rfl⟩ := List.getLast?_eq_some_iff.mp hy
  have hexit : ∀ z ∈ before ++ [y], ShapeOk z → (ExitMet z ↔ stepRate z = plannedExit l) := by
    intro z hz hok
    have hz' := h.line z hz
    rw [exitMet_iff (h.running z hz) (hf z hz) hok.nominal (by rw [hz', hl.entryRate]) (by rw [hz', hl.exitRate])]
    unfold plannedExit
    rw [hz']
  have hy1 : y ∈ before ++ [y] := by simp
  constructor
  · intro hfaith z hz
    have hok := (h.shaped hf).mp hfaith.toShaped
    exact ⟨hok z hz, fun hz1 => (hexit z hz (hok z hz)).mpr (hfaith.last z (h.last z hz hz1).2)⟩
  · intro hok
    have hshaped := (h.shaped hf).mpr fun z hz => (hok z hz).toShapeOk
    have hrate := (hexit y hy1 (hok y hy1).toShapeOk).mp ((hok y hy1).exit hylast)
    refine ⟨hshaped, fun r hr => ?_, fun z hz => ?_⟩
    · -- the last step has the lowest rate of the phase
      obtain ⟨z, hz, hzs, rfl⟩ := mem_phaseRates.mp hr
      have hys := h.lastPhase z hz hzs y hy
      have hlow : stepRate y ≤ stepRate z := by
        obtain hz | hz := List.mem_append.mp hz
        · exact (shaped_concat.mp hshaped).2.decelerate hys z hz hzs
        · rw [List.mem_singleton.mp hz]
      rw [← hrate]
      exact max_le hlow (minStepRate_le_stepRate (h.running z hz))
    · rw [hy] at hz
      rw [← Option.some.inj hz, hrate]

end Line

/-! ## Runs -/

section Runs

/-- The lines of a run, each with the states its passes start from. -/
abbrev finishedLines (is : List CalcInput) : List (PlanLine × List CalcState) := finished (fun c _ => c) is

theorem stepStates_concat (cs : List CalcState) (c : CalcState) :
    stepStates (cs ++ [c]) = stepStates cs ++ if Overrun c then [] else [c] := by
  unfold stepStates
  rw [List.filter_append, List.filter_singleton]
  by_cases h : Overrun c <;> simp [h]

theorem profileRule : LineRule (fun c _ => c) Executable
    (fun c => c.accCompletedTime = 0 ∧ c.decCompletedTime = 0)
    (fun c l cs => Executable l ∧ InProfile c l (stepStates cs))
    (fun s => (∀ z ∈ stepStates s.2, Fits z) →
      (Faithful s.1 (stepStates s.2) ↔ ∀ z ∈ stepStates s.2, ProfileOk z)) where
  init := ⟨rfl, rfl⟩
  skip c l hc _ _ := by
    refine ⟨hc, fun _ => ⟨fun _ z hz => absurd hz List.not_mem_nil, fun _ => ⟨shaped_nil l, fun r hr => ?_, ?_⟩⟩⟩
    · exact absurd hr List.not_mem_nil
    · intro z hz
      cases hz
  fetch c l hc hl hpos := ⟨hl, inProfile_fetch hc.1 hc.2 hl hpos⟩
  pass c l cs i hs h := by
    obtain ⟨hl, hin⟩ := h
    refine ⟨hl, ?_⟩
    rw [stepStates_concat]
    by_cases ho : Overrun c
    · rw [if_pos ho, List.append_nil]
      exact hin.overrun hs ho i
    · rw [if_neg ho]
      exact hin.step hl hs ho i
  finish c l cs hs h := ⟨⟨rfl, rfl⟩, fun hf => h.2.faithful_iff h.1 hs hf⟩

/-- **The profile of a finished line** is the planned one exactly when each of its passes meets its condition, in every
run, for any executable lines and any cutting into calls, as long as the times of the phases fit. -/
theorem profile_faithful_iff (is : List CalcInput) (hp : ∀ l ∈ planned is, Executable l) :
    ∀ s ∈ finishedLines is, (∀ z ∈ stepStates s.2, Fits z) →
      (Faithful s.1 (stepStates s.2) ↔ ∀ z ∈ stepStates s.2, ProfileOk z) :=
  profileRule.finished_done is hp

/-- A machine with fine steps. -/
def fineMachine : Machine := ⟨fun _ => some ⟨640, 50, 10, 1000⟩, id⟩

/-- The planner after a retract at the lowest speed, of ten steps. -/
def slowRetract : Planner :=
  (Planner.init.call (.feedrateAttrSet (retractAt (1 / 20)))).call (.planRetract fineMachine (eAt 0) (eAt (1 / 64)))

/-- The line it hands over. -/
def slowLine : PlanLine := ((getNextPlanLine slowRetract.ring).1).getD PlanLine.zero

theorem slowLine_executable : Executable slowLine := by
  have hrun : Run PlannerStep Planner.init
      [.feedrateAttrSet (retractAt (1 / 20)), .planRetract fineMachine (eAt 0) (eAt (1 / 64))] slowRetract :=
    ((Run.nil _).snoc rfl).snoc rfl
  exact handedOut_getD hrun (by decide +kernel)

/-- It is executed at the lowest rate throughout, as it is planned. -/
theorem profile_faithful_slowLine : ∃ s ∈ finishedLines [.plan slowLine, .call 11],
    (stepStates s.2).length = 10 ∧ Faithful s.1 (stepStates s.2) := by
  have hfacts : ∀ s ∈ finishedLines [.plan slowLine, .call 11], (stepStates s.2).length = 10 ∧
      ∀ z ∈ stepStates s.2, Fits z ∧ z.status = .accelerate ∧ z.line.planCalc.entryRateSqr = 32 * 32 ∧
        z.line.planCalc.exitRateSqr = 32 * 32 ∧ z.line.planCalc.nominalRate = 32 ∧
        accelRate z.line.planCalc.nominalRate z.line.planCalc.accelStepPerSecTick z.accCompletedTime = 32 := by
    decide +kernel
  obtain ⟨s, hs⟩ := List.exists_mem_of_ne_nil (finishedLines [.plan slowLine, .call 11]) (by
    rw [← List.length_pos_iff]
    decide +kernel)
  obtain ⟨hlen, hz⟩ := hfacts s hs
  refine ⟨s, hs, hlen, (profile_faithful_iff [.plan slowLine, .call 11] (fun l hl => ?_) s hs
    fun z h => (hz z h).1).mpr ?_⟩
  · rw [List.mem_singleton.mp (show l ∈ [slowLine] from hl)]
    exact slowLine_executable
  · intro z h
    obtain ⟨-, hst, hentry, hexit, hnominal, hrate⟩ := hz z h
    refine ⟨⟨?_, hnominal.ge, fun hdec => ?_⟩, fun _ => ?_⟩
    · unfold plannedEntry
      rw [hentry, Nat.sqrt_eq]
      rfl
    · rw [hst] at hdec
      cases hdec
    · unfold ExitMet plannedExit
      rw [hst, hexit, Nat.sqrt_eq]
      exact hrate

/-- **A retract of three steps** starts at the lowest rate, leaps to the nominal one, and ends near it, where the plan
starts and ends at standstill. -/
theorem retract_leaps :
    (finishedLines [.plan retractLine, .call 5]).map (fun s => (stepStates s.2).map stepRate) = [[32, 5000, 4980]] ∧
      (∀ s ∈ finishedLines [.plan retractLine, .call 5], plannedEntry s.1 = 5 ∧ plannedExit s.1 = 5) ∧
      ¬ ∀ s ∈ finishedLines [.plan retractLine, .call 5], Faithful s.1 (stepStates s.2) := by
  have hrates : (finishedLines [.plan retractLine, .call 5]).map (fun s => (stepStates s.2).map stepRate) =
      [[32, 5000, 4980]] := by decide +kernel
  have hplan : ∀ s ∈ finishedLines [.plan retractLine, .call 5], plannedEntry s.1 = 5 ∧ plannedExit s.1 = 5 := by
    have hsqr : ∀ s ∈ finishedLines [.plan retractLine, .call 5],
        s.1.planCalc.entryRateSqr = 5 * 5 ∧ s.1.planCalc.exitRateSqr = 5 * 5 := by decide +kernel
    intro s hs
    obtain ⟨h1, h2⟩ := hsqr s hs
    unfold plannedEntry plannedExit
    rw [h1, h2, Nat.sqrt_eq]
    exact ⟨rfl, rfl⟩
  refine ⟨hrates, hplan, fun h => ?_⟩
  obtain ⟨s, hs, hsr⟩ := List.mem_map.mp (show [32, 5000, 4980] ∈ _ by rw [hrates]; exact List.mem_singleton_self _)
  have hlast : (stepStates s.2).getLast?.map stepRate = some 4980 := by
    rw [← List.getLast?_map, hsr]
    rfl
  obtain ⟨c, hc, hrate⟩ := Option.map_eq_some_iff.mp hlast
  have hexit := (h s hs).last c hc
  rw [hrate, (hplan s hs).2] at hexit
  exact absurd hexit (by decide)

end Runs

end Cxsw.Motion
