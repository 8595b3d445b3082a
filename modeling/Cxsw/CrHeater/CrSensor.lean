import Mathlib.Algebra.BigOperators.Group.List.Basic
import Mathlib.Algebra.Order.BigOperators.Group.List
import Mathlib.Algebra.Order.Field.Basic
import Mathlib.Algebra.Order.Ring.Rat
import Mathlib.Data.Finset.Max
import Mathlib.Data.List.ReduceOption
import Mathlib.Tactic.Linarith
import Mathlib.Tactic.Ring
import Cxsw.Lib.Rounding

/-!
# Cxsw.CrHeater.CrSensor — the temperature of a sensor (`CrHeater/Sensor/CrSensor.cpp`, `CrTemperSensor.c`)

`GetVaule` adds ten samples up and divides by ten.  A read that fails leaves the sample as it is: as the one before, or
as 0 at the start.  The operations round as an `Arithmetic` says, those on `double` like its constants; the logarithm
of the C library is a parameter.

* `getVaule_iff`: when a call after a history of calls returns what the successful reads ask for, in single precision.
-/

namespace Cxsw.Sensor

/-! ## The sensor -/

section Defs

/-- `AdcOutPutParam_t`. -/
structure AdcOutPutParam where
  referVoltage : ℚ
  adcVolt : ℚ
  deriving DecidableEq

/-- The sensor of a `CrTemperSensor`, and its `LastValidValue`. -/
structure CrTemperSensor where
  calcFunc : Option (ℚ → ℚ)
  lastValidValue : ℚ

/-- `INVALID_TEMP`. -/
def invalidTemp : ℚ := 10000000

variable (R : Arithmetic) (log : ℚ → ℚ)

/-- `DefaultCalcFunc`: 100 kΩ at 25 °C with B = 3950, in series with 4.7 kΩ. -/
def defaultCalcFunc (volt referVoltage : ℚ) : ℚ :=
  if R.op (referVoltage - volt) ≤ 0 then -1
  else
    let rt := R.op (R.op (volt * 4700) / R.op (referVoltage - volt))
    -- from the logarithm on in double precision
    let beta := R.const (R.const (log (R.op (rt / 100000))) / 3950)
    let ka := R.const (27315 / 100)
    R.op (R.const (R.const (1 / R.const (beta + R.const (1 / R.const (ka + 25)))) - ka))

namespace CrTemperSensor

/-- What `CmdGetTempProcess` makes of a value of the ADC. -/
def convert (s : CrTemperSensor) (adc : AdcOutPutParam) : ℚ :=
  match s.calcFunc with
  | some f => R.op (f adc.adcVolt)
  | none => defaultCalcFunc R log adc.adcVolt adc.referVoltage

/-- `CmdGetTempProcess`: the sample afterwards, and the return value.  `none` stands for an ADC that does not answer. -/
def cmdGetTempProcess (s : CrTemperSensor) (adc : Option AdcOutPutParam) (retTemp : ℚ) : ℚ × ℤ :=
  match adc with
  | none => (retTemp, -1)
  | some adc => (s.convert R log adc, 0)

/-- The loop of `GetVaule`, which does not look at the return value. -/
def sampleLoop (s : CrTemperSensor) : List (Option AdcOutPutParam) → ℚ → ℚ → ℚ
  | [], _, average => average
  | adc :: rest, temp, average =>
    let temp := (s.cmdGetTempProcess R log adc temp).1
    s.sampleLoop rest temp (R.op (average + temp))

/-- What `GetVaule` returns where the sum is 0. -/
def remembered (s : CrTemperSensor) : ℚ :=
  if |s.lastValidValue| > R.const (1 / 1000000) then s.lastValidValue else invalidTemp

/-- `GetVaule`, with the answers of the ADC to its ten reads. -/
def getVaule (s : CrTemperSensor) (adcs : List (Option AdcOutPutParam)) : CrTemperSensor × ℚ :=
  let average := s.sampleLoop R log adcs 0 0
  if |average| > R.const (1 / 100000) then ({ s with lastValidValue := R.op (average / 10) }, R.op (average / 10))
  else (s, s.remembered R)

/-- The answers to the reads of one call. -/
abbrev TenReads : Type := { adcs : List (Option AdcOutPutParam) // adcs.length = 10 }

/-- The sensor after calls. -/
def afterCalls (s : CrTemperSensor) (history : List TenReads) : CrTemperSensor :=
  history.foldl (fun s reads => (s.getVaule R log reads.1).1) s

/-- The sensor that the constructor makes. -/
def new (calcFunc : Option (ℚ → ℚ)) : CrTemperSensor := ⟨calcFunc, 0⟩

/-- The temperatures of the reads that succeed. -/
def readings (s : CrTemperSensor) (reads : TenReads) : List ℚ := reads.1.reduceOption.map (s.convert R log)

end CrTemperSensor

end Defs

/-! ## What a call should return -/

section Spec

open CrTemperSensor

/-- Between the smallest and the largest of the temperatures. -/
def Between (temps : List ℚ) (v : ℚ) : Prop := (∃ lo ∈ temps, lo ≤ v) ∧ ∃ hi ∈ temps, v ≤ hi

instance (temps : List ℚ) (v : ℚ) : Decidable (Between temps v) := inferInstanceAs (Decidable (_ ∧ _))

variable (R : Arithmetic) (log : ℚ → ℚ) (calcFunc : Option (ℚ → ℚ))

/-- The value that the last call with a successful read returned. -/
def lastComputed : CrTemperSensor → List TenReads → Option ℚ → Option ℚ
  | _, [], last => last
  | s, reads :: rest, last =>
    lastComputed (s.getVaule R log reads.1).1 rest
      (if s.readings R log reads = [] then last else some (s.getVaule R log reads.1).2)

/-- A call after `history` returns a value between its readings, or where it has none the last value computed. -/
def ValueOk (history : List TenReads) (reads : TenReads) : Prop :=
  let s := (CrTemperSensor.new calcFunc).afterCalls R log history
  let v := (s.getVaule R log reads.1).2
  if s.readings R log reads = [] then
    v = (lastComputed R log (CrTemperSensor.new calcFunc) history none).getD invalidTemp
  else Between (s.readings R log reads) v

end Spec

/-! ## The samples -/

section Samples

/-- The samples of reads with these results, when the sample before them was `temp`. -/
def carry (temp : ℚ) : List (Option ℚ) → List ℚ
  | [] => []
  | r :: rest => r.getD temp :: carry (r.getD temp) rest

theorem length_carry (temp : ℚ) (results : List (Option ℚ)) : (carry temp results).length = results.length := by
  induction results generalizing temp with
  | nil => rfl
  | cons r rest ih => simp [carry, ih]

/-- A sample is the one before the reads or one of the temperatures. -/
theorem mem_carry {temp c : ℚ} {results : List (Option ℚ)} (h : c ∈ carry temp results) :
    c = temp ∨ c ∈ results.reduceOption := by
  induction results generalizing temp with
  | nil => exact absurd h List.not_mem_nil
  | cons r rest ih =>
    cases r with
    | none =>
      obtain rfl | h := List.mem_cons.mp h
      · exact Or.inl rfl
      · rw [List.reduceOption_cons_of_none]
        exact ih h
    | some t =>
      rw [List.reduceOption_cons_of_some]
      obtain rfl | h := List.mem_cons.mp h
      · exact Or.inr List.mem_cons_self
      · obtain rfl | h := ih h
        · exact Or.inr List.mem_cons_self
        · exact Or.inr (List.mem_cons_of_mem _ h)

/-- The reads that fail before the first that succeeds. -/
def leadingFailures (results : List (Option ℚ)) : ℕ := (results.takeWhile Option.isNone).length

/-- The samples from the first read on that succeeds. -/
def carried (results : List (Option ℚ)) : List ℚ := carry 0 (results.dropWhile Option.isNone)

theorem sum_carry_zero (R : Arithmetic) (results : List (Option ℚ)) :
    R.sum 0 (carry 0 results) = R.sum 0 (carried results) := by
  have hzero : R.op 0 = 0 := by exact_mod_cast R.op_whole 0 (by omega)
  unfold carried
  induction results with
  | nil => rfl
  | cons r rest ih =>
    cases r with
    | none =>
      rw [List.dropWhile_cons_of_pos rfl, ← ih]
      show R.sum (R.op (0 + 0)) (carry 0 rest) = R.sum 0 (carry 0 rest)
      rw [add_zero, hzero]
    | some t => rfl

theorem length_carried (results : List (Option ℚ)) :
    (carried results).length + leadingFailures results = results.length := by
  unfold carried leadingFailures
  rw [length_carry, Nat.add_comm, ← List.length_append, List.takeWhile_append_dropWhile]

theorem reduceOption_dropWhile (results : List (Option ℚ)) :
    (results.dropWhile Option.isNone).reduceOption = results.reduceOption := by
  induction results with
  | nil => rfl
  | cons r rest ih =>
    cases r with
    | none => rw [List.dropWhile_cons_of_pos rfl, ih, List.reduceOption_cons_of_none]
    | some t => rfl

/-- From the first success on the samples are temperatures. -/
theorem mem_carried {results : List (Option ℚ)} {c : ℚ} (h : c ∈ carried results) : c ∈ results.reduceOption := by
  unfold carried at h
  rw [← reduceOption_dropWhile]
  cases hrest : results.dropWhile Option.isNone with
  | nil =>
    rw [hrest] at h
    exact absurd h List.not_mem_nil
  | cons r rest =>
    have hr : r.isNone = false := by
      have := List.head?_dropWhile_not Option.isNone results
      rw [hrest] at this
      exact this
    obtain ⟨t, rfl⟩ := Option.isSome_iff_exists.mp (Option.isNone_eq_false_iff.mp hr)
    rw [hrest] at h
    rw [List.reduceOption_cons_of_some]
    obtain rfl | h := List.mem_cons.mp h
    · exact List.mem_cons_self
    · obtain rfl | h := mem_carry h
      · exact List.mem_cons_self
      · exact List.mem_cons_of_mem _ h

theorem sum_map_sub_const (l : List ℚ) (c : ℚ) : (l.map (· - c)).sum = l.sum - l.length * c := by
  induction l with
  | nil => simp
  | cons x rest ih =>
    simp only [List.map_cons, List.sum_cons, ih, List.length_cons]
    push_cast
    ring

end Samples

/-! ## Small sums -/

section Small

/-- The constants of the comparison, as they are stored. -/
theorem small_bounds : 10995116 / 2 ^ 40 < roundTo 53 (1 / 100000) ∧
    roundTo 53 (1 / 1000000) < roundTo 24 (10995117 / 2 ^ 40 / 10) := by
  decide +kernel

theorem le_of_gt_small {x : ℚ} (hx : roundTo 24 x = x) (h : roundTo 53 (1 / 100000) < x) : 10995117 / 2 ^ 40 ≤ x := by
  have hlow : 10995116 / 2 ^ 40 < x := small_bounds.1.trans h
  have hpos : 0 < x := lt_trans (by norm_num) hlow
  by_contra hlt
  rw [not_le] at hlt
  -- between two powers of two, whose numbers are multiples of `2 ^ -40`
  have hlog : Int.log 2 x = -17 := by
    have hlower : (-17 : ℤ) ≤ Int.log 2 x :=
      (Int.zpow_le_iff_le_log (by norm_num) hpos).mp (le_trans (by norm_num) hlow.le)
    have hupper : Int.log 2 x < -16 :=
      (Int.lt_zpow_iff_log_lt (by norm_num) hpos).mp (lt_trans hlt (by norm_num))
    omega
  obtain ⟨n, hn⟩ := exists_multiple hpos hx
  have hdigit : lastDigit 24 x = -40 := by
    unfold lastDigit
    rw [hlog]
    norm_num
  have hscaled : (n : ℚ) = x * 2 ^ 40 := by
    rw [hn, hdigit]
    norm_num
    ring
  have h1 : ((10995116 : ℤ) : ℚ) < n := by
    push_cast
    linarith
  have h2 : (n : ℚ) < (10995117 : ℤ) := by
    push_cast
    linarith
  rw [Int.cast_lt] at h1 h2
  omega

theorem tenth_gt_small {x : ℚ} (hx : roundTo 24 x = x) (h : roundTo 53 (1 / 100000) < |x|) :
    roundTo 53 (1 / 1000000) < |roundTo 24 (x / 10)| := by
  have hpos : ∀ y, roundTo 24 y = y → roundTo 53 (1 / 100000) < y → roundTo 53 (1 / 1000000) < roundTo 24 (y / 10) := by
    intro y hy hgt
    calc roundTo 53 (1 / 1000000) < roundTo 24 (10995117 / 2 ^ 40 / 10) := small_bounds.2
      _ ≤ roundTo 24 (y / 10) :=
        roundTo_mono (by norm_num) (by norm_num)
          (div_le_div_of_nonneg_right (le_of_gt_small hy hgt) (by norm_num))
  rcases abs_cases x with ⟨habs, -⟩ | ⟨habs, -⟩
  · rw [habs] at h
    exact (hpos x hx h).trans_le (le_abs_self _)
  · rw [habs] at h
    have hneg := hpos (-x) (by rw [roundTo_neg, hx]) h
    rw [neg_div, roundTo_neg] at hneg
    exact hneg.trans_le (neg_le_abs _)

end Small

/-! ## One call -/

section Call

open CrTemperSensor

variable (R : Arithmetic) (log : ℚ → ℚ) {s : CrTemperSensor} {reads : TenReads}

/-- The results of the reads. -/
def CrTemperSensor.results (s : CrTemperSensor) (reads : TenReads) : List (Option ℚ) :=
  reads.1.map (Option.map (s.convert R log))

/-- What the roundings of the additions and of the division add to ten times the mean. -/
def roundingGain (samples : List ℚ) : ℚ :=
  R.sumError 0 samples + 10 * (R.op (R.sum 0 samples / 10) - R.sum 0 samples / 10)

/-- The failed reads at the start, each a 0 in place of at least `lo`, are made up for by what the other samples have
above `lo` and by the roundings; and likewise for `hi`. -/
def MeanInside (results : List (Option ℚ)) : Prop :=
  (∃ lo ∈ results.reduceOption,
      leadingFailures results * lo ≤ ((carried results).map (· - lo)).sum + roundingGain R (carried results)) ∧
    ∃ hi ∈ results.reduceOption,
      ((carried results).map (· - hi)).sum + roundingGain R (carried results) ≤ leadingFailures results * hi

instance (results : List (Option ℚ)) : Decidable (MeanInside R results) := inferInstanceAs (Decidable (_ ∧ _))

/-- No read succeeds; or the samples do not cancel and the mean is inside; or they do, and what is remembered is. -/
def CallInside (s : CrTemperSensor) (reads : TenReads) : Prop :=
  (s.results R log reads).reduceOption = [] ∨
    if |R.sum 0 (carried (s.results R log reads))| > R.const (1 / 100000) then MeanInside R (s.results R log reads)
    else Between (s.results R log reads).reduceOption (s.remembered R)

instance (s : CrTemperSensor) (reads : TenReads) : Decidable (CallInside R log s reads) :=
  inferInstanceAs (Decidable (_ ∨ ite _ _ _))

theorem readings_eq (s : CrTemperSensor) (reads : TenReads) :
    s.readings R log reads = (s.results R log reads).reduceOption := by
  unfold readings results
  rw [List.reduceOption_map]

theorem sampleLoop_eq (s : CrTemperSensor) (adcs : List (Option AdcOutPutParam)) (temp average : ℚ) :
    s.sampleLoop R log adcs temp average = R.sum average (carry temp (adcs.map (Option.map (s.convert R log)))) := by
  induction adcs generalizing temp average with
  | nil => rfl
  | cons adc rest ih =>
    rw [sampleLoop, ih]
    cases adc with
    | none => rfl
    | some adc => rfl

theorem getVaule_spec (s : CrTemperSensor) (reads : TenReads) :
    s.getVaule R log reads.1 =
      if |R.sum 0 (carried (s.results R log reads))| > R.const (1 / 100000) then
        ({ s with lastValidValue := R.op (R.sum 0 (carried (s.results R log reads)) / 10) },
          R.op (R.sum 0 (carried (s.results R log reads)) / 10))
      else (s, s.remembered R) := by
  have hsum : s.sampleLoop R log reads.1 0 0 = R.sum 0 (carried (s.results R log reads)) := by
    rw [sampleLoop_eq]
    exact sum_carry_zero R _
  unfold getVaule
  rw [hsum]

/-- The mean, and what the roundings have to do with it. -/
theorem ten_mul_mean (samples : List ℚ) : R.op (R.sum 0 samples / 10) * 10 = samples.sum + roundingGain R samples := by
  have hsum := R.sum_eq 0 samples
  unfold roundingGain
  linarith

theorem between_mean_iff {results : List (Option ℚ)} (hlen : results.length = 10) :
    Between results.reduceOption (R.op (R.sum 0 (carried results) / 10)) ↔ MeanInside R results := by
  have hcount : ((carried results).length : ℚ) + leadingFailures results = 10 := by
    rw [← Nat.cast_add, length_carried, hlen]
    norm_num
  have hmean := ten_mul_mean R (carried results)
  have hexcess : ∀ t, ((carried results).map (· - t)).sum =
      (carried results).sum - 10 * t + leadingFailures results * t := by
    intro t
    rw [sum_map_sub_const, ← hcount]
    ring
  refine and_congr (exists_congr fun lo => and_congr_right fun _ => ?_)
    (exists_congr fun hi => and_congr_right fun _ => ?_)
  · rw [hexcess]
    constructor <;> intro h <;> linarith
  · rw [hexcess]
    constructor <;> intro h <;> linarith

/-- A call that gets no temperature returns what is remembered. -/
theorem getVaule_none (h : s.readings .single log reads = []) :
    s.getVaule .single log reads.1 = (s, s.remembered .single) := by
  have hnil : carried (s.results .single log reads) = [] := by
    refine List.eq_nil_iff_forall_not_mem.mpr fun c hc => ?_
    have := mem_carried hc
    rw [← readings_eq, h] at this
    exact absurd this List.not_mem_nil
  rw [getVaule_spec, hnil, if_neg (by decide +kernel)]

theorem getVaule_remembered (s : CrTemperSensor) (reads : TenReads) :
    (s.getVaule .single log reads.1).1.remembered .single = (s.getVaule .single log reads.1).2 := by
  rw [getVaule_spec]
  split_ifs with h
  · exact if_pos (tenth_gt_small (Arithmetic.single_op_sum (show Arithmetic.single.op 0 = 0 from roundTo_zero 24) _) h)
  · rfl

/-- A call with a reading returns a value between its readings exactly where `CallInside`. -/
theorem between_getVaule_iff (h : s.readings R log reads ≠ []) :
    Between (s.readings R log reads) (s.getVaule R log reads.1).2 ↔ CallInside R log s reads := by
  rw [readings_eq] at h ⊢
  rw [CallInside, or_iff_right h, getVaule_spec]
  split_ifs
  · exact between_mean_iff R (by rw [results, List.length_map, reads.2])
  · rfl

end Call

/-! ## Runs of calls -/

section Calls

open CrTemperSensor

variable (log : ℚ → ℚ) (calcFunc : Option (ℚ → ℚ))

/-- After a history of calls the sensor remembers the value computed last. -/
theorem remembered_afterCalls (s : CrTemperSensor) (history : List TenReads) (last : Option ℚ)
    (h : s.remembered .single = last.getD invalidTemp) :
    (s.afterCalls .single log history).remembered .single =
      (lastComputed .single log s history last).getD invalidTemp := by
  induction history generalizing s last with
  | nil => exact h
  | cons reads rest ih =>
    refine ih (s.getVaule .single log reads.1).1 _ ?_
    split_ifs with hnone
    · rw [getVaule_none log hnone]
      exact h
    · exact getVaule_remembered log s reads

/-- Ten reads of 25.3 degrees: the roundings take the mean above all of them. -/
example : ¬ CallInside .single id (.new (some fun _ => 253 / 10)) ⟨List.replicate 10 (some ⟨0, 0⟩), rfl⟩ := by
  decide +kernel

end Calls

end Cxsw.Sensor
