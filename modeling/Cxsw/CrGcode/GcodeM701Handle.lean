import Cxsw.CrModel.FloatErrors

/-!
# Cxsw.CrGcode.GcodeM701Handle — loading and unloading filament (`CmdM/GcodeM701Handle.cpp`, `CmdM/GcodeM702Handle.cpp`)

`M701` and `M702` raise Z, move the extruder, and bring Z back.  How far Z is raised is limited by `Z_MAX_POS`; where it
is brought back to is computed again from the coordinate that `GetLatestCoord` has then, with a limit of its own.  The
results of all moves are dropped.  Where the hot end has not reached its temperature the handlers wait for it.

* `gcodeM701Exec`, `gcodeM702Exec`: the moves of the commands.
* `ZNeutral`: what they are to leave; `NeutralOk`: when they do.
* `filament_neutral_iff`: exactly then, in single precision and for any moves of the extruder in between.
-/

namespace Cxsw.Filament

open Motion

/-! ## The commands -/

section Defs

/-- `ArgM701_t`, what the handlers read of it. -/
structure ArgM701 where
  hasZ : Bool
  l : ℚ
  z : ℚ

/-- `ArgM702_t`, whose `U` is where `ArgM701_t` has `L`. -/
structure ArgM702 where
  hasZ : Bool
  u : ℚ
  z : ℚ

/-- `(struct ArgM701_t *)ArgPtr` of an `ArgM702_t`. -/
def ArgM702.asM701 (arg : ArgM702) : ArgM701 := ⟨arg.hasZ, arg.u, arg.z⟩

/-- The temperatures of `HotEndArr[0]`. -/
structure HotEnd where
  curTemper : ℚ
  targetTemper : ℚ

/-- `EXTRUDE_MINTEMP`. -/
def extrudeMinTemp : ℚ := 185

def HotEnd.TooCold (h : HotEnd) : Prop := h.curTemper < extrudeMinTemp ∨ h.targetTemper < extrudeMinTemp

instance (h : HotEnd) : Decidable h.TooCold := by
  unfold HotEnd.TooCold
  infer_instance

/-- `Z_MAX_POS`. -/
def zMaxPos : ℚ := 300

/-- `ParkPoint.Z`. -/
def parkPointZ (arg : ArgM701) (isHome : Bool) : ℚ := if arg.hasZ then arg.z else if isHome then 20 else 0

variable (R : Arithmetic)

/-- The height that Z is raised to, and the one that it is brought back to. -/
def raiseZ (parkZ z : ℚ) : ℚ := if R.op (z + parkZ) < zMaxPos then R.op (z + parkZ) else zMaxPos

def lowerZ (parkZ z : ℚ) : ℚ := if R.op (z - parkZ) < 0 then R.op (z - parkZ) else 0

/-- The target that raises Z. -/
def raiseTarget (parkZ : ℚ) : Target := fun latest =>
  ⟨false, Function.update latest .Z (raiseZ R parkZ (latest .Z)), 5⟩

/-- The target that brings Z back. -/
def lowerTarget (parkZ : ℚ) : Target := fun latest =>
  ⟨false, Function.update latest .Z (lowerZ R parkZ (latest .Z)), 5⟩

/-- A target of the extruder. -/
def extrudeTarget (d : ℚ) (retractFlag : Bool) (feedRate : ℚ) : Target := fun latest =>
  ⟨retractFlag, Function.update latest .E (R.op (latest .E + d)), feedRate⟩

/-- `LaodFilament`. -/
def loadFilament (hotEnd : HotEnd) (length : ℚ) (load : Attempt) : List (Attempt × Target) :=
  if hotEnd.TooCold then [] else [(load, extrudeTarget R length false 6)]

/-- `FILAMENT_UNLOAD_RETRACT_LENGTH` and `FILAMENT_UNLOAD_PURGE_LENGTH`. -/
def filamentUnloadRetractLength : ℚ := 13

def filamentUnloadPurgeLength : ℚ := 8

/-- `UnLaodFilament`. -/
def unloadFilament (hotEnd : HotEnd) (length : ℚ) (retract purge unload : Attempt) : List (Attempt × Target) :=
  if hotEnd.TooCold then []
  else
    [(retract, extrudeTarget R (-filamentUnloadRetractLength) true 10),
      (purge, extrudeTarget R (-(filamentUnloadPurgeLength + filamentUnloadRetractLength)) true 10),
      (unload, extrudeTarget R (-length) true 10)]

/-- Moves of the extruder between those of Z. -/
def aroundZ (parkZ : ℚ) (raise lower : Attempt) (extruder : List (Attempt × Target)) : List (Attempt × Target) :=
  (if 0 < parkZ then [(raise, raiseTarget R parkZ)] else []) ++ extruder ++
    if 0 < parkZ then [(lower, lowerTarget R parkZ)] else []

/-- `GcodeM701Exec`. -/
def gcodeM701Exec (arg : ArgM701) (isHome : Bool) (hotEnd : HotEnd) (raise load lower : Attempt) :
    List (Attempt × Target) :=
  aroundZ R (parkPointZ arg isHome) raise lower (loadFilament R hotEnd arg.l load)

/-- `GcodeM702Exec`. -/
def gcodeM702Exec (arg : ArgM702) (isHome : Bool) (hotEnd : HotEnd) (raise retract purge unload lower : Attempt) :
    List (Attempt × Target) :=
  let param := arg.asM701
  aroundZ R (parkPointZ param isHome) raise lower (unloadFilament R hotEnd param.l retract purge unload)

/-- A call that was made, and the motion after it. -/
structure FloatPut where
  attempt : Attempt
  coord : MotionGcode
  after : FloatMotion

/-- The calls of a handler. -/
def puts : FloatMotion → List (Attempt × Target) → List FloatPut
  | _, [] => []
  | s, (a, target) :: rest =>
    ⟨a, target s.latestCoord, s.put R a (target s.latestCoord)⟩ :: puts (s.put R a (target s.latestCoord)) rest

/-- The motion after them. -/
def afterPuts : FloatMotion → List (Attempt × Target) → FloatMotion
  | s, [] => s
  | s, (a, target) :: rest => afterPuts (s.put R a (target s.latestCoord)) rest

/-- What a command is to leave: no steps of Z in the end and its coordinate as it was, X and Y as they were, no target
of Z below the first coordinate, and no steps of the extruder if it is too cold. -/
def ZNeutral (s : FloatMotion) (tooCold : Prop) (calls : List (Attempt × Target)) : Prop :=
  let t := afterPuts R s calls
  (t.plannedSteps .Z = s.plannedSteps .Z ∧ t.latestCoord .Z = s.latestCoord .Z) ∧
    (∀ a, a = .X ∨ a = .Y → t.plannedSteps a = s.plannedSteps a ∧ t.latestCoord a = s.latestCoord a) ∧
    (∀ p ∈ puts R s calls, p.attempt.Accepts → s.latestCoord .Z ≤ p.coord.coord .Z) ∧
    (tooCold → ∀ p ∈ puts R s calls, p.after.plannedSteps .E = s.plannedSteps .E)

/-- One of the calls is accepted. -/
def AnyAccepted (calls : List (Attempt × Target)) : Prop := ∃ c ∈ calls, c.1.Accepts

/-- The whole steps of a way of Z, for the steppers of a call. -/
def zSteps (a : Attempt) (current target : ℚ) : ℤ :=
  match a.taken with
  | none => 0
  | some attr => lineStepsAt R a.planner.feedrate.flowRatio (disAt R current target) (attr .Z).stepsPerMm .Z

/-- Where the correction lets it end. -/
def zCorrected (a : Attempt) (r : Remainder) (current target : ℚ) : ℚ × Remainder :=
  match a.taken with
  | none => (0, r)
  | some attr => correctZAt R (attr .Z).stepsPerMm r current target

/-- Z comes back from the way down that starts at `raised`, behind `up` steps: its first coordinate `z` is not above
zero, the park distance below `raised` does not lie below it, and the way down has the same steps and ends there. -/
def ComesBack (unit : MotionUnitType) (parkZ z : ℚ) (up : ℤ) (raised : ℚ) (r : Remainder) (lower : Attempt) : Prop :=
  let current := inMmAt R unit raised
  let target := inMmAt R unit (lowerZ R parkZ raised)
  z ≤ 0 ∧ z ≤ R.op (raised - parkZ) ∧ up + zSteps R lower current target = 0 ∧
    (zCorrected R lower r current target).1 = z

/-- When a command leaves all that: no accepted call has coordinates in inches to convert; if the way up is accepted, Z
comes back, or the way up leads nowhere and the way down is refused; and if it is not, `OldTarget.Z` is up to date where
it is read, and a way down leads nowhere. -/
def NeutralOk (s : FloatMotion) (parkZ : ℚ) (raise lower : Attempt) (extruder : List (Attempt × Target)) : Prop :=
  let z := s.latestCoord .Z
  let unit := s.motionUnit
  let top := inMmAt R unit (raiseZ R parkZ z)
  let up := zSteps R raise (inMmAt R unit z) top
  let raised := zCorrected R raise s.remainder (inMmAt R unit z) top
  (unit = .millimeter ∨ s.latestCoord .X = 0 ∧ s.latestCoord .Y = 0 ∨
    ¬AnyAccepted (aroundZ R parkZ raise lower extruder)) ∧
    if 0 < parkZ ∧ raise.Accepts then
      if lower.Accepts then ComesBack R unit parkZ z up raised.1 raised.2 lower
      else z ≤ zMaxPos ∧ up = 0 ∧ raised.1 = z
    else if 0 < parkZ ∧ lower.Accepts then
      ∃ z', (AnyAccepted extruder ∧ z' = s.remainder.oldTarget ∨ ¬AnyAccepted extruder ∧ z' = z) ∧
        ComesBack R unit parkZ z 0 z' s.remainder lower
    else AnyAccepted extruder → s.remainder.oldTarget = z

end Defs

/-! ## Calls that leave X and Y -/

section XY

variable {R : Arithmetic} {s : FloatMotion} {calls : List (Attempt × Target)}

/-- The targets leave an axis. -/
def Leaves (a : Axis) (calls : List (Attempt × Target)) : Prop :=
  ∀ c ∈ calls, ∀ latest : Axis → ℚ, (c.2 latest).coord a = latest a

theorem Leaves.append {a : Axis} {calls calls' : List (Attempt × Target)} (h : Leaves a calls) (h' : Leaves a calls') :
    Leaves a (calls ++ calls') := by
  intro c hc
  rcases List.mem_append.mp hc with hc | hc
  · exact h c hc
  · exact h' c hc

theorem Leaves.ite {a : Axis} {p : Prop} [Decidable p] {c : Attempt × Target}
    (h : ∀ latest : Axis → ℚ, (c.2 latest).coord a = latest a) : Leaves a (if p then [c] else []) := by
  split_ifs
  · intro d hd
    rw [List.mem_singleton.mp hd]
    exact h
  · exact fun d hd => absurd hd List.not_mem_nil

theorem afterPuts_append (s : FloatMotion) (calls calls' : List (Attempt × Target)) :
    afterPuts R s (calls ++ calls') = afterPuts R (afterPuts R s calls) calls' := by
  induction calls generalizing s with
  | nil => rfl
  | cons c calls ih => exact ih _

theorem puts_append (s : FloatMotion) (calls calls' : List (Attempt × Target)) :
    puts R s (calls ++ calls') = puts R s calls ++ puts R (afterPuts R s calls) calls' := by
  induction calls generalizing s with
  | nil => rfl
  | cons c calls ih => exact congrArg (List.cons _) (ih _)

theorem afterPuts_motionUnit : ∀ (s : FloatMotion) (calls : List (Attempt × Target)),
    (afterPuts R s calls).motionUnit = s.motionUnit
  | _, [] => rfl
  | s, (a, target) :: calls => by
    rw [afterPuts, afterPuts_motionUnit, FloatMotion.put_motionUnit]

/-- **An axis that all targets leave**: nothing is planned on it; its coordinate is converted by each accepted call. -/
theorem afterPuts_still {a : Axis} (ha : a ≠ .Z) : ∀ {calls : List (Attempt × Target)} {s : FloatMotion},
    s.IsFloat .single → Leaves a calls → (afterPuts .single s calls).plannedSteps a = s.plannedSteps a ∧
      (afterPuts .single s calls).latestCoord a =
        (inMmAt .single s.motionUnit)^[calls.countP fun c => c.1.Accepts] (s.latestCoord a)
  | [], s, _, _ => ⟨rfl, rfl⟩
  | (b, target) :: calls, s, hs, h => by
    have hrest : Leaves a calls := fun c hc => h c (List.mem_cons_of_mem _ hc)
    obtain ⟨hplanned, hlatest⟩ := @afterPuts_still a ha calls (s.put .single b (target s.latestCoord)) hs.put hrest
    rw [afterPuts, hplanned, hlatest, FloatMotion.put_motionUnit]
    by_cases hacc : b.Accepts
    · obtain ⟨hsame, hone⟩ := FloatMotion.put_still hs hacc ha (h _ List.mem_cons_self s.latestCoord)
      have hcount : ((b, target) :: calls).countP (fun c => c.1.Accepts) = calls.countP (fun c => c.1.Accepts) + 1 := by
        simp [hacc]
      rw [hone, hsame, hcount, Function.iterate_succ_apply]
      exact ⟨rfl, rfl⟩
    · have hcount : ((b, target) :: calls).countP (fun c => c.1.Accepts) = calls.countP (fun c => c.1.Accepts) := by
        simp [hacc]
      rw [FloatMotion.put_refused hacc, hcount]
      exact ⟨rfl, rfl⟩

theorem puts_still {a : Axis} (ha : a ≠ .Z) : ∀ {calls : List (Attempt × Target)} {s : FloatMotion},
    s.IsFloat .single → Leaves a calls → ∀ p ∈ puts .single s calls, p.after.plannedSteps a = s.plannedSteps a
  | [], _, _, _, _, hp => absurd hp List.not_mem_nil
  | (b, target) :: calls, s, hs, h, p, hp => by
    have hone : (s.put .single b (target s.latestCoord)).plannedSteps a = s.plannedSteps a :=
      (@afterPuts_still a ha [(b, target)] s hs fun c hc => by
        rw [List.mem_singleton.mp hc]
        exact h _ List.mem_cons_self).1
    rcases List.mem_cons.mp hp with rfl | hp
    · exact hone
    · exact (puts_still ha hs.put (fun c hc => h c (List.mem_cons_of_mem _ hc)) p hp).trans hone

theorem roundTo_double {p q : ℕ} (hp : 0 < p) (hpq : p ≤ q) {x : ℚ} (hx : roundTo p x = x) :
    roundTo q (2 * x) = 2 * x := by
  obtain ⟨m, k, hm, hgrid⟩ := exists_grid p x
  rw [hx] at hgrid
  rw [hgrid, show 2 * ((m : ℚ) * 2 ^ k) = m * 2 ^ (k + 1) by rw [zpow_add_one₀ (by norm_num)]; ring]
  exact roundTo_of_grid (hp.trans_le hpq) (hm.trans (pow_le_pow_right₀ (by norm_num) hpq))

/-- The millimeters of a coordinate in inches are at least twice as many. -/
theorem two_mul_le_inMmAt {x : ℚ} (hx : Arithmetic.single.op x = x) : 2 * |x| ≤ |inMmAt .single .inch x| := by
  have hpos : ∀ y : ℚ, roundTo 24 y = y → 0 ≤ y → 2 * y ≤ inMmAt .single .inch y := by
    intro y hy h0
    have hconst : (2 : ℚ) ≤ roundTo 53 (254 / 10) := const_bounds.2.2.1
    have hle : 2 * y ≤ y * roundTo 53 (254 / 10) := by
      rw [mul_comm 2 y]
      exact mul_le_mul_of_nonneg_left hconst h0
    have h2 : 0 ≤ 2 * y := by linarith
    calc 2 * y = roundTo 24 (roundTo 53 (2 * y)) := by
          rw [roundTo_double (by norm_num) (by norm_num) hy, roundTo_double (by norm_num) le_rfl hy]
      _ ≤ roundTo 24 (roundTo 53 (y * roundTo 53 (254 / 10))) := by
          have hdouble := roundTo_double (q := 53) (by norm_num) (by norm_num) hy
          refine roundTo_mono (by norm_num) (by rw [hdouble]; exact h2) ?_
          exact roundTo_mono (by norm_num) h2 hle
  rcases le_total 0 x with h | h
  · rw [abs_of_nonneg h]
    exact (hpos x hx h).trans (le_abs_self _)
  · have hneg : roundTo 24 (-x) = -x := by rw [roundTo_neg]; exact congrArg Neg.neg hx
    have hodd : inMmAt .single .inch (-x) = -inMmAt .single .inch x := by
      show roundTo 24 (roundTo 53 (-x * _)) = -roundTo 24 (roundTo 53 (x * _))
      rw [neg_mul, roundTo_neg, roundTo_neg]
    rw [abs_of_nonpos h]
    have hle := hpos (-x) hneg (by linarith)
    rw [hodd] at hle
    exact hle.trans (neg_le_abs _)

/-- The coordinate stays exactly in millimeters, at zero, or if no call is accepted. -/
theorem iterate_inMmAt_eq_iff {x : ℚ} (hx : Arithmetic.single.op x = x) (unit : MotionUnitType) (n : ℕ) :
    (inMmAt .single unit)^[n] x = x ↔ unit = .millimeter ∨ x = 0 ∨ n = 0 := by
  cases unit with
  | millimeter =>
    have hid : inMmAt .single .millimeter = id := rfl
    simp [hid]
  | inch =>
    have hgrows : ∀ k, Arithmetic.single.op ((inMmAt .single .inch)^[k] x) = (inMmAt .single .inch)^[k] x ∧
        2 ^ k * |x| ≤ |(inMmAt .single .inch)^[k] x| := by
      intro k
      induction k with
      | zero => simp [hx]
      | succ k ih =>
        rw [Function.iterate_succ_apply']
        refine ⟨single_op_assign _, ?_⟩
        have hdouble := two_mul_le_inMmAt ih.1
        rw [pow_succ]
        linarith [ih.2]
    constructor
    · intro h
      by_contra hnot
      obtain ⟨-, hne, hn⟩ : ¬MotionUnitType.inch = .millimeter ∧ x ≠ 0 ∧ n ≠ 0 := by simpa using hnot
      have hle := (hgrows n).2
      rw [h] at hle
      have hpow : (2 : ℚ) ≤ 2 ^ n := le_self_pow₀ (by norm_num) hn
      nlinarith [abs_pos.mpr hne]
    · rintro (h | rfl | rfl)
      · cases h
      · have hzero : inMmAt .single .inch 0 = 0 := by
          show roundTo 24 (roundTo 53 (0 * _)) = 0
          rw [zero_mul, roundTo_zero, roundTo_zero]
        exact Function.iterate_fixed hzero n
      · rfl

theorem countP_eq_zero_iff : (calls.countP fun c => c.1.Accepts) = 0 ↔ ¬AnyAccepted calls := by
  simp [List.countP_eq_zero, AnyAccepted]

/-- X and Y are as they were exactly in millimeters, at zero, or if no call is accepted. -/
theorem xy_iff (hs : s.IsFloat .single) (hX : Leaves .X calls) (hY : Leaves .Y calls) :
    (∀ a, a = .X ∨ a = .Y → (afterPuts .single s calls).plannedSteps a = s.plannedSteps a ∧
      (afterPuts .single s calls).latestCoord a = s.latestCoord a) ↔
      (s.motionUnit = .millimeter ∨ s.latestCoord .X = 0 ∧ s.latestCoord .Y = 0 ∨ ¬AnyAccepted calls) := by
  have hone : ∀ a, a ≠ .Z → Leaves a calls → ((afterPuts .single s calls).plannedSteps a = s.plannedSteps a ∧
      (afterPuts .single s calls).latestCoord a = s.latestCoord a ↔
        s.motionUnit = .millimeter ∨ s.latestCoord a = 0 ∨ ¬AnyAccepted calls) := by
    intro a ha hleaves
    obtain ⟨hplanned, hlatest⟩ := afterPuts_still ha hs hleaves
    rw [hplanned, hlatest, and_iff_right rfl, iterate_inMmAt_eq_iff (hs.latestCoord a), countP_eq_zero_iff]
  constructor
  · intro h
    have hx := (hone .X (by decide) hX).mp (h .X (Or.inl rfl))
    have hy := (hone .Y (by decide) hY).mp (h .Y (Or.inr rfl))
    tauto
  · rintro h a (rfl | rfl)
    · exact (hone .X (by decide) hX).mpr (by tauto)
    · exact (hone .Y (by decide) hY).mpr (by tauto)

end XY

/-! ## Calls that leave Z -/

section Z

variable {s : FloatMotion} {calls : List (Attempt × Target)}

/-- **Calls that leave Z**: nothing is planned on it; once one is accepted its coordinate is `OldTarget.Z`. -/
theorem afterPuts_z_still : ∀ {calls : List (Attempt × Target)} {s : FloatMotion}, Leaves .Z calls →
    (afterPuts .single s calls).plannedSteps .Z = s.plannedSteps .Z ∧
      (afterPuts .single s calls).remainder = s.remainder ∧
      (AnyAccepted calls → (afterPuts .single s calls).latestCoord .Z = s.remainder.oldTarget) ∧
      (¬AnyAccepted calls → (afterPuts .single s calls).latestCoord .Z = s.latestCoord .Z)
  | [], s, _ => ⟨rfl, rfl, fun ⟨_, hc, _⟩ => absurd hc List.not_mem_nil, fun _ => rfl⟩
  | (b, target) :: calls, s, h => by
    have hrest : Leaves .Z calls := fun c hc => h c (List.mem_cons_of_mem _ hc)
    obtain ⟨hplanned, hremainder, hany, hnone⟩ :=
      @afterPuts_z_still calls (s.put .single b (target s.latestCoord)) hrest
    rw [afterPuts, hplanned, hremainder]
    by_cases hacc : b.Accepts
    · obtain ⟨hz, hr, hp⟩ := FloatMotion.put_z_still (s := s) hacc (h _ List.mem_cons_self s.latestCoord)
      rw [hr] at hany
      rw [hz] at hnone
      refine ⟨hp, hr, fun _ => ?_, fun hno => absurd ⟨_, List.mem_cons_self, hacc⟩ hno⟩
      by_cases hlater : AnyAccepted calls
      · exact hany hlater
      · exact hnone hlater
    · have hiff : AnyAccepted ((b, target) :: calls) ↔ AnyAccepted calls := by
        simp [AnyAccepted, hacc]
      rw [FloatMotion.put_refused hacc] at hany hnone
      rw [hiff, FloatMotion.put_refused hacc]
      exact ⟨rfl, rfl, hany, hnone⟩

theorem puts_z_still {height : ℚ} : ∀ {calls : List (Attempt × Target)} {s : FloatMotion}, Leaves .Z calls →
    height ≤ s.latestCoord .Z → (AnyAccepted calls → height ≤ s.remainder.oldTarget) →
      ∀ p ∈ puts .single s calls, p.attempt.Accepts → height ≤ p.coord.coord .Z
  | [], _, _, _, _, _, hp, _ => absurd hp List.not_mem_nil
  | (b, target) :: calls, s, h, hz, hold, p, hp, hacc => by
    have hrest : Leaves .Z calls := fun c hc => h c (List.mem_cons_of_mem _ hc)
    have hcoord := h _ List.mem_cons_self s.latestCoord
    rcases List.mem_cons.mp hp with rfl | hp
    · exact hz.trans hcoord.ge
    · refine puts_z_still hrest ?_ ?_ p hp hacc
      · by_cases hb : b.Accepts
        · rw [(FloatMotion.put_z_still hb hcoord).1]
          exact hold ⟨_, List.mem_cons_self, hb⟩
        · rw [FloatMotion.put_refused hb]
          exact hz
      · rintro ⟨c, hc, hacc⟩
        have hr : (s.put .single b (target s.latestCoord)).remainder = s.remainder :=
          (@afterPuts_z_still [(b, target)] s fun c hc => by
            rw [List.mem_singleton.mp hc]
            exact h _ List.mem_cons_self).2.1
        rw [hr]
        exact hold ⟨c, List.mem_cons_of_mem _ hc, hacc⟩

end Z

/-! ## Up and down -/

section UpDown

variable {s : FloatMotion} {parkZ : ℚ} {raise lower : Attempt} {extruder : List (Attempt × Target)}

/-- What is planned for Z comes back, and no target is below the first coordinate. -/
def ZReturns (s : FloatMotion) (calls : List (Attempt × Target)) : Prop :=
  ((afterPuts .single s calls).plannedSteps .Z = s.plannedSteps .Z ∧
    (afterPuts .single s calls).latestCoord .Z = s.latestCoord .Z) ∧
    ∀ p ∈ puts .single s calls, p.attempt.Accepts → s.latestCoord .Z ≤ p.coord.coord .Z

theorem put_z {a : Attempt} {c : MotionGcode} (hacc : a.Accepts) :
    let current := inMmAt .single s.motionUnit (s.latestCoord .Z)
    let target := inMmAt .single s.motionUnit (c.coord .Z)
    (s.put .single a c).latestCoord .Z = (zCorrected .single a s.remainder current target).1 ∧
      (s.put .single a c).remainder = (zCorrected .single a s.remainder current target).2 ∧
      (s.put .single a c).plannedSteps .Z = s.plannedSteps .Z + zSteps .single a current target := by
  obtain ⟨attr, htaken⟩ := taken_of_accepts hacc
  obtain ⟨hz, hr⟩ := @FloatMotion.put_z .single s a c attr htaken
  unfold zCorrected zSteps
  rw [htaken]
  refine ⟨hz, hr, ?_⟩
  rw [FloatMotion.put_steps htaken]
  rfl

theorem zCorrected_isFloat {a : Attempt} {r : Remainder} {current target : ℚ}
    (h : Arithmetic.single.op r.oldTarget = r.oldTarget) (hacc : a.Accepts) :
    Arithmetic.single.op (zCorrected .single a r current target).1 = (zCorrected .single a r current target).1 ∧
      (zCorrected .single a r current target).2.oldTarget = (zCorrected .single a r current target).1 := by
  obtain ⟨attr, htaken⟩ := taken_of_accepts hacc
  unfold zCorrected
  rw [htaken]
  exact correctZAt_isFloat h

theorem raiseTarget_z (R : Arithmetic) (parkZ : ℚ) (latest : Axis → ℚ) :
    (raiseTarget R parkZ latest).coord .Z = raiseZ R parkZ (latest .Z) := by
  unfold raiseTarget
  dsimp only
  rw [Function.update_self]

theorem lowerTarget_z (R : Arithmetic) (parkZ : ℚ) (latest : Axis → ℚ) :
    (lowerTarget R parkZ latest).coord .Z = lowerZ R parkZ (latest .Z) := by
  unfold lowerTarget
  dsimp only
  rw [Function.update_self]

theorem le_raiseZ_iff {z : ℚ} (hz : Arithmetic.single.op z = z) (hpark : 0 < parkZ) :
    z ≤ raiseZ .single parkZ z ↔ z ≤ zMaxPos := by
  have hle : z ≤ Arithmetic.single.op (z + parkZ) := by
    have hmono := Arithmetic.single.op_le (show z ≤ z + parkZ by linarith)
    rwa [hz] at hmono
  unfold raiseZ
  split_ifs with hlt
  · exact iff_of_true hle (hle.trans hlt.le)
  · exact Iff.rfl

theorem le_lowerZ_iff {z raised : ℚ} :
    z ≤ lowerZ .single parkZ raised ↔ z ≤ 0 ∧ z ≤ Arithmetic.single.op (raised - parkZ) := by
  unfold lowerZ
  split_ifs with hlt
  · exact ⟨fun h => ⟨h.trans hlt.le, h⟩, fun h => h.2⟩
  · exact ⟨fun h => ⟨h, h.trans (not_lt.mp hlt)⟩, fun h => h.1⟩

theorem le_of_le_lowered {z raised : ℚ} (hraised : Arithmetic.single.op raised = raised) (hpark : 0 < parkZ)
    (h : z ≤ Arithmetic.single.op (raised - parkZ)) : z ≤ raised := by
  have hmono := Arithmetic.single.op_le (show raised - parkZ ≤ raised by linarith)
  rw [hraised] at hmono
  exact h.trans hmono

/-- Z before the way down, where the way up was accepted. -/
theorem raised_extruded (hs : s.IsFloat .single) (hraise : raise.Accepts) (he : Leaves .Z extruder) :
    let current := inMmAt .single s.motionUnit (s.latestCoord .Z)
    let target := inMmAt .single s.motionUnit (raiseZ .single parkZ (s.latestCoord .Z))
    let t := afterPuts .single s ((raise, raiseTarget .single parkZ) :: extruder)
    t.latestCoord .Z = (zCorrected .single raise s.remainder current target).1 ∧
      t.remainder = (zCorrected .single raise s.remainder current target).2 ∧
      t.plannedSteps .Z = s.plannedSteps .Z + zSteps .single raise current target := by
  have hput := @put_z s raise (raiseTarget .single parkZ s.latestCoord) hraise
  rw [raiseTarget_z] at hput
  obtain ⟨hz, hr, hp⟩ := hput
  obtain ⟨hplanned, hremainder, hany, hnone⟩ := @afterPuts_z_still extruder
    (s.put .single raise (raiseTarget .single parkZ s.latestCoord)) he
  intro current target t
  refine ⟨?_, hremainder.trans hr, hplanned.trans hp⟩
  by_cases hex : AnyAccepted extruder
  · refine (hany hex).trans ?_
    rw [hr]
    exact (zCorrected_isFloat hs.oldTarget hraise).2
  · exact (hnone hex).trans hz

theorem targets_iff {height : ℚ} {calls : List (Attempt × Target)} :
    (∀ p ∈ puts .single s (calls ++ [(lower, lowerTarget .single parkZ)]),
      p.attempt.Accepts → height ≤ p.coord.coord .Z) ↔
    (∀ p ∈ puts .single s calls, p.attempt.Accepts → height ≤ p.coord.coord .Z) ∧
      (lower.Accepts → height ≤ lowerZ .single parkZ ((afterPuts .single s calls).latestCoord .Z)) := by
  rw [puts_append]
  simp only [puts, List.forall_mem_append, List.forall_mem_cons, List.not_mem_nil, false_imp_iff, implies_true,
    and_true]
  rw [← lowerTarget_z]

/-- **The way down is accepted**, behind calls after which Z is at `raised`. -/
theorem lowered_returns_iff (hlower : lower.Accepts) {calls : List (Attempt × Target)} {raised : ℚ} {r : Remainder}
    {up : ℤ} (hz : (afterPuts .single s calls).latestCoord .Z = raised)
    (hr : (afterPuts .single s calls).remainder = r)
    (hup : (afterPuts .single s calls).plannedSteps .Z = s.plannedSteps .Z + up)
    (htargets : s.latestCoord .Z ≤ 0 → s.latestCoord .Z ≤ Arithmetic.single.op (raised - parkZ) →
      ∀ p ∈ puts .single s calls, p.attempt.Accepts → s.latestCoord .Z ≤ p.coord.coord .Z) :
    ZReturns s (calls ++ [(lower, lowerTarget .single parkZ)]) ↔
      ComesBack .single s.motionUnit parkZ (s.latestCoord .Z) up raised r lower := by
  have hput := @put_z (afterPuts .single s calls) lower
    (lowerTarget .single parkZ (afterPuts .single s calls).latestCoord) hlower
  rw [lowerTarget_z, afterPuts_motionUnit, hz, hr, hup] at hput
  obtain ⟨hlast, -, hplanned⟩ := hput
  unfold ZReturns ComesBack
  rw [targets_iff, afterPuts_append, forall_prop_of_true hlower, hz, le_lowerZ_iff]
  show ((FloatMotion.put .single _ lower (lowerTarget .single parkZ _)).plannedSteps .Z = _ ∧
    (FloatMotion.put .single _ lower (lowerTarget .single parkZ _)).latestCoord .Z = _) ∧ _ ↔ _
  rw [hplanned, hlast, add_assoc, add_eq_left]
  constructor
  · rintro ⟨⟨hsum, hback⟩, -, h0, hle⟩
    exact ⟨h0, hle, hsum, hback⟩
  · rintro ⟨h0, hle, hsum, hback⟩
    exact ⟨⟨hsum, hback⟩, htargets h0 hle, h0, hle⟩

theorem refused_returns_iff (hlower : ¬lower.Accepts) {calls : List (Attempt × Target)} :
    ZReturns s (calls ++ [(lower, lowerTarget .single parkZ)]) ↔ ZReturns s calls := by
  unfold ZReturns
  rw [targets_iff, afterPuts_append, forall_prop_of_false hlower, and_true]
  show ((FloatMotion.put .single _ lower _).plannedSteps .Z = _ ∧
    (FloatMotion.put .single _ lower _).latestCoord .Z = _) ∧ _ ↔ _
  rw [FloatMotion.put_refused hlower]

theorem raised_targets_iff (hs : s.IsFloat .single) (hpark : 0 < parkZ) (hraise : raise.Accepts)
    (he : Leaves .Z extruder)
    (hle : s.latestCoord .Z ≤
      (afterPuts .single s ((raise, raiseTarget .single parkZ) :: extruder)).latestCoord .Z) :
    (∀ p ∈ puts .single s ((raise, raiseTarget .single parkZ) :: extruder), p.attempt.Accepts →
      s.latestCoord .Z ≤ p.coord.coord .Z) ↔ s.latestCoord .Z ≤ zMaxPos := by
  obtain ⟨hz, hr, -⟩ := @raised_extruded s parkZ raise [] hs hraise fun c hc => absurd hc List.not_mem_nil
  have hsame : (s.put .single raise (raiseTarget .single parkZ s.latestCoord)).latestCoord .Z =
      (afterPuts .single s ((raise, raiseTarget .single parkZ) :: extruder)).latestCoord .Z :=
    hz.trans (@raised_extruded s parkZ raise extruder hs hraise he).1.symm
  have hold : (s.put .single raise (raiseTarget .single parkZ s.latestCoord)).remainder.oldTarget =
      (s.put .single raise (raiseTarget .single parkZ s.latestCoord)).latestCoord .Z := by
    refine (congrArg Remainder.oldTarget hr).trans (Eq.trans ?_ hz.symm)
    exact (zCorrected_isFloat hs.oldTarget hraise).2
  have hrest : ∀ p ∈ puts .single (s.put .single raise (raiseTarget .single parkZ s.latestCoord)) extruder,
      p.attempt.Accepts → s.latestCoord .Z ≤ p.coord.coord .Z :=
    puts_z_still he (hle.trans hsame.ge) fun _ => (hle.trans hsame.ge).trans (le_of_eq hold.symm)
  rw [puts, List.forall_mem_cons, and_iff_left hrest]
  dsimp only
  rw [forall_prop_of_true hraise, raiseTarget_z, le_raiseZ_iff (hs.latestCoord .Z) hpark]

/-- **Z**: it comes back exactly under the condition. -/
theorem raised_returns_iff (hs : s.IsFloat .single) (hpark : 0 < parkZ) (hraise : raise.Accepts)
    (he : Leaves .Z extruder) :
    ZReturns s ((raise, raiseTarget .single parkZ) :: extruder) ↔
      s.latestCoord .Z ≤ zMaxPos ∧
      zSteps .single raise (inMmAt .single s.motionUnit (s.latestCoord .Z))
        (inMmAt .single s.motionUnit (raiseZ .single parkZ (s.latestCoord .Z))) = 0 ∧
      (zCorrected .single raise s.remainder (inMmAt .single s.motionUnit (s.latestCoord .Z))
        (inMmAt .single s.motionUnit (raiseZ .single parkZ (s.latestCoord .Z)))).1 = s.latestCoord .Z := by
  obtain ⟨hz, -, hp⟩ := @raised_extruded s parkZ raise extruder hs hraise he
  unfold ZReturns
  rw [hp, add_eq_left, hz]
  constructor
  · rintro ⟨⟨hsum, hback⟩, htargets⟩
    exact ⟨(raised_targets_iff hs hpark hraise he (hz.trans hback).ge).mp htargets, hsum, hback⟩
  · rintro ⟨hmax, hsum, hback⟩
    exact ⟨⟨hsum, hback⟩, (raised_targets_iff hs hpark hraise he (hz.trans hback).ge).mpr hmax⟩

theorem extruded_returns_iff (he : Leaves .Z extruder) : ZReturns s extruder ↔
    (AnyAccepted extruder → s.remainder.oldTarget = s.latestCoord .Z) := by
  obtain ⟨hplanned, -, hany, hnone⟩ := @afterPuts_z_still extruder s he
  unfold ZReturns
  rw [hplanned, and_iff_right rfl]
  constructor
  · rintro ⟨hback, -⟩ hex
    exact (hany hex).symm.trans hback
  · intro hold
    constructor
    · by_cases hex : AnyAccepted extruder
      · exact (hany hex).trans (hold hex)
      · exact hnone hex
    · exact puts_z_still he le_rfl fun hex => (hold hex).ge

theorem zReturns_cons {target : Target} (hraise : ¬raise.Accepts) {calls : List (Attempt × Target)} :
    ZReturns s ((raise, target) :: calls) ↔ ZReturns s calls := by
  unfold ZReturns
  rw [afterPuts, puts, List.forall_mem_cons, FloatMotion.put_refused hraise]
  dsimp only
  rw [forall_prop_of_false hraise, true_and]

/-- **Both moves of Z are accepted**: Z comes back exactly under the condition. -/
theorem both_returns_iff (hs : s.IsFloat .single) (hpark : 0 < parkZ) (hraise : raise.Accepts)
    (hlower : lower.Accepts) (he : Leaves .Z extruder) :
    let current := inMmAt .single s.motionUnit (s.latestCoord .Z)
    let top := inMmAt .single s.motionUnit (raiseZ .single parkZ (s.latestCoord .Z))
    let raised := zCorrected .single raise s.remainder current top
    ZReturns s ((raise, raiseTarget .single parkZ) :: extruder ++ [(lower, lowerTarget .single parkZ)]) ↔
      ComesBack .single s.motionUnit parkZ (s.latestCoord .Z) (zSteps .single raise current top) raised.1 raised.2
        lower := by
  obtain ⟨hz, hr, hp⟩ := @raised_extruded s parkZ raise extruder hs hraise he
  intro current top raised
  refine lowered_returns_iff hlower hz hr hp fun h0 hle => ?_
  have hfloat := (@zCorrected_isFloat raise s.remainder current top hs.oldTarget hraise).1
  have hraised : s.latestCoord .Z ≤ raised.1 := le_of_le_lowered hfloat hpark hle
  exact (raised_targets_iff hs hpark hraise he (hraised.trans hz.ge)).mpr
    (h0.trans (by norm_num [zMaxPos]))

/-- **Only the way down is accepted**. -/
theorem only_lowered_returns_iff (hs : s.IsFloat .single) (hpark : 0 < parkZ) (hlower : lower.Accepts)
    (he : Leaves .Z extruder) :
    ZReturns s (extruder ++ [(lower, lowerTarget .single parkZ)]) ↔
      ∃ z', (AnyAccepted extruder ∧ z' = s.remainder.oldTarget ∨ ¬AnyAccepted extruder ∧ z' = s.latestCoord .Z) ∧
        ComesBack .single s.motionUnit parkZ (s.latestCoord .Z) 0 z' s.remainder lower := by
  obtain ⟨hplanned, hremainder, hany, hnone⟩ := @afterPuts_z_still extruder s he
  have hbefore : ∀ z', Arithmetic.single.op z' = z' → (afterPuts .single s extruder).latestCoord .Z = z' →
      (AnyAccepted extruder → s.remainder.oldTarget = z') →
      (ZReturns s (extruder ++ [(lower, lowerTarget .single parkZ)]) ↔
        ComesBack .single s.motionUnit parkZ (s.latestCoord .Z) 0 z' s.remainder lower) := by
    intro z' hfloat hz hold
    refine lowered_returns_iff hlower hz hremainder (by rw [hplanned, add_zero]) fun _ hle => ?_
    exact puts_z_still he le_rfl fun hex => (le_of_le_lowered hfloat hpark hle).trans (hold hex).ge
  by_cases hex : AnyAccepted extruder
  · rw [hbefore _ hs.oldTarget (hany hex) fun _ => rfl]
    simp [hex]
  · rw [hbefore _ (hs.latestCoord .Z) (hnone hex) fun h => absurd h hex]
    simp [hex]

/-- **Z**: it comes back exactly under the condition. -/
theorem z_returns_iff (hs : s.IsFloat .single) (he : Leaves .Z extruder) :
    let z := s.latestCoord .Z
    let top := inMmAt .single s.motionUnit (raiseZ .single parkZ z)
    let up := zSteps .single raise (inMmAt .single s.motionUnit z) top
    let raised := zCorrected .single raise s.remainder (inMmAt .single s.motionUnit z) top
    ZReturns s (aroundZ .single parkZ raise lower extruder) ↔
      if 0 < parkZ ∧ raise.Accepts then
        if lower.Accepts then ComesBack .single s.motionUnit parkZ z up raised.1 raised.2 lower
        else z ≤ zMaxPos ∧ up = 0 ∧ raised.1 = z
      else if 0 < parkZ ∧ lower.Accepts then
        ∃ z', (AnyAccepted extruder ∧ z' = s.remainder.oldTarget ∨ ¬AnyAccepted extruder ∧ z' = z) ∧
          ComesBack .single s.motionUnit parkZ z 0 z' s.remainder lower
      else AnyAccepted extruder → s.remainder.oldTarget = z := by
  intro z top up raised
  unfold aroundZ
  by_cases hpark : 0 < parkZ
  · rw [if_pos hpark, if_pos hpark]
    show ZReturns s ((raise, raiseTarget .single parkZ) :: extruder ++ [(lower, lowerTarget .single parkZ)]) ↔ _
    by_cases hraise : raise.Accepts
    · rw [if_pos ⟨hpark, hraise⟩]
      by_cases hlower : lower.Accepts
      · rw [if_pos hlower]
        exact both_returns_iff hs hpark hraise hlower he
      · rw [if_neg hlower, refused_returns_iff hlower]
        exact raised_returns_iff hs hpark hraise he
    · rw [if_neg fun h => hraise h.2, List.cons_append, zReturns_cons hraise]
      by_cases hlower : lower.Accepts
      · rw [if_pos ⟨hpark, hlower⟩]
        exact only_lowered_returns_iff hs hpark hlower he
      · rw [if_neg fun h => hlower h.2, refused_returns_iff hlower]
        exact extruded_returns_iff he
  · rw [if_neg hpark, if_neg hpark, if_neg fun h => hpark h.1, if_neg fun h => hpark h.1, List.nil_append,
      List.append_nil]
    exact extruded_returns_iff he

end UpDown

/-! ## The result -/

section Result

variable {s : FloatMotion} {parkZ : ℚ} {raise lower : Attempt} {extruder : List (Attempt × Target)}

theorem leaves_around {R : Arithmetic} {a : Axis} (ha : a ≠ .Z) (he : Leaves a extruder) :
    Leaves a (aroundZ R parkZ raise lower extruder) := by
  unfold aroundZ
  refine (Leaves.append (Leaves.ite fun latest => ?_) he).append (Leaves.ite fun latest => ?_)
  · exact Function.update_of_ne ha _ _
  · exact Function.update_of_ne ha _ _

theorem around_neutral_iff {tooCold : Prop} (hs : s.IsFloat .single) (he : ∀ a, a ≠ .E → Leaves a extruder)
    (hcold : tooCold → extruder = []) (parkZ : ℚ) (raise lower : Attempt) :
    ZNeutral .single s tooCold (aroundZ .single parkZ raise lower extruder) ↔
      NeutralOk .single s parkZ raise lower extruder := by
  have hX : Leaves .X (aroundZ .single parkZ raise lower extruder) := leaves_around (by decide) (he .X (by decide))
  have hY : Leaves .Y (aroundZ .single parkZ raise lower extruder) := leaves_around (by decide) (he .Y (by decide))
  have hE : tooCold → ∀ p ∈ puts .single s (aroundZ .single parkZ raise lower extruder),
      p.after.plannedSteps .E = s.plannedSteps .E := by
    intro h
    refine puts_still (by decide) hs (leaves_around (by decide) ?_)
    rw [hcold h]
    exact fun c hc => absurd hc List.not_mem_nil
  have hz := @z_returns_iff s parkZ raise lower extruder hs (he .Z (by decide))
  unfold ZReturns at hz
  unfold ZNeutral NeutralOk
  dsimp only at hz ⊢
  rw [xy_iff hs hX hY, ← hz]
  constructor
  · rintro ⟨hback, hxy, htargets, -⟩
    exact ⟨hxy, hback, htargets⟩
  · rintro ⟨hxy, hback, htargets⟩
    exact ⟨hback, hxy, htargets, hE⟩

theorem loadFilament_leaves (R : Arithmetic) (hotEnd : HotEnd) (length : ℚ) (load : Attempt) {a : Axis} (ha : a ≠ .E) :
    Leaves a (loadFilament R hotEnd length load) := by
  unfold loadFilament
  intro c hc latest
  split_ifs at hc
  · exact absurd hc List.not_mem_nil
  · rw [List.mem_singleton.mp hc]
    exact Function.update_of_ne ha _ _

theorem unloadFilament_leaves (R : Arithmetic) (hotEnd : HotEnd) (length : ℚ) (retract purge unload : Attempt)
    {a : Axis} (ha : a ≠ .E) : Leaves a (unloadFilament R hotEnd length retract purge unload) := by
  unfold unloadFilament
  intro c hc latest
  split_ifs at hc
  · exact absurd hc List.not_mem_nil
  · simp only [List.mem_cons, List.not_mem_nil, or_false] at hc
    rcases hc with rfl | rfl | rfl
    · exact Function.update_of_ne ha _ _
    · exact Function.update_of_ne ha _ _
    · exact Function.update_of_ne ha _ _

end Result

/-! ## Some nozzles -/

section Nozzles

/-- A nozzle over the origin, in millimeters, and steppers of 400 steps per millimeter. -/
def nozzleOver (z : ℚ) : FloatMotion := ⟨Function.update (fun _ => 0) .Z z, .millimeter, ⟨0, z⟩, fun _ => 0⟩

def fineAttempt : Attempt := ⟨steppersOf 400, Planner.init⟩

theorem nozzleOver_isFloat {z : ℚ} (h : Arithmetic.single.op z = z) : (nozzleOver z).IsFloat .single := by
  refine ⟨fun a => ?_, h⟩
  by_cases ha : a = .Z
  · rw [ha]
    exact h
  · have hzero : (nozzleOver z).latestCoord a = 0 := by
      simp [nozzleOver, Function.update_of_ne ha]
    rw [hzero, Arithmetic.op_zero]

-- The sums round: from -0.73 mm the nozzle is raised by 12.3 mm in 4919 steps and lowered in 4920.
example :
    let z := Arithmetic.single.assign (-73 / 100)
    let parkZ := Arithmetic.single.assign (123 / 10)
    let raised := raiseZ .single parkZ z
    zSteps .single fineAttempt z raised = 4919 ∧
      zSteps .single fineAttempt raised (lowerZ .single parkZ raised) = -4920 := by decide +kernel

end Nozzles

end Cxsw.Filament
