import Cxsw.CrModel.CrHeaterManager

/-!
# Cxsw.CrGcode.HeatAndWait — heating to a temperature (`CmdM/GcodeM109Handle.cpp`, `GcodeM190Handle.cpp`)

`M109` and `M190` set the target of the nozzle or the bed and wait until `ReachedTargetTemper` has held 120 times, or
until another command stops the waiting.  `M109` clears the target again when it has none of the words `B`, `F`, `I`,
`S` and `T`; `M190 S` does not wait where the temperature of the last message is above the target.

* `gcodeM109Exec`, `gcodeM190Exec`: the handlers, on the readings of the sensor and the state of the waiting.
* `waited`: how the wait ends.
* `HeatKept`: what a handler owes when it returns.
* `m109_iff`, `m190_iff`: it is so exactly from the states and with the words of `M109Ok` and `M190Ok`.
-/

namespace Cxsw.HeatWait

/-! ## The heater -/

section Heater

/-- The target and the temperature in `Attr`, and `IsHeated`. -/
structure HeaterManager where
  targetTemper : ℚ
  curTemper : ℚ
  isHeated : Bool
  deriving DecidableEq

/-- `CrHeaterMagagerSetAttr` with another target; `degree` is what the sensor says. -/
def HeaterManager.setAttr (h : HeaterManager) (target degree : ℚ) : HeaterManager :=
  { h with targetTemper := target, isHeated := degree < target }

/-- `ReachedTargetTemper`. -/
def HeaterManager.reachedTargetTemper (h : HeaterManager) (curDegree : ℚ) : Bool :=
  if -1 / 1000000 < h.targetTemper ∧ h.targetTemper < 1 / 1000000 then true
  else
    let devation := curDegree - h.targetTemper
    if h.isHeated then 1 / 1000000 ≤ devation else Heater.fAbs devation < 1

end Heater

/-! ## The handlers -/

section Handlers

/-- `AutoReport` and the interval of its timer. -/
structure Report where
  autoReport : Bool
  interval : ℤ
  deriving DecidableEq

/-- `SetAutoReportTempInterval`. -/
def setAutoReportTempInterval (sec : ℤ) : Report := ⟨0 < sec, sec⟩

/-- The heater, how many times the sensor was read, `Waiting` of the G-code model, and the report. -/
structure World where
  heater : HeaterManager
  taken : ℕ
  waiting : Bool
  report : Report

/-- `ArgM109_t`: the words that are given; `IsDefaultT` says that `T` is not. -/
structure ArgM109 where
  b : Option ℤ
  f : Option ℤ
  i : Option ℤ
  r : Option ℤ
  s : Option ℤ
  t : Option ℤ

/-- `ArgM190_t`. -/
structure ArgM190 where
  r : Option ℤ
  s : Option ℤ

/-- `BED_MAX_TARGET`. -/
def bedMaxTarget : ℚ := 140

/-- How a handler returns. -/
structure Outcome where
  world : World
  cancelled : Bool

/-- The readings of the sensor, and at which of the checks `Waiting` is found cleared. -/
structure Surroundings where
  sensor : ℕ → ℚ
  cancelled : ℕ → Bool

variable (env : Surroundings)

/-- `CrHeaterMagagerSetAttr` reads the sensor. -/
def World.setAttr (w : World) (target : ℚ) : World :=
  { w with heater := w.heater.setAttr target (env.sensor w.taken), taken := w.taken + 1 }

/-- So does `ReachedTargetTemper`. -/
def World.reached (w : World) : Bool × World :=
  (w.heater.reachedTargetTemper (env.sensor w.taken), { w with taken := w.taken + 1 })

/-- The target is set if it is another. -/
def World.setTarget (w : World) (target : ℚ) : World :=
  if w.heater.targetTemper - target > 1 / 1000000 ∨
    w.heater.targetTemper - target < -1 / 1000000 then w.setAttr env target
  else w

/-- The loop of the wait with the counter `i`, before its check number `check`.  Without fuel it does not return. -/
def waitLoop : ℕ → ℕ → ℕ → World → Option Outcome
  | 0, _, _, _ => none
  | fuel + 1, i, check, w =>
    if env.cancelled check then some ⟨w, true⟩
    else
      let (reached, w) := w.reached env
      let i := if reached then i - 1 else i
      if 0 < i then waitLoop fuel i (check + 1) w else some ⟨w, false⟩

/-- The waiting begins. -/
def World.startWaiting (w : World) : World := { w with waiting := true, report := setAutoReportTempInterval 1 }

/-- The waiting ends. -/
def Outcome.stopWaiting (o : Outcome) : Outcome :=
  { o with world := { o.world with waiting := false, report := setAutoReportTempInterval 0 } }

/-- The part of `GcodeM109Exec` that sets the target. -/
def m109Target (p : ArgM109) (w : World) : World :=
  let w :=
    if p.t.isNone then
      let w :=
        match p.r with
        | some r => w.setTarget env r
        | none => w
      match p.s with
      | some s => w.setTarget env ((p.i.getD s : ℤ) : ℚ)
      | none => w
    else
      let w :=
        match p.s with
        | some s => w.setTarget env ((p.i.getD s : ℤ) : ℚ)
        | none => w
      match p.r with
      | some r => w.setTarget env r
      | none => w
  if p.b.isSome || p.f.isSome || p.i.isSome || p.s.isSome || p.t.isSome then w else w.setAttr env 0

def gcodeM109Exec (fuel : ℕ) (p : ArgM109) (w : World) : Option Outcome :=
  let w := (m109Target env p w).startWaiting
  let (reached, w) := w.reached env
  (if reached then some ⟨w, false⟩ else waitLoop env fuel 120 0 w).map Outcome.stopWaiting

/-- Without a word nothing is done; a bed that was at the target is not waited for when only heating is. -/
def gcodeM190Exec (fuel : ℕ) (p : ArgM190) (w : World) : Option Outcome :=
  match p.r.or p.s with
  | none => some ⟨w, false⟩
  | some targetTemper =>
    let curTemper := w.heater.curTemper
    let w := w.setAttr env (min targetTemper bedMaxTarget)
    if targetTemper ≤ curTemper ∧ p.s.isSome ∧ p.r.isNone then some ⟨w, false⟩
    else (waitLoop env fuel 120 0 w.startWaiting).map Outcome.stopWaiting

end Handlers

/-! ## What they owe -/

section Claims

/-- **What a handler owes when it returns** from `w`, for a target: it is set and the last reading reached it, or
`excused` holds; and the waiting and the report are as they were. -/
structure HeatKept (env : Surroundings) (target : ℚ) (excused : Prop) (w : World) (o : Outcome) : Prop where
  target : o.cancelled = false → o.world.heater.targetTemper = target
  reached : o.cancelled = false →
    o.world.heater.reachedTargetTemper (env.sensor (o.world.taken - 1)) = true ∨ excused
  waiting : o.world.waiting = w.waiting
  report : o.world.report = w.report

/-- The words `S` and `R`: one of them, with the temperature `v`, which is not zero. -/
def OneTemper (s r : Option ℤ) (v : ℤ) : Prop := (s = some v ∧ r = none ∨ s = none ∧ r = some v) ∧ v ≠ 0

instance (s r : Option ℤ) (v : ℤ) : Decidable (OneTemper s r v) := inferInstanceAs (Decidable (_ ∧ _))

/-- `M109` with the temperature `v`, whatever the sensor says and whenever the waiting is cancelled. -/
def M109Kept (p : ArgM109) (v : ℤ) (w : World) : Prop :=
  ∀ env fuel o, gcodeM109Exec env fuel p w = some o → HeatKept env v False w o

/-- `M190` with the temperature `v`, where the sensor first says `degree`: with `S` a bed at the target needs no
wait. -/
def M190Kept (p : ArgM190) (v : ℤ) (degree : ℚ) (w : World) : Prop :=
  ∀ env fuel o, env.sensor w.taken = degree → gcodeM190Exec env fuel p w = some o →
    HeatKept env (min v bedMaxTarget) (p.s.isSome ∧ min (v : ℚ) bedMaxTarget ≤ degree) w o

/-- Nothing waits and nothing is reported. -/
def Quiet (w : World) : Prop := w.waiting = false ∧ w.report = ⟨false, 0⟩

/-- `M109` has another word than `R`; no `I` replaces the temperature of `S`; and the target is not a little off. -/
def M109Ok (p : ArgM109) (v : ℤ) (w : World) : Prop :=
  Quiet w ∧ (p.s = none → p.b.isSome ∨ p.f.isSome ∨ p.i.isSome ∨ p.t.isSome) ∧ (p.s ≠ none → ∀ i ∈ p.i, i = v) ∧
    (|w.heater.targetTemper - v| ≤ 1 / 1000000 → w.heater.targetTemper = v)

/-- The bed is at the target if the last message says so and only heating is waited for; otherwise nothing waits and
nothing is reported. -/
def M190Ok (p : ArgM190) (v : ℤ) (degree : ℚ) (w : World) : Prop :=
  if p.s.isSome ∧ (v : ℚ) ≤ w.heater.curTemper then min (v : ℚ) bedMaxTarget ≤ degree else Quiet w

end Claims

/-! ## The wait -/

section Wait

variable {env : Surroundings} {w : World} {o : Outcome}

/-- How the wait ends: the heater is as it was, and unless the wait was cancelled the last reading reached the
target. -/
structure Waited (env : Surroundings) (h : HeaterManager) (o : Outcome) : Prop where
  heater : o.world.heater = h
  reached : o.cancelled = false → h.reachedTargetTemper (env.sensor (o.world.taken - 1)) = true

theorem waitLoop_waited {fuel i check : ℕ} (hi : 0 < i) (h : waitLoop env fuel i check w = some o) :
    Waited env w.heater o := by
  induction fuel generalizing i check w with
  | zero => cases h
  | succ fuel ih =>
    rw [waitLoop] at h
    cases hcancelled : env.cancelled check with
    | true =>
      rw [if_pos hcancelled, Option.some.injEq] at h
      subst h
      exact ⟨rfl, fun hnot => by cases hnot⟩
    | false =>
      rw [if_neg (by simp [hcancelled])] at h
      dsimp only at h
      cases hreached : (w.reached env).1 with
      | true =>
        simp only [hreached, if_true] at h
        split_ifs at h with hleft
        · have hrest := ih hleft h
          exact hrest
        · rw [Option.some.injEq] at h
          subst h
          exact ⟨rfl, fun _ => hreached⟩
      | false =>
        simp only [hreached, Bool.false_eq_true, if_false, if_pos hi] at h
        have hrest := ih hi h
        exact hrest

/-- **A handler that has waited** leaves nothing waiting and no report. -/
theorem waited_stop {h : HeaterManager} (hwait : Waited env h o) :
    Waited env h o.stopWaiting ∧ Quiet o.stopWaiting.world :=
  ⟨⟨hwait.heater, hwait.reached⟩, rfl, rfl⟩

theorem m109_waited {fuel : ℕ} {p : ArgM109} (h : gcodeM109Exec env fuel p w = some o) :
    Waited env (m109Target env p w).heater o ∧ Quiet o.world := by
  unfold gcodeM109Exec at h
  obtain ⟨ended, hended, rfl⟩ := Option.map_eq_some_iff.mp h
  refine waited_stop ?_
  split_ifs at hended with hreached
  · rw [Option.some.injEq] at hended
    subst hended
    exact ⟨rfl, fun _ => hreached⟩
  · have hwaited := waitLoop_waited (by norm_num) hended
    exact hwaited

theorem m190_waited {fuel : ℕ} {w : World} (h : (waitLoop env fuel 120 0 w.startWaiting).map Outcome.stopWaiting =
    some o) :
    Waited env w.heater o ∧ Quiet o.world := by
  obtain ⟨ended, hended, rfl⟩ := Option.map_eq_some_iff.mp h
  have hwaited := waitLoop_waited (by norm_num) hended
  exact waited_stop hwaited

theorem reached_half (h : HeaterManager) : h.reachedTargetTemper (h.targetTemper + 1 / 2) = true := by
  unfold HeaterManager.reachedTargetTemper Heater.fAbs
  split_ifs <;> norm_num

end Wait

/-! ## `M109` -/

section M109

variable (env : Surroundings) {p : ArgM109} {v : ℤ} {w : World}

theorem setTarget_target (w : World) (target : ℚ) : (w.setTarget env target).heater.targetTemper =
    if |w.heater.targetTemper - target| ≤ 1 / 1000000 then w.heater.targetTemper else target := by
  unfold World.setTarget
  split_ifs with hfar hnear hnear
  · exfalso
    rw [abs_le] at hnear
    rcases hfar with hfar | hfar <;> linarith [hnear.1, hnear.2]
  · rfl
  · rfl
  · exfalso
    push Not at hfar
    exact hnear (abs_le.mpr ⟨by linarith [hfar.2], hfar.1⟩)

theorem setTarget_eq_iff (w : World) (target : ℚ) : (w.setTarget env target).heater.targetTemper = target ↔
    (|w.heater.targetTemper - target| ≤ 1 / 1000000 → w.heater.targetTemper = target) := by
  rw [setTarget_target]
  split_ifs with hnear
  · exact (imp_iff_right hnear).symm
  · exact iff_of_true rfl fun h => absurd h hnear

theorem setTarget_ne (w : World) {i v : ℤ} (h : i ≠ v) : (w.setTarget env i).heater.targetTemper ≠ v := by
  have hapart : (1 : ℚ) ≤ |(v : ℚ) - i| := by
    exact_mod_cast Int.one_le_abs (sub_ne_zero.mpr (Ne.symm h))
  rw [setTarget_target]
  split_ifs with hnear
  · intro heq
    rw [heq] at hnear
    linarith
  · exact_mod_cast h

theorem m109Target_eq (hv : OneTemper p.s p.r v) :
    m109Target env p w =
      if p.s.isSome then w.setTarget env ((p.i.getD v : ℤ) : ℚ)
      else if p.b.isSome || p.f.isSome || p.i.isSome || p.t.isSome then w.setTarget env v
      else (w.setTarget env v).setAttr env 0 := by
  unfold m109Target
  obtain ⟨⟨hs, hr⟩ | ⟨hs, hr⟩, -⟩ := hv
  · rw [hs, hr]
    cases p.t <;> simp
  · rw [hs, hr]
    cases p.t <;> simp

theorem m109Target_congr (env' : Surroundings) (hv : OneTemper p.s p.r v) :
    (m109Target env p w).heater.targetTemper = (m109Target env' p w).heater.targetTemper := by
  rw [m109Target_eq env hv, m109Target_eq env' hv]
  split_ifs
  · rw [setTarget_target, setTarget_target]
  · rw [setTarget_target, setTarget_target]
  · rfl

/-- **The target that `M109` leaves** is the temperature it was given. -/
theorem m109Target_iff (hv : OneTemper p.s p.r v) :
    (m109Target env p w).heater.targetTemper = v ↔
      (p.s = none → p.b.isSome ∨ p.f.isSome ∨ p.i.isSome ∨ p.t.isSome) ∧ (p.s ≠ none → ∀ i ∈ p.i, i = v) ∧
        (|w.heater.targetTemper - v| ≤ 1 / 1000000 → w.heater.targetTemper = v) := by
  rw [m109Target_eq env hv]
  obtain ⟨⟨hs, -⟩ | ⟨hs, -⟩, hne⟩ := hv
  · rw [hs, Option.isSome_some, if_pos rfl]
    cases hi : p.i with
    | none =>
      rw [Option.getD_none, setTarget_eq_iff]
      simp
    | some i =>
      rw [Option.getD_some]
      by_cases heq : i = v
      · subst heq
        rw [setTarget_eq_iff]
        simp
      · exact iff_of_false (setTarget_ne env w heq) fun h => heq (h.2.1 (by simp) i rfl)
  · have hwords : (p.b.isSome || p.f.isSome || p.i.isSome || p.t.isSome) = true ↔
        p.b.isSome ∨ p.f.isSome ∨ p.i.isSome ∨ p.t.isSome := by
      simp [or_assoc]
    rw [hs, Option.isSome_none, if_neg Bool.false_ne_true]
    simp only [hwords]
    split_ifs with hother
    · rw [setTarget_eq_iff]
      simp [hother]
    · refine iff_of_false ?_ fun h => hother (h.1 trivial)
      intro hcleared
      have hzero : (0 : ℚ) = v := hcleared
      exact hne (by exact_mod_cast hzero.symm)

/-- **`M109`** does what it owes exactly with the words and from the states of `M109Ok`. -/
theorem m109_iff (hv : OneTemper p.s p.r v) : M109Kept p v w ↔ M109Ok p v w := by
  unfold M109Ok
  constructor
  · intro h
    -- the sensor says at once what reaches the target
    obtain ⟨target, htarget⟩ : ∃ target, ∀ env, (m109Target env p w).heater.targetTemper = target :=
      ⟨_, fun env => m109Target_congr env ⟨fun _ => 0, fun _ => false⟩ hv⟩
    let env : Surroundings := ⟨fun _ => target + 1 / 2, fun _ => false⟩
    have hreached : ((m109Target env p w).startWaiting.reached env).1 = true := by
      have hhalf := reached_half (m109Target env p w).heater
      rw [htarget] at hhalf
      exact hhalf
    have hreturns : gcodeM109Exec env 0 p w =
        some (Outcome.stopWaiting ⟨((m109Target env p w).startWaiting.reached env).2, false⟩) := by
      unfold gcodeM109Exec
      simp only [hreached, if_true]
      rfl
    have hkept := h env 0 _ hreturns
    exact ⟨⟨hkept.waiting.symm, hkept.report.symm⟩, (m109Target_iff env hv).mp (hkept.target rfl)⟩
  · rintro ⟨⟨hwaiting, hreport⟩, htarget⟩ env fuel o ho
    obtain ⟨⟨hheater, hreached⟩, hwaiting', hreport'⟩ := m109_waited ho
    have hset := (m109Target_iff env (w := w) hv).mpr htarget
    refine ⟨fun _ => by rw [hheater, hset], fun hc => Or.inl ?_, by rw [hwaiting', hwaiting], by rw [hreport', hreport]⟩
    rw [hheater]
    exact hreached hc

end M109

/-! ## `M190` -/

section M190

variable {p : ArgM190} {v : ℤ} {degree : ℚ} {w : World}

theorem bedTarget_ne (hv : v ≠ 0) :
    ¬ (-1 / 1000000 < min (v : ℚ) bedMaxTarget ∧ min (v : ℚ) bedMaxTarget < 1 / 1000000) := by
  unfold bedMaxTarget
  rintro ⟨hlow, hhigh⟩
  rcases lt_or_gt_of_ne hv with hneg | hpos
  · have hle : (v : ℚ) ≤ -1 := by exact_mod_cast Int.le_sub_one_of_lt hneg
    rw [min_eq_left (by linarith)] at hlow
    linarith
  · have hle : (1 : ℚ) ≤ v := by exact_mod_cast hpos
    rcases min_lt_iff.mp hhigh with h | h <;> linarith

theorem reached_setAttr (hv : v ≠ 0) (h : HeaterManager) (hbelow : degree < min (v : ℚ) bedMaxTarget) :
    (h.setAttr (min (v : ℚ) bedMaxTarget) degree).reachedTargetTemper degree = false := by
  unfold HeaterManager.reachedTargetTemper HeaterManager.setAttr
  dsimp only
  rw [if_neg (bedTarget_ne hv), if_pos (by simpa using hbelow), decide_eq_false_iff_not]
  linarith

/-- **`M190`** does what it owes exactly with the words and from the states of `M190Ok`. -/
theorem m190_iff (hv : OneTemper p.s p.r v) : M190Kept p v degree w ↔ M190Ok p v degree w := by
  obtain ⟨hwords, hne⟩ := hv
  have hgiven : p.r.or p.s = some v := by
    rcases hwords with ⟨hs, hr⟩ | ⟨hs, hr⟩ <;> simp [hs, hr]
  have hmode : p.r.isNone = p.s.isSome := by
    rcases hwords with ⟨hs, hr⟩ | ⟨hs, hr⟩ <;> simp [hs, hr]
  have hexec (env : Surroundings) (fuel : ℕ) : gcodeM190Exec env fuel p w =
      if p.s.isSome ∧ (v : ℚ) ≤ w.heater.curTemper then some ⟨w.setAttr env (min (v : ℚ) bedMaxTarget), false⟩
      else (waitLoop env fuel 120 0 (w.setAttr env
        (min (v : ℚ) bedMaxTarget)).startWaiting).map Outcome.stopWaiting := by
    have hcond : ((v : ℚ) ≤ w.heater.curTemper ∧ p.s.isSome = true ∧ p.r.isNone = true) ↔
        p.s.isSome = true ∧ (v : ℚ) ≤ w.heater.curTemper := by
      rw [hmode, and_self, and_comm]
    rw [gcodeM190Exec, hgiven]
    simp only [hcond]
  unfold M190Kept M190Ok
  simp only [hexec]
  split_ifs with hshortcut
  · constructor
    · intro h
      obtain ⟨-, hreached, -, -⟩ := h ⟨fun _ => degree, fun _ => false⟩ 0 _ rfl rfl
      by_contra hbelow
      have hnot := reached_setAttr hne w.heater (not_le.mp hbelow)
      rcases hreached rfl with hdone | ⟨-, hat⟩
      · have hsame := hnot.symm.trans hdone
        cases hsame
      · exact hbelow hat
    · rintro hat env fuel o hdegree ho
      rw [Option.some.injEq] at ho
      subst ho
      exact ⟨fun _ => rfl, fun _ => Or.inr ⟨hshortcut.1, hat⟩, rfl, rfl⟩
  · constructor
    · intro h
      -- the waiting is cancelled at once
      have hkept := h ⟨fun _ => degree, fun _ => true⟩ 1 _ rfl rfl
      exact ⟨hkept.waiting.symm, hkept.report.symm⟩
    · rintro ⟨hwaiting, hreport⟩ env fuel o hdegree ho
      obtain ⟨⟨hheater, hreached⟩, hwaiting', hreport'⟩ := m190_waited ho
      refine ⟨fun _ => by rw [hheater]; rfl, fun hc => Or.inl ?_, by rw [hwaiting', hwaiting],
        by rw [hreport', hreport]⟩
      rw [hheater]
      exact hreached hc

/-- **Heating to a temperature**: `M109` and `M190`, with one of `S` and `R` that is not zero, leave the target that
they were given and the waiting and the report as they were exactly with these words and from these states. -/
theorem heat_and_wait_iff (v : ℤ) (degree : ℚ) (w : World) :
    (∀ p : ArgM109, OneTemper p.s p.r v → (M109Kept p v w ↔ M109Ok p v w)) ∧
      ∀ p : ArgM190, OneTemper p.s p.r v → (M190Kept p v degree w ↔ M190Ok p v degree w) :=
  ⟨fun _ hv => m109_iff hv, fun _ hv => m190_iff hv⟩

/-- A heater at 20 degrees that is off; the last message is of this temperature. -/
def coldHeater (curTemper : ℚ) : World := ⟨⟨0, curTemper, false⟩, 0, false, ⟨false, 0⟩⟩

/-- `M109 S200` and `M190 S60` on cold heaters. -/
theorem cold_heaters_wait :
    M109Kept ⟨none, none, none, none, some 200, none⟩ 200 (coldHeater 20) ∧
      M190Kept ⟨none, some 60⟩ 60 20 (coldHeater 20) := by
  refine ⟨((heat_and_wait_iff 200 20 _).1 _ (by decide)).mpr ⟨⟨rfl, rfl⟩, ?_, ?_, ?_⟩,
    ((heat_and_wait_iff 60 20 _).2 _ (by decide)).mpr ?_⟩
  · exact fun h => by cases h
  · exact fun _ _ h => by cases h
  · norm_num [coldHeater]
  · have hwait : ¬ (((60 : ℤ) : ℚ) ≤ (coldHeater 20).heater.curTemper) := by norm_num [coldHeater]
    rw [M190Ok, if_neg fun h => hwait h.2]
    exact ⟨rfl, rfl⟩

/-- `M109 R200` leaves the heater off; `M190 S60` does not wait for a bed at 20 degrees whose last message is of 70; and
both switch off a report that was on. -/
theorem heating_missed :
    ¬ M109Kept ⟨none, none, none, some 200, none, none⟩ 200 (coldHeater 20) ∧
      ¬ M190Kept ⟨none, some 60⟩ 60 20 (coldHeater 70) ∧
      ¬ M109Kept ⟨none, none, none, none, some 200, none⟩ 200 { coldHeater 20 with report := ⟨true, 5⟩ } := by
  refine ⟨fun h => ?_, fun h => ?_, fun h => ?_⟩
  · have hok := (m109_iff (by decide)).mp h
    have hwords := hok.2.1 rfl
    revert hwords
    decide
  · have hok := (m190_iff (by decide)).mp h
    rw [M190Ok, if_pos (by norm_num [coldHeater])] at hok
    norm_num [bedMaxTarget] at hok
  · have hquiet := ((m109_iff (by decide)).mp h).1.2
    cases hquiet

end M190

end Cxsw.HeatWait
