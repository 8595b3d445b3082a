import Cxsw.CrMotion.StuffLine
import Cxsw.Lib.Run
import Cxsw.Lib.Within

/-!
# Cxsw.CrMotion.JunctionJerk — the entry speed of a line (`CrMotion/CrMotionPlanner.cpp`, `StuffLineBuff`)

`MaxEntrySpeed` is to be a speed at which a line can follow the one before: no more than either runs at, and with no
axis changing its speed by more than its jerk.  The jerk is computed with the line before at the speed of the junction
and the new line at its full speed; and where both lines could as well stop and start, the speed of a start from rest
is taken.

* `EntryOk`: what the entry speed should be.
* `entryLimit`, `fullSpeedLimit`, `startLimit`: the largest speed with which it is so, the same with the new line at its
  full speed, and the largest speed of a start from rest.
* `vmaxJunction_eq`: the code takes one of the last two.
* `junction_jerk_iff`: in a run the entry speeds are right where the one that is taken is small enough, and nowhere
  else.
-/

namespace Cxsw.Motion

open Within

/-! ## The speeds at a junction -/

section Defs

/-- The speed change of an axis: the difference, or the larger of the two speeds if it reverses. -/
def speedChange (vExit vEntry : ℚ) : ℚ := if 0 < vExit * vEntry then |vExit - vEntry| else max |vExit| |vEntry|

/-- The speed of an axis when the line runs at `v`. -/
def Previous.axisSpeed (line : Previous) (v : ℚ) (a : Axis) : ℚ := line.speed a * (v / line.maxSpeed)

variable (attr : Axis → StepperAttr) (before line : Previous)

/-- A speed with which one line can follow the other. -/
structure EntryOk (v : ℚ) : Prop where
  nominal : v ≤ line.maxSpeed
  nominalBefore : v ≤ before.maxSpeed
  jerk : ∀ a, speedChange (before.axisSpeed v a) (line.axisSpeed v a) ≤ (attr a).jerk

/-- The smaller of the speeds that the two lines run at. -/
def sharedSpeed : ℚ := min before.maxSpeed line.maxSpeed

/-- The shared speed, reduced until every axis keeps its jerk. -/
def entryLimit : ℚ :=
  sharedSpeed before line * factor (fun a => ((attr a).jerk : ℚ))
    (fun a => speedChange (before.axisSpeed (sharedSpeed before line) a)
      (line.axisSpeed (sharedSpeed before line) a)) Axis.all

/-- The same with the new line at its full speed. -/
def fullSpeedLimit : ℚ :=
  sharedSpeed before line * factor (fun a => ((attr a).jerk : ℚ))
    (fun a => speedChange (before.axisSpeed (sharedSpeed before line) a) (line.speed a)) Axis.all

/-- The speed of a line, reduced until every axis can start with it from rest. -/
def startLimit : ℚ :=
  line.maxSpeed * factor (fun a => ((attr a).jerk : ℚ)) (fun a => |line.speed a|) Axis.all

/-- There is no speed of a line before, or both lines may as well stop and start. -/
def StartsAnew : Prop :=
  before.maxSpeed ≤ eolData ∨
    fullSpeedLimit attr before line * (99 / 100) < before.safeSpeed ∧
      fullSpeedLimit attr before line * (99 / 100) < startLimit attr line

instance : Decidable (StartsAnew attr before line) := inferInstanceAs (Decidable (_ ∨ _))

/-- The speed of a start is small enough where it is taken; otherwise the new line is not the faster one, or the limit
computed with its full speed is small enough. -/
def JerkOk : Prop :=
  if StartsAnew attr before line then startLimit attr line ≤ entryLimit attr before line
  else line.maxSpeed ≤ before.maxSpeed ∨ fullSpeedLimit attr before line ≤ entryLimit attr before line

instance : Decidable (JerkOk attr before line) := by
  unfold JerkOk
  infer_instance

end Defs

/-! ## The limits -/

section Limits

variable {attr : Axis → StepperAttr} {before line : Previous} {v : ℚ}

theorem speedChange_nonneg (vExit vEntry : ℚ) : 0 ≤ speedChange vExit vEntry := by
  unfold speedChange
  split_ifs
  · exact abs_nonneg _
  · exact le_max_of_le_left (abs_nonneg _)

theorem speedChange_zero : speedChange 0 0 = 0 := by
  simp [speedChange]

theorem speedChange_mul {k : ℚ} (hk : 0 ≤ k) (vExit vEntry : ℚ) :
    speedChange (k * vExit) (k * vEntry) = k * speedChange vExit vEntry := by
  rcases hk.lt_or_eq with hpos | rfl
  · have hsign : 0 < k * vExit * (k * vEntry) ↔ 0 < vExit * vEntry := by
      have hsquare : 0 < k * k := mul_pos hpos hpos
      rw [show k * vExit * (k * vEntry) = k * k * (vExit * vEntry) by ring]
      exact mul_pos_iff_of_pos_left hsquare
    unfold speedChange
    simp only [hsign]
    split_ifs
    · rw [← mul_sub, abs_mul, abs_of_pos hpos]
    · rw [abs_mul, abs_mul, abs_of_pos hpos, mul_max_of_nonneg _ _ hk]
  · rw [zero_mul, zero_mul, zero_mul, speedChange_zero]

theorem junctionJerk_eq (vExit vEntry : ℚ) : junctionJerk vExit vEntry = speedChange vExit vEntry := by
  unfold junctionJerk speedChange
  by_cases hsame : 0 < vExit * vEntry
  · have hsigns := pos_and_pos_or_neg_and_neg_of_mul_pos hsame
    rw [if_pos hsame]
    by_cases hlt : vEntry < vExit
    · rw [if_pos hlt, if_pos (hsigns.imp And.right And.left), abs_of_pos (sub_pos.mpr hlt)]
    · rw [if_neg hlt, if_pos (hsigns.symm.imp And.right And.left), abs_sub_comm,
        abs_of_nonneg (sub_nonneg.mpr (not_lt.mp hlt))]
  · rw [if_neg hsame]
    by_cases hlt : vEntry < vExit
    · have hexit : 0 ≤ vExit := by
        by_contra hneg
        exact hsame (mul_pos_of_neg_of_neg (not_le.mp hneg) (hlt.trans (not_le.mp hneg)))
      have hentry : vEntry ≤ 0 := by
        by_contra hpos
        exact hsame (mul_pos ((not_le.mp hpos).trans hlt) (not_le.mp hpos))
      rw [if_pos hlt, if_neg (by rintro (h | h) <;> linarith), abs_of_nonneg hexit, abs_of_nonpos hentry]
    · have hexit : vExit ≤ 0 := by
        by_contra hpos
        exact hsame (mul_pos (not_le.mp hpos) ((not_le.mp hpos).trans_le (not_lt.mp hlt)))
      have hentry : 0 ≤ vEntry := by
        by_contra hneg
        exact hsame (mul_pos_of_neg_of_neg ((not_lt.mp hlt).trans_lt (not_le.mp hneg)) (not_le.mp hneg))
      rw [if_neg hlt, if_neg (by rintro (h | h) <;> linarith), abs_of_nonpos hexit, abs_of_nonneg hentry]

theorem axisSpeed_mul (line : Previous) (k v : ℚ) (a : Axis) : line.axisSpeed (k * v) a = k * line.axisSpeed v a := by
  unfold Previous.axisSpeed
  ring

/-- **The limit is the largest speed** with which one line can follow the other. -/
theorem entryOk_iff (hjerk : ∀ a, 0 < (attr a).jerk) (hbefore : 0 ≤ before.maxSpeed) (hline : 0 ≤ line.maxSpeed)
    (hv : 0 ≤ v) : EntryOk attr before line v ↔ v ≤ entryLimit attr before line := by
  have hlimit (a : Axis) : (0 : ℚ) ≤ (attr a).jerk := by exact_mod_cast (hjerk a).le
  have hshared : 0 ≤ sharedSpeed before line := le_min hbefore hline
  rcases hshared.lt_or_eq with hpos | hzero
  · have hpart : v = v / sharedSpeed before line * sharedSpeed before line := (div_mul_cancel₀ v hpos.ne').symm
    have hle : v ≤ entryLimit attr before line ↔
        v / sharedSpeed before line ≤ factor (fun a => ((attr a).jerk : ℚ)) (fun a => speedChange
          (before.axisSpeed (sharedSpeed before line) a) (line.axisSpeed (sharedSpeed before line) a)) Axis.all := by
      rw [div_le_iff₀ hpos, mul_comm]
      rfl
    rw [hle, le_factor_iff hlimit fun a => speedChange_nonneg _ _, div_le_one hpos]
    have hchange (a : Axis) : speedChange (before.axisSpeed v a) (line.axisSpeed v a) =
        v / sharedSpeed before line * speedChange (before.axisSpeed (sharedSpeed before line) a)
          (line.axisSpeed (sharedSpeed before line) a) := by
      rw [← speedChange_mul (div_nonneg hv hshared), ← axisSpeed_mul, ← axisSpeed_mul, ← hpart]
    simp only [← hchange]
    constructor
    · intro h
      exact ⟨le_min h.nominalBefore h.nominal, fun a _ => h.jerk a⟩
    · intro h
      exact ⟨h.1.trans (min_le_right _ _), h.1.trans (min_le_left _ _), fun a => h.2 a (Axis.mem_all a)⟩
  · have hlimit : entryLimit attr before line = 0 := by
      rw [entryLimit, ← hzero, zero_mul]
    rw [hlimit]
    constructor
    · intro h
      rw [hzero]
      exact le_min h.nominalBefore h.nominal
    · intro h
      have hrest : v = 0 := le_antisymm h hv
      subst hrest
      refine ⟨hline, hbefore, fun a => ?_⟩
      simp only [Previous.axisSpeed, zero_div, mul_zero, speedChange_zero]
      exact_mod_cast (hjerk a).le

end Limits

/-! ## What the code computes -/

section Computed

variable {attr : Axis → StepperAttr} {before line : Previous}

/-- A round of the loop over the axes in `SafeSpeed`. -/
def safeStep (attr : Axis → StepperAttr) (line : Previous) (r : ℚ × Bool) (a : Axis) : ℚ × Bool :=
  if ((attr a).jerk : ℚ) < |line.speed a| then
    if r.2 then
      (if line.maxSpeed * (attr a).jerk < |line.speed a| * r.1 then line.maxSpeed * (attr a).jerk / |line.speed
        a| else r.1,
        true)
    else (r.1 * ((attr a).jerk / |line.speed a|), true)
  else r

theorem safeStep_reduce (hjerk : ∀ a, 0 < (attr a).jerk) (hline : 0 ≤ line.maxSpeed) (f : ℚ) (limited : Bool) (a : Axis)
    (hle : f ≤ 1) (hfree : limited = false → f = 1) : ∃ limited',
      safeStep attr line (line.maxSpeed * f, limited) a =
          (line.maxSpeed * reduce (fun a => ((attr a).jerk : ℚ)) (fun a => |line.speed a|) f a, limited') ∧
        (limited' = false → reduce (fun a => ((attr a).jerk : ℚ)) (fun a => |line.speed a|) f a = 1) := by
  have hlimit : (0 : ℚ) < (attr a).jerk := by exact_mod_cast hjerk a
  by_cases hover : ((attr a).jerk : ℚ) < |line.speed a|
  · have hpos : 0 < |line.speed a| := hlimit.trans hover
    refine ⟨true, ?_, by simp⟩
    rw [safeStep, if_pos hover]
    dsimp only
    cases limited with
    | true =>
      rw [if_pos rfl, reduce]
      rcases hline.lt_or_eq with hmoves | hstill
      · have hiff : line.maxSpeed * (attr a).jerk < |line.speed a| * (line.maxSpeed * f) ↔
            ((attr a).jerk : ℚ) < f * |line.speed a| := by
          rw [show |line.speed a| * (line.maxSpeed * f) = line.maxSpeed * (f * |line.speed a|) by ring,
            mul_lt_mul_iff_right₀ hmoves]
        simp only [hiff]
        split_ifs
        · rw [mul_div_assoc]
        · rfl
      · simp [← hstill]
    | false =>
      obtain rfl := hfree rfl
      rw [if_neg Bool.false_ne_true, reduce, one_mul, if_pos hover, mul_one]
  · have hsame : reduce (fun a => ((attr a).jerk : ℚ)) (fun a => |line.speed a|) f a = f :=
      reduce_of_le (abs_nonneg _) (not_lt.mp hover) hle
    rw [hsame, safeStep, if_neg hover]
    exact ⟨limited, rfl, hfree⟩

theorem safeSpeed_eq (hjerk : ∀ a, 0 < (attr a).jerk) (hline : 0 ≤ line.maxSpeed) :
    safeSpeed attr line.speed line.maxSpeed = startLimit attr line := by
  have hlimit (a : Axis) : (0 : ℚ) ≤ (attr a).jerk := by exact_mod_cast (hjerk a).le
  obtain ⟨limited, hfold, -⟩ := foldl_eq_factor hlimit (fun a => abs_nonneg (line.speed a))
    (fun f limited a _ hle hfree => safeStep_reduce hjerk hline f limited a hle hfree) Axis.all
  exact congrArg Prod.fst hfold

/-- A round of the loop over the axes that reduces the shared speed. -/
def jerkStep (attr : Axis → StepperAttr) (vExit vEntry : Axis → ℚ) (r : ℚ × Bool) (a : Axis) : ℚ × Bool :=
  let jerk := junctionJerk (vExit a * (if r.2 then r.1 else 1)) (vEntry a * (if r.2 then r.1 else 1))
  if ((attr a).jerk : ℚ) < jerk then (r.1 * (((attr a).jerk : ℚ) / jerk), true) else r

theorem jerkStep_reduce (hjerk : ∀ a, 0 < (attr a).jerk) (vExit vEntry : Axis → ℚ) (f : ℚ) (limited : Bool) (a : Axis)
    (hf : 0 ≤ f) (hfree : limited = false → f = 1) : ∃ limited',
      jerkStep attr vExit vEntry (1 * f, limited) a =
          (1 * reduce (fun a => ((attr a).jerk : ℚ)) (fun a => speedChange (vExit a) (vEntry a)) f a, limited') ∧
        (limited' = false → reduce (fun a => ((attr a).jerk : ℚ)) (fun a => speedChange (vExit a) (vEntry a)) f a =
        1) := by
  have hlimit : (0 : ℚ) < (attr a).jerk := by exact_mod_cast hjerk a
  have hscale : (if limited then f else 1) = f := by
    cases limited with
    | true => rfl
    | false => exact (hfree rfl).symm
  unfold jerkStep reduce
  simp only [one_mul]
  simp only [hscale, junctionJerk_eq, mul_comm (vExit a) f, mul_comm (vEntry a) f, speedChange_mul hf]
  by_cases hover : ((attr a).jerk : ℚ) < f * speedChange (vExit a) (vEntry a)
  · have hne : f ≠ 0 := by
      rintro rfl
      rw [zero_mul] at hover
      exact absurd hover hlimit.not_gt
    rw [if_pos hover, if_pos hover]
    refine ⟨true, ?_, by simp⟩
    rw [← mul_div_assoc, mul_div_mul_left _ _ hne]
  · rw [if_neg hover, if_neg hover]
    exact ⟨limited, rfl, hfree⟩

theorem vmaxJunctionRaw_eq (hjerk : ∀ a, 0 < (attr a).jerk) (hbefore : 0 < before.maxSpeed) :
    vmaxJunctionRaw attr before line.speed line.maxSpeed = fullSpeedLimit attr before line := by
  have hlimit (a : Axis) : (0 : ℚ) ≤ (attr a).jerk := by exact_mod_cast (hjerk a).le
  have hshared : (if line.maxSpeed < before.maxSpeed then line.maxSpeed else before.maxSpeed) =
      sharedSpeed before line := by
    unfold sharedSpeed
    split_ifs with hslower
    · exact (min_eq_right hslower.le).symm
    · exact (min_eq_left (not_lt.mp hslower)).symm
  have hexit (a : Axis) : before.speed a * (if line.maxSpeed < before.maxSpeed then
      sharedSpeed before line / before.maxSpeed else 1) = before.axisSpeed (sharedSpeed before line) a := by
    unfold Previous.axisSpeed
    split_ifs with hslower
    · rfl
    · rw [← hshared, if_neg hslower, div_self hbefore.ne']
  obtain ⟨limited, hfold, hfree⟩ := foldl_eq_factor hlimit
    (fun a => speedChange_nonneg (before.axisSpeed (sharedSpeed before line) a) (line.speed a))
    (fun f limited a hf _ hfree => jerkStep_reduce hjerk (before.axisSpeed (sharedSpeed before line)) line.speed f
      limited a
      hf hfree) Axis.all
  rw [one_mul] at hfold
  have hraw : vmaxJunctionRaw attr before line.speed line.maxSpeed =
      if (Axis.all.foldl (jerkStep attr (before.axisSpeed (sharedSpeed before line)) line.speed) (1, false)).2 then
        sharedSpeed before line *
          (Axis.all.foldl (jerkStep attr (before.axisSpeed (sharedSpeed before line)) line.speed) (1, false)).1
      else sharedSpeed before line := by
    unfold vmaxJunctionRaw
    simp only [hshared, hexit]
    rfl
  rw [hraw, hfold]
  cases limited with
  | true => rfl
  | false =>
    rw [fullSpeedLimit, hfree rfl, mul_one]
    rfl

/-- **`VmaxJunction`** is the limit of a start, or that with the new line at its full speed. -/
theorem vmaxJunction_eq (hjerk : ∀ a, 0 < (attr a).jerk) (hbefore : 0 ≤ before.maxSpeed) (hline : 0 ≤ line.maxSpeed) :
    vmaxJunction attr before line.speed line.maxSpeed (safeSpeed attr line.speed line.maxSpeed) =
      if StartsAnew attr before line then startLimit attr line else fullSpeedLimit attr before line := by
  rw [vmaxJunction, safeSpeed_eq hjerk hline]
  by_cases hfast : eolData < before.maxSpeed
  · have hpos : 0 < before.maxSpeed := lt_of_le_of_lt (by norm_num [eolData]) hfast
    have hanew : StartsAnew attr before line ↔
        fullSpeedLimit attr before line * (99 / 100) < before.safeSpeed ∧
          fullSpeedLimit attr before line * (99 / 100) < startLimit attr line :=
      or_iff_right (not_le.mpr hfast)
    rw [if_pos (Or.inl hfast), vmaxJunctionRaw_eq hjerk hpos]
    simp only [hanew]
  · have hanew : StartsAnew attr before line := Or.inl (not_lt.mp hfast)
    have hslow : ¬ (eolData < before.maxSpeed ∨ before.maxSpeed < -eolData) := by
      unfold eolData at hfast ⊢
      rintro (h | h)
      · exact hfast h
      · linarith
    rw [if_neg hslow, if_pos hanew]

/-- **The entry speed is right** where the one that is taken is small enough. -/
theorem entryOk_vmaxJunction_iff (hjerk : ∀ a, 0 < (attr a).jerk) (hbefore : 0 ≤ before.maxSpeed)
    (hline : 0 ≤ line.maxSpeed) :
    EntryOk attr before line
        (vmaxJunction attr before line.speed line.maxSpeed (safeSpeed attr line.speed line.maxSpeed)) ↔
      JerkOk attr before line := by
  have hlimit (a : Axis) : (0 : ℚ) ≤ (attr a).jerk := by exact_mod_cast (hjerk a).le
  have hshared : 0 ≤ sharedSpeed before line := le_min hbefore hline
  rw [vmaxJunction_eq hjerk hbefore hline, JerkOk]
  split_ifs
  · exact entryOk_iff hjerk hbefore hline (mul_nonneg hline (factor_nonneg hlimit fun a => abs_nonneg _))
  · have hfull : 0 ≤ fullSpeedLimit attr before line :=
      mul_nonneg hshared (factor_nonneg hlimit fun a => speedChange_nonneg _ _)
    rw [entryOk_iff hjerk hbefore hline hfull]
    refine ⟨Or.inr, fun h => ?_⟩
    rcases h with hslower | h
    · -- the shared speed is that of the new line
      have hsame : sharedSpeed before line = line.maxSpeed := min_eq_right hslower
      rcases hline.lt_or_eq with hmoves | hstill
      · have hfull (a : Axis) : line.axisSpeed line.maxSpeed a = line.speed a := by
          rw [Previous.axisSpeed, div_self hmoves.ne', mul_one]
        simp only [entryLimit, fullSpeedLimit, hsame, hfull]
        exact le_rfl
      · rw [entryLimit, fullSpeedLimit, hsame, ← hstill, zero_mul, zero_mul]
    · exact h

end Computed

/-! ## Runs -/

section Runs

/-- What `StuffLineBuff` is called with: the machine with its settings, the flow, the displacement and the slot, which
has the speed that the caller asks for. -/
structure LineCall where
  machine : Machine
  flowRatio : ℚ
  delta : Axis → ℚ
  block : PlanLine

/-- The static variables, and whether a line has been stuffed. -/
structure Stuffing where
  previous : Previous
  follows : Bool

/-- After power-on. -/
def Stuffing.init : Stuffing := ⟨Previous.init, false⟩

/-- The state after a call. -/
def Stuffing.call (s : Stuffing) (c : LineCall) : Stuffing :=
  match stuffLineBuff c.machine c.flowRatio s.previous c.delta c.block with
  | some (_, previous) => ⟨previous, true⟩
  | none => s

/-- The limits are positive, and so is the speed that is asked for. -/
structure LineCall.Positive (c : LineCall) : Prop where
  speed : 0 < c.block.planCalc.maxSpeed
  jerk : ∀ attr ∈ axisAttr c.machine, ∀ a, 0 < (attr a).jerk
  maxVelocity : ∀ attr ∈ axisAttr c.machine, ∀ a, 0 < (attr a).maxVelocity

/-- The line that is stuffed has an entry speed with which it can follow the one before. -/
def JerkKept (s : Stuffing) (c : LineCall) : Prop :=
  s.follows = true → ∀ attr ∈ axisAttr c.machine,
    EntryOk attr s.previous (stuffBlock c.machine attr c.flowRatio s.previous c.delta c.block).2
      (stuffBlock c.machine attr c.flowRatio s.previous c.delta c.block).1.planCalc.maxEntrySpeed

/-- The line that is stuffed and the one before are as they should be. -/
def LineOk (s : Stuffing) (c : LineCall) : Prop :=
  s.follows = true → ∀ attr ∈ axisAttr c.machine,
    JerkOk attr s.previous (stuffBlock c.machine attr c.flowRatio s.previous c.delta c.block).2

theorem speedFactor_nonneg {attr : Axis → StepperAttr} (hmax : ∀ a, 0 < (attr a).maxVelocity) (speed : Axis → ℚ) :
    0 ≤ speedFactor attr speed := by
  have hfold : ∀ (as : List Axis) (f : ℚ), 0 ≤ f → 0 ≤ as.foldl (fun factor a =>
      if ((attr a).maxVelocity : ℚ) < |speed a| then min factor ((attr a).maxVelocity / |speed a|) else factor) f := by
    intro as
    induction as with
    | nil => exact fun _ h => h
    | cons a as ih =>
      intro f hf
      refine ih _ ?_
      dsimp only
      split_ifs
      · exact le_min hf (div_nonneg (by exact_mod_cast (hmax a).le) (abs_nonneg _))
      · exact hf
  exact hfold _ _ zero_le_one

theorem stuffBlock_maxSpeed_nonneg (m : Machine) {attr : Axis → StepperAttr} (hmax : ∀ a, 0 < (attr a).maxVelocity)
    (flowRatio : ℚ) (prev : Previous) (delta : Axis → ℚ) {block : PlanLine} (hspeed : 0 ≤ block.planCalc.maxSpeed) :
    0 ≤ (stuffBlock m attr flowRatio prev delta block).2.maxSpeed := by
  have hinverse (x : ℚ) : 0 ≤ if x ≤ eolData then (0 : ℚ) else 1 / x := by
    split_ifs with h
    · exact le_rfl
    · unfold eolData at h
      exact div_nonneg zero_le_one (by linarith)
  have hspeed' (x : ℚ) : 0 ≤ x → 0 ≤ x * (block.planCalc.maxSpeed * if x ≤ eolData then (0 : ℚ) else 1 / x) :=
    fun hx => mul_nonneg hx (mul_nonneg hspeed (hinverse x))
  have hlength := lineLength_nonneg (calcSqrt m (sqr (delta .X) + sqr (delta .Y) + sqr (delta .Z))) (delta .E)
  have hscaled (factor x : ℚ) (hfactor : 0 ≤ factor) (hx : 0 ≤ x) : 0 ≤ if factor < 1 then x * factor else x := by
    split_ifs
    · exact mul_nonneg hx hfactor
    · exact hx
  exact hscaled _ _ (speedFactor_nonneg hmax _) (hspeed' _ hlength)

/-- The state of a run: its speed is not negative. -/
def StuffInv (s : Stuffing) : Prop := 0 ≤ s.previous.maxSpeed

theorem StuffInv.call {s : Stuffing} (h : StuffInv s) {c : LineCall} (hc : c.Positive) : StuffInv (s.call c) := by
  unfold Stuffing.call stuffLineBuff
  cases hattr : axisAttr c.machine with
  | none => exact h
  | some attr =>
    exact stuffBlock_maxSpeed_nonneg c.machine (hc.maxVelocity attr hattr) c.flowRatio s.previous c.delta hc.speed.le

/-- **One line**: its entry speed is right exactly where it and the line before are as they should be. -/
theorem jerkKept_iff {s : Stuffing} (h : StuffInv s) {c : LineCall} (hc : c.Positive) : JerkKept s c ↔ LineOk s c := by
  refine imp_congr_right fun _ => forall_congr' fun attr => imp_congr_right fun hattr => ?_
  exact entryOk_vmaxJunction_iff (hc.jerk attr hattr) h
    (stuffBlock_maxSpeed_nonneg c.machine (hc.maxVelocity attr hattr) c.flowRatio s.previous c.delta hc.speed.le)

/-- **Every run**: all entry speeds are right exactly where all lines are as they should be. -/
theorem junction_jerk_iff {calls : List LineCall} (hcalls : ∀ c ∈ calls, c.Positive) :
    AllSteps Stuffing.call JerkKept Stuffing.init calls ↔ AllSteps Stuffing.call LineOk Stuffing.init calls := by
  have hassumed := allSteps_of_forall Stuffing.call Stuffing.init hcalls
  have hinit : StuffInv Stuffing.init := le_refl (0 : ℚ)
  exact allSteps_iff_of_assumed (I := StuffInv) (fun s c h hc => ⟨jerkKept_iff h hc, fun _ => h.call hc⟩) hinit hassumed

instance (attr : Axis → StepperAttr) (before line : Previous) (v : ℚ) : Decidable (EntryOk attr before line v) :=
  decidable_of_iff (v ≤ line.maxSpeed ∧ v ≤ before.maxSpeed ∧
      ∀ a ∈ Axis.all, speedChange (before.axisSpeed v a) (line.axisSpeed v a) ≤ (attr a).jerk)
    ⟨fun h => ⟨h.1, h.2.1, fun a => h.2.2 a (Axis.mem_all a)⟩,
      fun h => ⟨h.nominal, h.nominalBefore, fun a _ => h.jerk a⟩⟩

instance (s : Stuffing) (c : LineCall) : Decidable (JerkKept s c) := by
  unfold JerkKept
  infer_instance

instance (s : Stuffing) (c : LineCall) : Decidable (LineOk s c) := by
  unfold LineOk
  infer_instance

/-- A machine with these jerks; its square root is that of whole numbers. -/
def jerkMachine (jerk : Axis → ℤ) : Machine where
  stepper a := some ⟨80, 500, jerk a, 500⟩
  root x := Nat.sqrt x.num.toNat

/-- A move by `x` and `y` at a speed. -/
def moveXY (jerk : Axis → ℤ) (x y speed : ℚ) : LineCall where
  machine := jerkMachine jerk
  flowRatio := 100
  delta
    | .X => x
    | .Y => y
    | _ => 0
  block := { PlanLine.zero with planCalc := { PlanLine.zero.planCalc with acceleration := 500, maxSpeed := speed } }

/-- A corner taken at the speed of its slower line. -/
theorem square_corner :
    AllSteps Stuffing.call JerkKept Stuffing.init
      [moveXY (fun _ => 10) 50 0 40, moveXY (fun _ => 10) 0 50 30, moveXY (fun _ => 10) 50 0 20] := by
  have hpositive (x y speed : ℚ) (hspeed : 0 < speed) : (moveXY (fun _ => 10) x y speed).Positive := by
    refine ⟨hspeed, ?_, ?_⟩
    · rintro attr ⟨⟩ a
      cases a <;> decide
    · rintro attr ⟨⟩ a
      cases a <;> decide
  refine (junction_jerk_iff fun c hc => ?_).mpr (by decide +kernel)
  simp only [List.mem_cons, List.not_mem_nil, or_false] at hc
  rcases hc with rfl | rfl | rfl
  · exact hpositive _ _ _ (by norm_num)
  · exact hpositive _ _ _ (by norm_num)
  · exact hpositive _ _ _ (by norm_num)

/-- A line that follows a slower one is entered at its own speed.  And one that is taken at full speed turns so that
its X speed there is that of the line before, but is not at the speed of the junction. -/
theorem faster_line_entered :
    ¬ AllSteps Stuffing.call JerkKept Stuffing.init [moveXY (fun _ => 10) 10 0 5, moveXY (fun _ => 10) 10 0 10] ∧
      ¬ AllSteps Stuffing.call JerkKept Stuffing.init
        [moveXY (fun | .X => 4 | _ => 20) 30 0 12, moveXY (fun | .X => 4 | _ => 20) 30 40 20] := by
  decide +kernel

end Runs

end Cxsw.Motion
