import Cxsw.CrModel.PutMotionCoord

/-!
# Cxsw.CrGcode.GcodeG27Handle — parking the nozzle (`CrGcode/GcodeHandle/GcodeCmd/CmdG/GcodeG27Handle.cpp`)

`G27` makes two moves, one of Z to a height that its argument chooses, and one of X and Y to the park point, at the
height that `GetLatestCoord` has then.  Both results are dropped.  `FLOAT` is `ℚ`, so nothing is rounded.

* `gcodeG27Exec`: the command.
* `Parks`: what it is to do; `ParkOk`: when it does.
* `gcodeG27_parks_iff`: exactly then.
-/

namespace Cxsw.NozzlePark

open Motion

/-! ## The command -/

section Defs

/-- `Y_AXIS_MAX_SIZE`. -/
def yAxisMaxSize : ℚ := 220

/-- `Z_MAX_POS`. -/
def zMaxPos : ℚ := 300

/-- `PARK_X_POS`, behind `X_AXIS_MIN_SIZE`. -/
def parkXPos : ℚ := 0 + 10

/-- `PARK_Y_POS`. -/
def parkYPos : ℚ := yAxisMaxSize - 10

/-- `PARK_Z_POS`. -/
def parkZPos : ℚ := 20

/-- `NOZZLE_PARK_Z_FEEDRATE` and `NOZZLE_PARK_XY_FEEDRATE`, in millimeters per second. -/
def nozzleParkZFeedrate : ℚ := 5

def nozzleParkXyFeedrate : ℚ := 100

/-- The marks of `MotionPositionMsg_t`. -/
structure Homed where
  homeX : Bool
  homeY : Bool
  homeZ : Bool

/-- `Target.Coord.CoorZ` behind the `switch`, where it was zero. -/
def parkTarget (p : UInt8) (z : ℚ) : ℚ :=
  if p = 1 then parkZPos
  else if p = 2 then (if parkZPos < yAxisMaxSize - z then z + parkZPos else z)
  else if z < parkZPos then parkZPos
  else 0

/-- The target of the first move. -/
def moveZ (p : UInt8) : Target := fun latest =>
  ⟨false, Function.update latest .Z (parkTarget p (latest .Z)), nozzleParkZFeedrate * 60⟩

/-- The target of the second. -/
def moveXY : Target := fun latest =>
  ⟨false, fun
    | .X => parkXPos
    | .Y => parkYPos
    | a => latest a, nozzleParkXyFeedrate * 60⟩

/-- `GcodeG27Exec`, with its calls of `PutMotionCoord`. -/
def gcodeG27Exec (p : UInt8) (home : Homed) (first second : Attempt) (s : MotionControl) : ℤ × List Put :=
  if !home.homeX || !home.homeY || !home.homeZ then (1, [])
  else (1, puts s [(first, moveZ p), (second, moveXY)])

/-- The height in millimeters that the comment on the command gives for each argument. -/
def parkHeight (p : UInt8) (z : ℚ) : ℚ :=
  if p = 1 then parkZPos
  else if p = 2 then min (z + parkZPos) zMaxPos
  else max z parkZPos

/-- Where the nozzle is behind the moves planned between two states. -/
def place (s t : MotionControl) (a : Axis) : ℚ :=
  inMm s.motion.motionUnit s.motion.latestCoord a + (t.planned a - s.planned a)

/-- Nothing is planned on an axis. -/
def Still (s t : MotionControl) (a : Axis) : Prop := t.planned a = s.planned a

/-- What the command is to do.  If the first move is accepted, it is one of Z alone, to the height.  If the second is,
it is none of Z and E, and where it is one of X or Y it is made at the height, to the park point.  Only `P1` lowers. -/
def Parks (p : UInt8) (s : MotionControl) : List Put → Prop
  | [z, xy] =>
    let height := parkHeight p (inMm s.motion.motionUnit s.motion.latestCoord .Z)
    (0 ≤ z.result → place s z.after .Z = height ∧ Still s z.after .X ∧ Still s z.after .Y ∧ Still s z.after .E) ∧
      (0 ≤ xy.result → Still z.after xy.after .Z ∧ Still z.after xy.after .E ∧
        (Still z.after xy.after .X ∧ Still z.after xy.after .Y ∨
          place s xy.after .Z = height ∧ place s xy.after .X = parkXPos ∧ place s xy.after .Y = parkYPos)) ∧
      (p ≠ 1 → s.planned .Z ≤ z.after.planned .Z ∧ z.after.planned .Z ≤ xy.after.planned .Z)
  | _ => False

/-- The heights that the first move is right for. -/
def HeightOk (p : UInt8) (z : ℚ) : Prop := p = 1 ∨ p = 2 ∧ (z < 200 ∨ z = zMaxPos) ∨ p ≠ 1 ∧ p ≠ 2 ∧ z < parkZPos

/-- The nozzle is at the height already. -/
def AtHeight (p : UInt8) (z : ℚ) : Prop :=
  p = 1 ∧ z = parkZPos ∨ p = 2 ∧ z = zMaxPos ∨ p ≠ 1 ∧ p ≠ 2 ∧ parkZPos ≤ z

/-- When the command does it: if the first move is accepted, the unit is millimeters and the height one of those; if
only the second is, the nozzle is above the park point already, or at the height and the unit is millimeters. -/
def ParkOk (p : UInt8) (s : MotionControl) (first second : Attempt) : Prop :=
  let latest := s.motion.latestCoord
  (first.Accepts → s.motion.motionUnit = .millimeter ∧ HeightOk p (latest .Z)) ∧
    (¬first.Accepts → second.Accepts → latest .X = parkXPos ∧ latest .Y = parkYPos ∨
      s.motion.motionUnit = .millimeter ∧ AtHeight p (latest .Z))

end Defs

/-! ## Heights -/

section Heights

variable {p : UInt8} {z : ℚ}

theorem argument_cases (p : UInt8) : p = 1 ∨ p = 2 ∨ p ≠ 1 ∧ p ≠ 2 := by
  by_cases h1 : p = 1
  · exact Or.inl h1
  · by_cases h2 : p = 2
    · exact Or.inr (Or.inl h2)
    · exact Or.inr (Or.inr ⟨h1, h2⟩)

theorem parkTarget_two : parkTarget 2 z = if 20 < 220 - z then z + 20 else z := by
  unfold parkTarget
  rw [if_neg (show ¬(2 : UInt8) = 1 by decide), if_pos rfl]
  rfl

theorem parkTarget_other (h1 : p ≠ 1) (h2 : p ≠ 2) : parkTarget p z = if z < 20 then 20 else 0 := by
  unfold parkTarget
  rw [if_neg h1, if_neg h2]
  rfl

theorem parkHeight_two : parkHeight 2 z = min (z + 20) 300 := by
  unfold parkHeight
  rw [if_neg (show ¬(2 : UInt8) = 1 by decide), if_pos rfl]
  rfl

theorem parkHeight_other (h1 : p ≠ 1) (h2 : p ≠ 2) : parkHeight p z = max z 20 := by
  unfold parkHeight
  rw [if_neg h1, if_neg h2]
  rfl

theorem heightOk_two : HeightOk 2 z ↔ z < 200 ∨ z = 300 := by
  simp [HeightOk, zMaxPos]

theorem heightOk_other (h1 : p ≠ 1) (h2 : p ≠ 2) : HeightOk p z ↔ z < 20 := by
  simp [HeightOk, parkZPos, h1, h2]

/-- In millimeters the target is the height exactly for those heights. -/
theorem parkTarget_eq_iff : parkTarget p z = parkHeight p z ↔ HeightOk p z := by
  rcases argument_cases p with rfl | rfl | ⟨h1, h2⟩
  · exact iff_of_true rfl (Or.inl rfl)
  · rw [parkTarget_two, parkHeight_two, heightOk_two]
    by_cases hz : z < 200
    · rw [if_pos (by linarith), min_eq_left (by linarith)]
      exact iff_of_true rfl (Or.inl hz)
    · rw [if_neg (by linarith), or_iff_right hz]
      constructor
      · intro h
        rcases min_choice (z + 20) 300 with hmin | hmin
        · linarith
        · linarith
      · rintro rfl
        norm_num
  · rw [parkTarget_other h1 h2, parkHeight_other h1 h2, heightOk_other h1 h2]
    by_cases hz : z < 20
    · rw [if_pos hz, max_eq_right hz.le]
      exact iff_of_true rfl hz
    · rw [if_neg hz, max_eq_left (not_lt.mp hz)]
      exact iff_of_false (by linarith) hz

theorem parkHeight_eq_iff : parkHeight p z = z ↔ AtHeight p z := by
  rcases argument_cases p with rfl | rfl | ⟨h1, h2⟩
  · have hat : AtHeight 1 z ↔ z = 20 := by simp [AtHeight, parkZPos]
    rw [hat]
    exact eq_comm
  · have hat : AtHeight 2 z ↔ z = 300 := by simp [AtHeight, zMaxPos]
    rw [parkHeight_two, hat]
    constructor
    · intro h
      rcases min_choice (z + 20) 300 with hmin | hmin
      · linarith
      · linarith
    · rintro rfl
      norm_num
  · have hat : AtHeight p z ↔ 20 ≤ z := by simp [AtHeight, parkZPos, h1, h2]
    rw [parkHeight_other h1 h2, hat]
    exact max_eq_left_iff

theorem inchToMm_parkTarget_ne : parkTarget p z * (254 / 10) ≠ parkHeight p (z * (254 / 10)) := by
  rcases argument_cases p with rfl | rfl | ⟨h1, h2⟩
  · show (20 : ℚ) * (254 / 10) ≠ 20
    norm_num
  · rw [parkTarget_two, parkHeight_two]
    intro h
    rcases min_cases (z * (254 / 10) + 20) 300 with ⟨hmin, hle⟩ | ⟨hmin, hlt⟩
    · rw [hmin] at h
      split_ifs at h <;> linarith
    · rw [hmin] at h
      split_ifs at h <;> linarith
  · rw [parkTarget_other h1 h2, parkHeight_other h1 h2]
    intro h
    rcases max_cases (z * (254 / 10)) 20 with ⟨hmax, hle⟩ | ⟨hmax, hlt⟩
    · rw [hmax] at h
      split_ifs at h <;> linarith
    · rw [hmax] at h
      split_ifs at h <;> linarith

/-- The target is not below, but for `P1`, if it is the height. -/
theorem le_parkTarget (h : HeightOk p z) (hp : p ≠ 1) : z ≤ parkTarget p z := by
  rcases argument_cases p with h1 | rfl | ⟨h1, h2⟩
  · exact absurd h1 hp
  · rw [parkTarget_two]
    split_ifs <;> linarith
  · rw [heightOk_other h1 h2] at h
    rw [parkTarget_other h1 h2, if_pos h]
    exact h.le

end Heights

/-! ## The moves -/

section Moves

variable {p : UInt8} {s : MotionControl} {first second : Attempt}

theorem moveZ_accepted (h : first.Accepts) (s : MotionControl) :
    let z := (s.put first (moveZ p s.motion.latestCoord)).after
    (place s z .Z = parkTarget p (s.motion.latestCoord .Z) * s.motion.motionUnit.factor) ∧
      (∀ a, a ≠ .Z → z.motion.latestCoord a = s.motion.latestCoord a * s.motion.motionUnit.factor ∧ Still s z a) ∧
      z.motion.motionUnit = s.motion.motionUnit := by
  have hmoved := @moved_of_accepts first (moveZ p s.motion.latestCoord) s h
  refine ⟨?_, fun a ha => hmoved.still h ha (Function.update_of_ne ha _ _), hmoved.motionUnit⟩
  obtain ⟨-, -, hplanned⟩ := hmoved.z h
  unfold place
  rw [hplanned, inMm_eq_mul]
  show _ + (_ + (Function.update s.motion.latestCoord .Z (parkTarget p (s.motion.latestCoord .Z)) .Z - _) * _ - _) = _
  rw [Function.update_self]
  ring

theorem moveXY_accepted (h : second.Accepts) (s : MotionControl) :
    let xy := (s.put second (moveXY s.motion.latestCoord)).after
    Still s xy .Z ∧ Still s xy .E ∧
      xy.planned .X = s.planned .X + (parkXPos - s.motion.latestCoord .X) * s.motion.motionUnit.factor ∧
      xy.planned .Y = s.planned .Y + (parkYPos - s.motion.latestCoord .Y) * s.motion.motionUnit.factor := by
  have hmoved := @moved_of_accepts second (moveXY s.motion.latestCoord) s h
  refine ⟨(hmoved.z_still h rfl).2.2, (hmoved.still h (by decide) rfl).2, ?_, ?_⟩
  · rw [hmoved.planned, plannedDis_of_ne (by decide), inMm_eq_mul, inMm_eq_mul, ← sub_mul]
    rfl
  · rw [hmoved.planned, plannedDis_of_ne (by decide), inMm_eq_mul, inMm_eq_mul, ← sub_mul]
    rfl

/-- What the command is to do with the second move, from the motion before it. -/
def ParksXY (p : UInt8) (s : MotionControl) (z : MotionControl) (xy : Put) : Prop :=
  0 ≤ xy.result → Still z xy.after .Z ∧ Still z xy.after .E ∧
    (Still z xy.after .X ∧ Still z xy.after .Y ∨
      place s xy.after .Z = parkHeight p (inMm s.motion.motionUnit s.motion.latestCoord .Z) ∧
        place s xy.after .X = parkXPos ∧ place s xy.after .Y = parkYPos)

/-- In millimeters a move to the height is followed by one to the park point. -/
theorem moveZ_parksXY (hfirst : first.Accepts) (hunit : s.motion.motionUnit = .millimeter)
    (hheight : HeightOk p (s.motion.latestCoord .Z)) (second : Attempt) :
    let z := (s.put first (moveZ p s.motion.latestCoord)).after
    ParksXY p s z (z.put second (moveXY z.motion.latestCoord)) := by
  obtain ⟨hplace, hstill, hunit'⟩ := @moveZ_accepted p first hfirst s
  intro z hsecond
  rw [result_nonneg_iff] at hsecond
  obtain ⟨hZ, hE, hX, hY⟩ := moveXY_accepted hsecond z
  refine ⟨hZ, hE, Or.inr ⟨?_, ?_, ?_⟩⟩
  · have hZ' : (z.put second (moveXY z.motion.latestCoord)).after.planned .Z = z.planned .Z := hZ
    unfold place at hplace ⊢
    rw [hZ', hplace, hunit]
    show parkTarget p (s.motion.latestCoord .Z) * 1 = parkHeight p (s.motion.latestCoord .Z)
    rw [mul_one]
    exact parkTarget_eq_iff.mpr hheight
  · obtain ⟨hlatest, hplanned⟩ := hstill .X (by decide)
    have hplanned : z.planned .X = s.planned .X := hplanned
    unfold place
    rw [hX, hplanned, hlatest, hunit', inMm_eq_mul, hunit]
    show s.motion.latestCoord .X * 1 + (s.planned .X + (parkXPos - s.motion.latestCoord .X * 1) * 1 - s.planned .X) = _
    ring
  · obtain ⟨hlatest, hplanned⟩ := hstill .Y (by decide)
    have hplanned : z.planned .Y = s.planned .Y := hplanned
    unfold place
    rw [hY, hplanned, hlatest, hunit', inMm_eq_mul, hunit]
    show s.motion.latestCoord .Y * 1 + (s.planned .Y + (parkYPos - s.motion.latestCoord .Y * 1) * 1 - s.planned .Y) = _
    ring

/-- The second move alone is one at the height to the park point only where it should be. -/
theorem refused_parksXY_iff {z : MotionControl} (hsame : SameMotion s z) (hsecond : second.Accepts) :
    ParksXY p s z (z.put second (moveXY z.motion.latestCoord)) ↔
      s.motion.latestCoord .X = parkXPos ∧ s.motion.latestCoord .Y = parkYPos ∨
        s.motion.motionUnit = .millimeter ∧ AtHeight p (s.motion.latestCoord .Z) := by
  obtain ⟨hZ, hE, hX, hY⟩ := moveXY_accepted hsecond z
  have hpos := s.motion.motionUnit.factor_pos
  have hzero : ∀ d x : ℚ, d + x * s.motion.motionUnit.factor = d ↔ x = 0 := by
    intro d x
    rw [add_eq_left, mul_eq_zero, or_iff_left hpos.ne']
  unfold ParksXY
  rw [result_nonneg_iff, forall_prop_of_true hsecond, and_iff_right hZ, and_iff_right hE]
  have hZ' : (z.put second (moveXY z.motion.latestCoord)).after.planned .Z = z.planned .Z := hZ
  unfold Still place
  rw [hX, hY, hZ', hsame.planned, hsame.latestCoord, hsame.motionUnit, hzero, hzero, sub_eq_zero, sub_eq_zero,
    inMm_eq_mul, inMm_eq_mul, inMm_eq_mul]
  refine or_congr (and_congr eq_comm eq_comm) ?_
  cases hunit : s.motion.motionUnit with
  | millimeter =>
    show s.motion.latestCoord .Z * 1 + _ = parkHeight p (s.motion.latestCoord .Z * 1) ∧
      s.motion.latestCoord .X * 1 + (s.planned .X + (parkXPos - s.motion.latestCoord .X) * 1 - s.planned .X) = _ ∧
        s.motion.latestCoord .Y * 1 + (s.planned .Y + (parkYPos - s.motion.latestCoord .Y) * 1 - s.planned .Y) = _ ↔ _
    rw [sub_self, add_zero, mul_one, eq_comm, parkHeight_eq_iff, and_iff_right rfl]
    exact and_iff_left ⟨by ring, by ring⟩
  | inch =>
    show _ ∧ s.motion.latestCoord .X * (254 / 10) +
      (s.planned .X + (parkXPos - s.motion.latestCoord .X) * (254 / 10) - s.planned .X) = parkXPos ∧ _ ↔ _
    have hfar : s.motion.latestCoord .X * (254 / 10) +
        (s.planned .X + (parkXPos - s.motion.latestCoord .X) * (254 / 10) - s.planned .X) = parkXPos * (254 / 10) := by
      ring
    rw [hfar]
    exact iff_of_false (fun h => absurd h.2.1 (by norm_num [parkXPos])) (fun h => absurd h.1 (by decide))

/-- **Nozzle parking**: homed, the command parks exactly under the condition. -/
theorem gcodeG27_parks_iff {home : Homed} (hhome : home.homeX = true ∧ home.homeY = true ∧ home.homeZ = true)
    (p : UInt8) (first second : Attempt) (s : MotionControl) :
    Parks p s (gcodeG27Exec p home first second s).2 ↔ ParkOk p s first second := by
  unfold gcodeG27Exec
  rw [hhome.1, hhome.2.1, hhome.2.2, if_neg (by decide)]
  set z := s.put first (moveZ p s.motion.latestCoord) with hz
  set xy := z.after.put second (moveXY z.after.motion.latestCoord) with hxy
  have hparks : Parks p s (puts s [(first, moveZ p), (second, moveXY)]) ↔
      (0 ≤ z.result → place s z.after .Z = parkHeight p (inMm s.motion.motionUnit s.motion.latestCoord .Z) ∧
        Still s z.after .X ∧ Still s z.after .Y ∧ Still s z.after .E) ∧ ParksXY p s z.after xy ∧
        (p ≠ 1 → s.planned .Z ≤ z.after.planned .Z ∧ z.after.planned .Z ≤ xy.after.planned .Z) := Iff.rfl
  have hlower : z.after.planned .Z ≤ xy.after.planned .Z := by
    by_cases hsecond : second.Accepts
    · exact (moveXY_accepted hsecond z.after).1.ge
    · rw [(@same_of_not_accepts second (moveXY z.after.motion.latestCoord) z.after hsecond).planned]
  rw [hparks, result_nonneg_iff]
  unfold ParkOk
  dsimp only
  by_cases hfirst : first.Accepts
  · obtain ⟨hplace, hstill, -⟩ := @moveZ_accepted p first hfirst s
    rw [forall_prop_of_true hfirst, and_iff_left (fun hnot => absurd hfirst hnot), forall_prop_of_true hfirst]
    constructor
    · rintro ⟨⟨hheight, -⟩, -⟩
      rw [← hz] at hplace
      rw [hplace, inMm_eq_mul] at hheight
      cases hunit : s.motion.motionUnit with
      | millimeter =>
        rw [hunit] at hheight
        simp only [MotionUnitType.factor, mul_one] at hheight
        exact ⟨rfl, parkTarget_eq_iff.mp hheight⟩
      | inch =>
        rw [hunit] at hheight
        exact absurd hheight inchToMm_parkTarget_ne
    · rintro ⟨hunit, hheight⟩
      have hmm : place s z.after .Z = parkTarget p (s.motion.latestCoord .Z) := by
        rw [hz, hplace, hunit]
        exact mul_one _
      have hlatest : inMm s.motion.motionUnit s.motion.latestCoord .Z = s.motion.latestCoord .Z := by
        rw [hunit]
        rfl
      refine ⟨⟨?_, (hstill .X (by decide)).2, (hstill .Y (by decide)).2, (hstill .E (by decide)).2⟩,
        moveZ_parksXY hfirst hunit hheight second, fun hp => ⟨?_, hlower⟩⟩
      · rw [hmm, hlatest]
        exact parkTarget_eq_iff.mpr hheight
      · have hle := le_parkTarget hheight hp
        rw [← hmm] at hle
        unfold place at hle
        rw [hlatest] at hle
        linarith
  · have hsame := @same_of_not_accepts first (moveZ p s.motion.latestCoord) s hfirst
    have hstay : s.planned .Z ≤ z.after.planned .Z := by rw [hsame.planned]
    rw [forall_prop_of_false hfirst, true_and, and_iff_left fun _ => ⟨hstay, hlower⟩, forall_prop_of_false hfirst,
      true_and, forall_prop_of_true hfirst]
    by_cases hsecond : second.Accepts
    · rw [forall_prop_of_true hsecond]
      exact refused_parksXY_iff hsame hsecond
    · refine iff_of_true (fun hresult => ?_) fun hacc => absurd hacc hsecond
      exact absurd (result_nonneg_iff.mp hresult) hsecond

/-- At 30 mm `P2` raises the nozzle and goes to the park point. -/
theorem gcodeG27_parks_raised :
    Parks 2 (nozzleAt 30) (gcodeG27Exec 2 ⟨true, true, true⟩ emptyAttempt emptyAttempt (nozzleAt 30)).2 :=
  (gcodeG27_parks_iff ⟨rfl, rfl, rfl⟩ 2 emptyAttempt emptyAttempt (nozzleAt 30)).mpr
    ⟨fun _ => ⟨rfl, Or.inr (Or.inl ⟨rfl, Or.inl (show (30 : ℚ) < 200 by norm_num)⟩)⟩,
      fun hnot => absurd emptyAttempt_accepts hnot⟩

/-- At 50 mm `P0` drives the nozzle down to zero. -/
theorem park_drives_nozzle_down :
    (∃ z xy, gcodeG27Exec 0 ⟨true, true, true⟩ emptyAttempt emptyAttempt (nozzleAt 50) = (1, [z, xy]) ∧
      place (nozzleAt 50) z.after .Z = 0) ∧
      ¬Parks 0 (nozzleAt 50) (gcodeG27Exec 0 ⟨true, true, true⟩ emptyAttempt emptyAttempt (nozzleAt 50)).2 := by
  have hplace : place (nozzleAt 50)
      ((nozzleAt 50).put emptyAttempt (moveZ 0 (nozzleAt 50).motion.latestCoord)).after .Z = 0 := by
    rw [(@moveZ_accepted 0 emptyAttempt emptyAttempt_accepts (nozzleAt 50)).1]
    have htarget : parkTarget 0 ((nozzleAt 50).motion.latestCoord .Z) = 0 := by
      show parkTarget 0 50 = 0
      rw [parkTarget_other (by decide) (by decide), if_neg (by norm_num)]
    rw [htarget, zero_mul]
  refine ⟨⟨_, _, rfl, hplace⟩, fun h => ?_⟩
  obtain ⟨hfirst, -⟩ := h
  have hheight := (hfirst (result_nonneg_iff.mpr emptyAttempt_accepts)).1
  rw [hplace] at hheight
  have hpark : parkHeight 0 (50 : ℚ) = 50 := by
    rw [parkHeight_other (by decide) (by decide), max_eq_left (by norm_num)]
  exact absurd (hheight.trans hpark) (by norm_num)

end Moves

end Cxsw.NozzlePark
