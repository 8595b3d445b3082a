import Mathlib.Tactic.LinearCombination
import Cxsw.CrMotion.PlanLine
import Cxsw.Lib.FixedText
import Cxsw.Lib.Rounding

/-!
# Cxsw.CrMenu.MoveAxisMenuItem — jogging the axes (`CrMenu/MenuItem/MoveAxisMenuItem.cpp`)

Each up and down action sends a relative move to the motion model and, if the queue has taken it, adds it to the
distance of the axis, which the menu shows as text.  Homing from this menu sets the distances of X, Y and Z back, not
the extruder's.  The short beep of homing is left out, and so are the fields of a message that are zero in every one
here.

* `Jog.action_fst`: what one of the 26 actions does.
* `counted_run`: the distances are the sums of the moves that were taken.
* `abs_sub_floatText_le_iff`: when a text is exact to its last digit.
* `jog_run`: both, after any run.
-/

namespace Cxsw.MoveAxisMenu

open Motion (Axis)

/-! ## Actions -/

section Actions

/-- `MAX_MOVE_UNIT`. -/
def maxMoveUnit : ℚ := 10

/-- `MID_MOVE_UNIT`. -/
def midMoveUnit : ℚ := 1

/-- `MIN_MOVE_UNIT`. -/
def minMoveUnit : ℚ := 1 / 10

/-- `Z_MIN_MOVE_UNIT`. -/
def zMinMoveUnit : ℚ := 1 / 40

/-- `MoveAxisType_t`. -/
def moveAxisType : Axis → ℤ
  | .X => 1
  | .Y => 2
  | .Z => 4
  | .E => 8

/-- `ViewStepperMoveMsg_t`. -/
structure ViewStepperMoveMsg where
  moveDis : Axis → ℚ
  axisType : ℤ
  autoHome : ℤ

/-- The queue `MotionMoveSend`, valid or not, and the distances.  No code reads `sent` and `sinceHome`, the messages
that the queue has taken since the start and since the last homing. -/
structure System where
  motionMoveSend : Bool
  distance : Axis → ℚ
  sent : List ViewStepperMoveMsg
  sinceHome : List ViewStepperMoveMsg

/-- Before `MoveAxisMenuInit`. -/
def System.start : System where
  motionMoveSend := false
  distance := 0
  sent := []
  sinceHome := []

variable (R : Arithmetic)

/-- `MoveAxisMenuInit`, with the queue open or not. -/
def moveAxisMenuInit (opened : Bool) (s : System) : System := { s with motionMoveSend := opened }

/-- `QueueSendMsg` with its result. -/
def queueSendMsg (msg : ViewStepperMoveMsg) (result : ℤ) (s : System) : System :=
  if 0 ≤ result then { s with sent := s.sent ++ [msg], sinceHome := s.sinceHome ++ [msg] } else s

/-- The message of a move. -/
def moveMsg (a : Axis) (unit : ℚ) : ViewStepperMoveMsg where
  moveDis := Function.update 0 a (R.assign unit)
  axisType := moveAxisType a
  autoHome := 0

/-- A move of `unit` on an axis, and the new distance; `none` is `NULL`. -/
def move (a : Axis) (unit : ℚ) (result : ℤ) (s : System) : System × Option ℚ :=
  if s.motionMoveSend then
    let s := queueSendMsg (moveMsg R a unit) result s
    let s := if 0 ≤ result then
        { s with distance := Function.update s.distance a (R.assign (s.distance a + unit)) }
      else s
    (s, some (s.distance a))
  else (s, none)

def xAixsMaxUnitMoveMenuUpAction := move R .X (R.const maxMoveUnit)
def xAixsMaxUnitMoveMenuDownAction := move R .X (-R.const maxMoveUnit)
def xAixsMidUnitMoveMenuUpAction := move R .X (R.const midMoveUnit)
def xAixsMidUnitMoveMenuDownAction := move R .X (-R.const midMoveUnit)
def xAixsMinUnitMoveMenuUpAction := move R .X (R.const minMoveUnit)
def xAixsMinUnitMoveMenuDownAction := move R .X (-R.const minMoveUnit)

def yAixsMaxUnitMoveMenuUpAction := move R .Y (R.const maxMoveUnit)
def yAixsMaxUnitMoveMenuDownAction := move R .Y (-R.const maxMoveUnit)
def yAixsMidUnitMoveMenuUpAction := move R .Y (R.const midMoveUnit)
def yAixsMidUnitMoveMenuDownAction := move R .Y (-R.const midMoveUnit)
def yAixsMinUnitMoveMenuUpAction := move R .Y (R.const minMoveUnit)
def yAixsMinUnitMoveMenuDownAction := move R .Y (-R.const minMoveUnit)

def zAixsMaxUnitMoveMenuUpAction := move R .Z (R.const maxMoveUnit)
def zAixsMaxUnitMoveMenuDownAction := move R .Z (-R.const maxMoveUnit)
def zAixsMidUnitMoveMenuUpAction := move R .Z (R.const midMoveUnit)
def zAixsMidUnitMoveMenuDownAction := move R .Z (-R.const midMoveUnit)
def zAixsMinUnitMoveMenuUpAction := move R .Z (R.const minMoveUnit)
def zAixsMinUnitMoveMenuDownAction := move R .Z (-R.const minMoveUnit)
def zAixsLeastUnitMoveMenuUpAction := move R .Z (R.const zMinMoveUnit)
def zAixsLeastUnitMoveMenuDownAction := move R .Z (-R.const zMinMoveUnit)

def extruderMaxUnitMoveMenuUpAction := move R .E (R.const maxMoveUnit)
def extruderMidUnitMoveMenuUpAction := move R .E (R.const midMoveUnit)
def extruderMinUnitMoveMenuUpAction := move R .E (R.const minMoveUnit)

/-- The only action that still asks for a distance above zero. -/
def extruderMaxUnitMoveMenuDownAction (result : ℤ) (s : System) : System × Option ℚ :=
  if !s.motionMoveSend || decide (s.distance .E ≤ 0) then (s, none) else move R .E (-R.const maxMoveUnit) result s

def extruderMidUnitMoveMenuDownAction := move R .E (-R.const midMoveUnit)
def extruderMinUnitMoveMenuDownAction := move R .E (-R.const minMoveUnit)

/-- `GoHomeMenuItemOKAction`; `argOut` is what `ArgOut` points to, if it is no null pointer. -/
def goHomeMenuItemOKAction (argOut : Option ℤ) (result : ℤ) (s : System) : System × Option ℤ :=
  if argOut.isNone || !s.motionMoveSend then (s, none)
  else
    let distance := Function.update (Function.update (Function.update s.distance .X 0) .Y 0) .Z 0
    let s := { s with distance := distance, sinceHome := [] }
    (queueSendMsg { moveDis := 0, axisType := 0, autoHome := 1 } result s, some 0)

end Actions

/-! ## Runs -/

section Runs

inductive Way where
  | up
  | down
  deriving DecidableEq

def Way.signed (w : Way) (unit : ℚ) : ℚ :=
  match w with
  | .up => unit
  | .down => -unit

/-- The items of the menu that move an axis. -/
inductive Jog where
  | max (a : Axis) (w : Way)
  | mid (a : Axis) (w : Way)
  | min (a : Axis) (w : Way)
  | zLeast (w : Way)
  deriving DecidableEq

variable (R : Arithmetic)

def Jog.action : Jog → ℤ → System → System × Option ℚ
  | .max .X .up => xAixsMaxUnitMoveMenuUpAction R
  | .max .X .down => xAixsMaxUnitMoveMenuDownAction R
  | .mid .X .up => xAixsMidUnitMoveMenuUpAction R
  | .mid .X .down => xAixsMidUnitMoveMenuDownAction R
  | .min .X .up => xAixsMinUnitMoveMenuUpAction R
  | .min .X .down => xAixsMinUnitMoveMenuDownAction R
  | .max .Y .up => yAixsMaxUnitMoveMenuUpAction R
  | .max .Y .down => yAixsMaxUnitMoveMenuDownAction R
  | .mid .Y .up => yAixsMidUnitMoveMenuUpAction R
  | .mid .Y .down => yAixsMidUnitMoveMenuDownAction R
  | .min .Y .up => yAixsMinUnitMoveMenuUpAction R
  | .min .Y .down => yAixsMinUnitMoveMenuDownAction R
  | .max .Z .up => zAixsMaxUnitMoveMenuUpAction R
  | .max .Z .down => zAixsMaxUnitMoveMenuDownAction R
  | .mid .Z .up => zAixsMidUnitMoveMenuUpAction R
  | .mid .Z .down => zAixsMidUnitMoveMenuDownAction R
  | .min .Z .up => zAixsMinUnitMoveMenuUpAction R
  | .min .Z .down => zAixsMinUnitMoveMenuDownAction R
  | .zLeast .up => zAixsLeastUnitMoveMenuUpAction R
  | .zLeast .down => zAixsLeastUnitMoveMenuDownAction R
  | .max .E .up => extruderMaxUnitMoveMenuUpAction R
  | .max .E .down => extruderMaxUnitMoveMenuDownAction R
  | .mid .E .up => extruderMidUnitMoveMenuUpAction R
  | .mid .E .down => extruderMidUnitMoveMenuDownAction R
  | .min .E .up => extruderMinUnitMoveMenuUpAction R
  | .min .E .down => extruderMinUnitMoveMenuDownAction R

def Jog.axis : Jog → Axis
  | .max a _ | .mid a _ | .min a _ => a
  | .zLeast _ => .Z

/-- The distance of an action. -/
def Jog.unit : Jog → ℚ
  | .max _ w => w.signed (R.const maxMoveUnit)
  | .mid _ w => w.signed (R.const midMoveUnit)
  | .min _ w => w.signed (R.const minMoveUnit)
  | .zLeast w => w.signed (R.const zMinMoveUnit)

/-- What happens to the menu, with the results of the calls. -/
inductive Event where
  | init (opened : Bool)
  | jog (j : Jog) (result : ℤ)
  | goHome (argOut : Option ℤ) (result : ℤ)

def step (s : System) : Event → System
  | .init opened => moveAxisMenuInit opened s
  | .jog j result => (j.action R result s).1
  | .goHome argOut result => (goHomeMenuItemOKAction argOut result s).1

def run (es : List Event) (s : System) : System := es.foldl (step R) s

/-- The moves of an axis among the messages. -/
def movesOf (a : Axis) (msgs : List ViewStepperMoveMsg) : List ℚ :=
  (msgs.filter fun m => m.axisType = moveAxisType a).map fun m => m.moveDis a

/-- The moves that count: of the extruder all, of the others those since the last homing. -/
def System.moves (s : System) (a : Axis) : List ℚ := movesOf a (if a = .E then s.sent else s.sinceHome)

variable {R}

theorem moveAxisType_injective {a b : Axis} (h : moveAxisType a = moveAxisType b) : a = b := by
  cases a <;> cases b <;> first | rfl | exact absurd h (by decide)

theorem movesOf_concat (a : Axis) (msgs : List ViewStepperMoveMsg) (m : ViewStepperMoveMsg) :
    movesOf a (msgs ++ [m]) = movesOf a msgs ++ if m.axisType = moveAxisType a then [m.moveDis a] else [] := by
  unfold movesOf
  rw [List.filter_append, List.map_append, List.filter_singleton]
  by_cases h : m.axisType = moveAxisType a <;> simp [h]

theorem Jog.action_eq {j : Jog} (h : j ≠ .max .E .down) : j.action R = move R j.axis (j.unit R) := by
  rcases j with ⟨a, w⟩ | ⟨a, w⟩ | ⟨a, w⟩ | ⟨w⟩
  · cases a <;> cases w <;> first | rfl | exact absurd rfl h
  · cases a <;> cases w <;> rfl
  · cases a <;> cases w <;> rfl
  · cases w <;> rfl

/-- Every action is a move of its axis, or none at all. -/
theorem Jog.action_fst (j : Jog) (result : ℤ) (s : System) :
    (j.action R result s).1 = s ∨ j.action R result s = move R j.axis (j.unit R) result s := by
  by_cases hdown : j = .max .E .down
  · subst hdown
    show (extruderMaxUnitMoveMenuDownAction R result s).1 = s ∨ extruderMaxUnitMoveMenuDownAction R result s = _
    unfold extruderMaxUnitMoveMenuDownAction
    split_ifs
    · exact Or.inl rfl
    · exact Or.inr rfl
  · rw [action_eq hdown]
    exact Or.inr rfl

variable (R) in
/-- The state after a move that the queue has taken. -/
def System.moved (s : System) (a : Axis) (unit : ℚ) : System :=
  { s with
    distance := Function.update s.distance a (R.assign (s.distance a + unit))
    sent := s.sent ++ [moveMsg R a unit]
    sinceHome := s.sinceHome ++ [moveMsg R a unit] }

/-- A move that is not sent leaves everything as it is. -/
theorem move_fst (a : Axis) (unit : ℚ) (result : ℤ) (s : System) :
    (move R a unit result s).1 = s ∨ (move R a unit result s).1 = s.moved R a unit := by
  unfold move
  by_cases hvalid : s.motionMoveSend = true
  · rw [if_pos hvalid]
    by_cases h : 0 ≤ result
    · right
      simp only [queueSendMsg, h, if_true]
      rfl
    · left
      simp only [queueSendMsg, h, if_false]
  · exact Or.inl (by rw [if_neg hvalid])

theorem moves_moved (s : System) (a : Axis) (unit : ℚ) (b : Axis) :
    (s.moved R a unit).moves b = s.moves b ++ if a = b then [R.assign unit] else [] := by
  show movesOf b (if b = .E then s.sent ++ [moveMsg R a unit] else s.sinceHome ++ [moveMsg R a unit]) = _
  rw [← apply_ite (· ++ [moveMsg R a unit]), movesOf_concat]
  show movesOf b _ ++ (if moveAxisType a = moveAxisType b then _ else _) = _
  by_cases hb : a = b
  · subst hb
    rw [if_pos rfl, if_pos rfl]
    show _ ++ [Function.update (0 : Axis → ℚ) a (R.assign unit) a] = _
    rw [Function.update_self]
    rfl
  · rw [if_neg hb, if_neg fun h => hb (moveAxisType_injective h)]
    rfl

variable (R) in
/-- The distances are the sums of the moves. -/
def Counted (s : System) : Prop := ∀ a, R.Summed (s.moves a) (s.distance a)

theorem counted_moved {s : System} (h : Counted R s) (a : Axis) (unit : ℚ) : Counted R (s.moved R a unit) := by
  intro b
  rw [moves_moved]
  show R.Summed _ (Function.update s.distance a (R.assign (s.distance a + unit)) b)
  by_cases hb : a = b
  · subst hb
    rw [if_pos rfl, Function.update_self]
    exact (h a).concat unit
  · rw [if_neg hb, List.append_nil, Function.update_of_ne (Ne.symm hb)]
    exact h b

/-- A message that moves no axis counts for none. -/
theorem counted_queueSendMsg {s : System} (h : Counted R s) {msg : ViewStepperMoveMsg} (hmsg : msg.axisType = 0)
    (result : ℤ) : Counted R (queueSendMsg msg result s) := by
  have hother : ∀ a msgs, movesOf a (msgs ++ [msg]) = movesOf a msgs := by
    intro a msgs
    rw [movesOf_concat, hmsg, if_neg (by cases a <;> decide), List.append_nil]
  unfold queueSendMsg
  split_ifs
  · intro a
    show R.Summed (movesOf a (if a = .E then s.sent ++ [msg] else s.sinceHome ++ [msg])) (s.distance a)
    rw [← apply_ite (· ++ [msg]), hother]
    exact h a
  · exact h

theorem counted_goHome {s : System} (h : Counted R s) (argOut : Option ℤ) (result : ℤ) :
    Counted R (goHomeMenuItemOKAction argOut result s).1 := by
  unfold goHomeMenuItemOKAction
  split_ifs
  · exact h
  · refine counted_queueSendMsg ?_ rfl result
    intro a
    cases a with
    | X | Y | Z => exact Arithmetic.Summed.nil
    | E => exact h .E

theorem counted_step {s : System} (h : Counted R s) (e : Event) : Counted R (step R s e) := by
  cases e with
  | init opened => exact h
  | jog j result =>
    show Counted R (j.action R result s).1
    rcases j.action_fst (R := R) result s with hs | hs
    · rw [hs]
      exact h
    · rw [hs]
      rcases move_fst (R := R) j.axis (j.unit R) result s with hs | hs
      · rw [hs]
        exact h
      · rw [hs]
        exact counted_moved h j.axis (j.unit R)
  | goHome argOut result => exact counted_goHome h argOut result

theorem counted_run {s : System} (h : Counted R s) (es : List Event) : Counted R (run R es s) := by
  induction es generalizing s with
  | nil => exact h
  | cons e es ih => exact ih (counted_step h e)

end Runs

/-! ## Texts -/

section Texts

variable (R : Arithmetic)

/-- `SubValue`, as many decimals of a number. -/
def subValue (decimals : ℕ) (v : ℚ) : ℕ := (toS32 (R.op (R.op (v - R.op (toS32 v)) * 10 ^ decimals))).natAbs

/-- The text of a number.  Decimals that leave 9 modulo `modulus` are raised to the next multiple of it. -/
def floatText (decimals modulus : ℕ) (v : ℚ) : List Char :=
  let intValue := toS32 v
  let sub := subValue R decimals v
  let (intValue, sub) :=
    if sub % modulus = 9 then
      let sub := sub + (modulus - sub % modulus)
      if sub = 10 ^ decimals then (if v < 0 then intValue - 1 else intValue + 1, 0) else (intValue, sub)
    else (intValue, sub)
  fixedText (v < 0) intValue.natAbs decimals sub

/-- `FloatValueTranStr`. -/
def floatValueTranStr (v : ℚ) : List Char := floatText R 2 10 v

def xAixsMoveMenuItemShow (s : System) : List Char := floatValueTranStr R (s.distance .X)
def yAixsMoveMenuItemShow (s : System) : List Char := floatValueTranStr R (s.distance .Y)
def zAixsMoveMenuItemShow (s : System) : List Char := floatValueTranStr R (s.distance .Z)
def extruderMoveMenuItemShow (s : System) : List Char := floatValueTranStr R (s.distance .E)

/-- The text of the smallest moves of Z. -/
def zAixsLeastMoveMenuItemShow (s : System) : List Char := floatText R 3 100 (s.distance .Z)

variable {R} {decimals modulus : ℕ} {v : ℚ}

/-- The part of a number behind the point. -/
def frac (v : ℚ) : ℚ := |v - truncQ v|

theorem frac_nonneg (v : ℚ) : 0 ≤ frac v := abs_nonneg _

theorem frac_lt_one (v : ℚ) : frac v < 1 := by
  unfold frac
  rw [abs_sub_comm]
  exact abs_truncQ_sub_lt v

/-- A number is its sign, its whole part and the part behind the point. -/
theorem sign_mul_frac (v : ℚ) : (if v < 0 then -1 else 1) * ((truncQ v).natAbs + frac v) = v := by
  unfold frac
  rw [Nat.cast_natAbs, Int.cast_abs]
  split_ifs with h
  · obtain ⟨h0, h1⟩ := truncQ_nonpos h.le
    rw [abs_of_nonpos h1, abs_of_nonpos (by linarith)]
    ring
  · obtain ⟨h0, h1⟩ := truncQ_nonneg (not_lt.mp h)
    rw [abs_of_nonneg h0, abs_of_nonneg (by linarith)]
    ring

/-- The part behind the point, times a power of ten, stays below it. -/
theorem op_frac_lt (hdec : decimals ∈ [2, 3]) (hv : R.op v = v) : R.op (frac v * 10 ^ decimals) < 10 ^ decimals := by
  have hfrac : R.op (frac v) = frac v := by
    unfold frac
    rw [← R.abs_op, (R.op_truncQ v hv).2]
  refine R.op_below (frac v) hfrac (frac_nonneg v) (frac_lt_one v) _ ?_
  simp only [List.mem_cons, List.not_mem_nil, or_false] at hdec
  rcases hdec with rfl | rfl <;> norm_num

theorem subValue_eq (hdec : decimals ∈ [2, 3]) (hv : R.op v = v) (hr : |v| < 2 ^ 31) :
    (subValue R decimals v : ℤ) = ⌊R.op (frac v * 10 ^ decimals)⌋ := by
  have hscale : (0 : ℚ) < 10 ^ decimals := by positivity
  have hlt := op_frac_lt hdec hv
  have h0 : 0 ≤ R.op (frac v * 10 ^ decimals) := R.op_nonneg (mul_nonneg (frac_nonneg v) hscale.le)
  have hfloor : ⌊R.op (frac v * 10 ^ decimals)⌋ < 2 ^ 31 := by
    refine Int.floor_lt.mpr (hlt.trans_le ?_)
    simp only [List.mem_cons, List.not_mem_nil, or_false] at hdec
    rcases hdec with rfl | rfl <;> norm_num
  obtain ⟨hwhole, hrest⟩ := R.op_truncQ v hv
  unfold subValue
  rw [toS32_of_abs_lt hr, hwhole, hrest]
  rcases le_total 0 (v - truncQ v) with h | h
  · have hfrac : frac v = v - truncQ v := abs_of_nonneg h
    rw [← hfrac, toS32_of_nonneg h0 hfloor, Int.natAbs_of_nonneg (Int.floor_nonneg.mpr h0)]
  · have hfrac : v - truncQ v = -frac v := by
      unfold frac
      rw [abs_of_nonpos h, neg_neg]
    rw [hfrac, neg_mul, R.op_neg, toS32_neg_of_nonneg h0 hfloor, Int.natAbs_neg,
      Int.natAbs_of_nonneg (Int.floor_nonneg.mpr h0)]

theorem subValue_lt (hdec : decimals ∈ [2, 3]) (hv : R.op v = v) (hr : |v| < 2 ^ 31) :
    subValue R decimals v < 10 ^ decimals := by
  have hlt : ((subValue R decimals v : ℤ) : ℚ) < 10 ^ decimals := by
    rw [subValue_eq hdec hv hr]
    exact (Int.floor_le _).trans_lt (op_frac_lt hdec hv)
  exact_mod_cast hlt

/-- The decimals are off by less than one. -/
theorem subValue_near (hdec : decimals ∈ [2, 3]) (hv : R.op v = v) (hr : |v| < 2 ^ 31) :
    frac v * 10 ^ decimals - 1 < subValue R decimals v ∧ subValue R decimals v < frac v * 10 ^ decimals + 1 := by
  have hscale : (0 : ℚ) < 10 ^ decimals := by positivity
  have h0 : 0 ≤ frac v * 10 ^ decimals := mul_nonneg (frac_nonneg v) hscale.le
  have hle : frac v * 10 ^ decimals ≤ 1000 := by
    refine (mul_le_of_le_one_left hscale.le (frac_lt_one v).le).trans ?_
    simp only [List.mem_cons, List.not_mem_nil, or_false] at hdec
    rcases hdec with rfl | rfl <;> norm_num
  have hsub : (subValue R decimals v : ℚ) = ⌊R.op (frac v * 10 ^ decimals)⌋ := by
    exact_mod_cast congrArg (Int.cast (R := ℚ)) (subValue_eq hdec hv hr)
  have hceil : ⌈frac v * 10 ^ decimals⌉₊ ≤ 1000 := Nat.ceil_le.mpr (by exact_mod_cast hle)
  have hfloor : ⌊frac v * 10 ^ decimals⌋₊ ≤ 1000 := (Nat.floor_le_ceil _).trans hceil
  rw [hsub]
  constructor
  · -- the whole number below is kept by the product, so the product is not smaller
    have hlow := R.op_mono _ _ (by positivity) (Nat.floor_le h0)
    rw [R.op_whole _ hfloor] at hlow
    have hcast : (⌊frac v * 10 ^ decimals⌋₊ : ℤ) ≤ ⌊R.op (frac v * 10 ^ decimals)⌋ :=
      Int.le_floor.mpr (by exact_mod_cast hlow)
    have hcast' : (⌊frac v * 10 ^ decimals⌋₊ : ℚ) ≤ ⌊R.op (frac v * 10 ^ decimals)⌋ := by exact_mod_cast hcast
    linarith [Nat.lt_floor_add_one (frac v * 10 ^ decimals)]
  · have hhigh := R.op_mono _ _ h0 (Nat.le_ceil (frac v * 10 ^ decimals))
    rw [R.op_whole _ hceil] at hhigh
    linarith [Nat.ceil_lt_add_one h0, Int.floor_le (R.op (frac v * 10 ^ decimals))]

/-- The decimals that are written, before the carry. -/
def raised (modulus sub : ℕ) : ℕ := if sub % modulus = 9 then sub + (modulus - sub % modulus) else sub

theorem raised_le {sub : ℕ} (hdec : decimals ∈ [2, 3]) (hmod : modulus ∈ [10, 100]) (h : sub < 10 ^ decimals) :
    raised modulus sub ≤ 10 ^ decimals := by
  simp only [List.mem_cons, List.not_mem_nil, or_false] at hdec hmod
  unfold raised
  rcases hdec with rfl | rfl <;> rcases hmod with rfl | rfl <;> split_ifs <;> omega

/-- The whole part and the decimals that are written. -/
theorem floatText_eq (hr : |v| < 2 ^ 31) (hlt : subValue R decimals v < 10 ^ decimals) :
    floatText R decimals modulus v =
      if raised modulus (subValue R decimals v) = 10 ^ decimals then
        fixedText (v < 0) ((truncQ v).natAbs + 1) decimals 0
      else fixedText (v < 0) (truncQ v).natAbs decimals (raised modulus (subValue R decimals v)) := by
  have hcarry : (if v < 0 then truncQ v - 1 else truncQ v + 1).natAbs = (truncQ v).natAbs + 1 := by
    split_ifs with h
    · have h0 : truncQ v ≤ 0 := by exact_mod_cast (truncQ_nonpos h.le).2
      omega
    · have h0 : 0 ≤ truncQ v := by exact_mod_cast (truncQ_nonneg (not_lt.mp h)).1
      omega
  unfold floatText raised
  rw [toS32_of_abs_lt hr]
  generalize subValue R decimals v = sub at *
  by_cases h9 : sub % modulus = 9
  · simp only [if_pos h9]
    by_cases hfull : sub + (modulus - sub % modulus) = 10 ^ decimals
    · simp only [if_pos hfull]
      rw [hcarry]
    · simp only [if_neg hfull]
  · simp only [if_neg h9, if_neg hlt.ne]

/-- **What the text says.** -/
theorem readFixed_floatText (hdec : decimals ∈ [2, 3]) (hmod : modulus ∈ [10, 100]) (hv : R.op v = v)
    (hr : |v| < 2 ^ 31) : readFixed (floatText R decimals modulus v) =
      (if v < 0 then -1 else 1) * ((truncQ v).natAbs + raised modulus (subValue R decimals v) / 10 ^ decimals) := by
  have hlt := subValue_lt hdec hv hr
  have hle := raised_le hdec hmod hlt
  have hpos : 0 < decimals := by
    simp only [List.mem_cons, List.not_mem_nil, or_false] at hdec
    omega
  rw [floatText_eq hr hlt]
  by_cases hfull : raised modulus (subValue R decimals v) = 10 ^ decimals
  · have hone : ((10 ^ decimals : ℕ) : ℚ) / 10 ^ decimals = 1 := by
      push_cast
      exact div_self (by positivity)
    rw [if_pos hfull, readFixed_fixedText hpos (by positivity), hfull, hone, Nat.cast_zero, zero_div, add_zero]
    push_cast
    simp only [decide_eq_true_eq]
  · rw [if_neg hfull, readFixed_fixedText hpos (lt_of_le_of_ne hle hfull)]
    simp only [decide_eq_true_eq]

/-- **Exact to the last digit** is a text whose decimals were not raised past it. -/
theorem abs_sub_floatText_le_iff (hdec : decimals ∈ [2, 3]) (hmod : modulus ∈ [10, 100]) (hv : R.op v = v)
    (hr : |v| < 2 ^ 31) : |readFixed (floatText R decimals modulus v) - v| ≤ 1 / 10 ^ decimals ↔
      (raised modulus (subValue R decimals v) : ℚ) ≤ frac v * 10 ^ decimals + 1 := by
  have hscale : (0 : ℚ) < 10 ^ decimals := by positivity
  have hdiff : |readFixed (floatText R decimals modulus v) - v| =
      |raised modulus (subValue R decimals v) - frac v * 10 ^ decimals| / 10 ^ decimals := by
    have hsplit := sign_mul_frac v
    have hsign : |(if v < 0 then -1 else 1 : ℚ)| = 1 := by split_ifs <;> simp
    rw [readFixed_floatText hdec hmod hv hr]
    generalize (if v < 0 then -1 else 1 : ℚ) = sign at *
    calc _ = |sign * ((raised modulus (subValue R decimals v) - frac v * 10 ^ decimals) / 10 ^ decimals)| := by
          rw [sub_div, mul_div_cancel_right₀ _ hscale.ne']
          congr 1
          linear_combination hsplit
      _ = _ := by rw [abs_mul, hsign, one_mul, abs_div, abs_of_pos hscale]
  have hraised : (subValue R decimals v : ℚ) ≤ raised modulus (subValue R decimals v) := by
    unfold raised
    split_ifs
    · exact_mod_cast Nat.le_add_right _ _
    · exact le_rfl
  have hlow := (subValue_near hdec hv hr).1
  rw [hdiff, div_le_div_iff_of_pos_right hscale, abs_le]
  constructor
  · rintro ⟨-, h⟩
    linarith
  · intro h
    exact ⟨by linarith, by linarith⟩

/-- The text with two decimals: the product may not be rounded up to a whole number ending in 9. -/
theorem abs_sub_floatValueTranStr_le_iff (hv : R.op v = v) (hr : |v| < 2 ^ 31) :
    |readFixed (floatValueTranStr R v) - v| ≤ 1 / 10 ^ 2 ↔
      (subValue R 2 v % 10 = 9 → (subValue R 2 v : ℚ) ≤ frac v * 10 ^ 2) := by
  have hhigh := (subValue_near (show 2 ∈ [2, 3] by decide) hv hr).2
  unfold floatValueTranStr
  rw [abs_sub_floatText_le_iff (by decide) (by decide) hv hr]
  unfold raised
  by_cases h9 : subValue R 2 v % 10 = 9
  · rw [if_pos h9, h9, show 10 - 9 = 1 from rfl, Nat.cast_add_one]
    constructor
    · intro h _
      linarith
    · intro h
      linarith [h rfl]
  · rw [if_neg h9]
    exact iff_of_true hhigh.le fun h => absurd h h9

/-- The text with three decimals: they may not leave 9 modulo 100, which are raised by 91. -/
theorem abs_sub_leastText_le_iff (hv : R.op v = v) (hr : |v| < 2 ^ 31) :
    |readFixed (floatText R 3 100 v) - v| ≤ 1 / 10 ^ 3 ↔ subValue R 3 v % 100 ≠ 9 := by
  obtain ⟨hlow, hhigh⟩ := subValue_near (show 3 ∈ [2, 3] by decide) hv hr
  rw [abs_sub_floatText_le_iff (by decide) (by decide) hv hr]
  unfold raised
  by_cases h9 : subValue R 3 v % 100 = 9
  · rw [if_pos h9, h9]
    push_cast
    refine iff_of_false (fun h => ?_) (not_not.mpr rfl)
    linarith
  · rw [if_neg h9]
    exact iff_of_true hhigh.le h9

/-- A text of `k` digits of whole part. -/
theorem length_floatText_le {k : ℕ} (hk : 0 < k) (hdec : decimals ∈ [2, 3]) (hmod : modulus ∈ [10, 100])
    (hv : R.op v = v) (hr : |v| < 2 ^ 31) (hwhole : (truncQ v).natAbs < 10 ^ k)
    (hcarry : raised modulus (subValue R decimals v) = 10 ^ decimals → (truncQ v).natAbs + 1 < 10 ^ k) :
    (floatText R decimals modulus v).length ≤ k + decimals + 2 := by
  have hlt := subValue_lt hdec hv hr
  have hle := raised_le hdec hmod hlt
  have hpos : 0 < decimals := by
    simp only [List.mem_cons, List.not_mem_nil, or_false] at hdec
    omega
  rw [floatText_eq hr hlt]
  by_cases hfull : raised modulus (subValue R decimals v) = 10 ^ decimals
  · rw [if_pos hfull, length_fixedText_le_iff hk hpos (by positivity)]
    exact hcarry hfull
  · rw [if_neg hfull, length_fixedText_le_iff hk hpos (lt_of_le_of_ne hle hfull)]
    exact hwhole

end Texts

/-! ## The display -/

section Display

variable (R : Arithmetic)

/-- The text of an axis. -/
def moveMenuItemShow : Axis → System → List Char
  | .X => xAixsMoveMenuItemShow R
  | .Y => yAixsMoveMenuItemShow R
  | .Z => zAixsMoveMenuItemShow R
  | .E => extruderMoveMenuItemShow R

/-- A text that is exact to its last digit and fits its buffer with the closing zero. -/
def Shows (decimals : ℕ) (text : List Char) (v : ℚ) : Prop :=
  |readFixed text - v| ≤ 1 / 10 ^ decimals ∧ text.length < 12

instance (decimals : ℕ) (text : List Char) (v : ℚ) : Decidable (Shows decimals text v) :=
  inferInstanceAs (Decidable (_ ∧ _))

variable {R} {v : ℚ}

theorem moveMenuItemShow_eq (a : Axis) (s : System) : moveMenuItemShow R a s = floatValueTranStr R (s.distance a) := by
  cases a <;> rfl

theorem truncQ_natAbs_lt {k : ℕ} (h : |v| < 10 ^ k) : (truncQ v).natAbs < 10 ^ k := by
  have hlt : ((truncQ v).natAbs : ℚ) < 10 ^ k := by
    rw [Nat.cast_natAbs, Int.cast_abs]
    exact (abs_truncQ_le v).trans_lt h
  exact_mod_cast hlt

theorem abs_eq_frac (v : ℚ) : |v| = (truncQ v).natAbs + frac v := by
  have hsign : |(if v < 0 then -1 else 1 : ℚ)| = 1 := by split_ifs <;> simp
  have hnonneg : 0 ≤ ((truncQ v).natAbs : ℚ) + frac v := add_nonneg (Nat.cast_nonneg _) (frac_nonneg v)
  conv_lhs => rw [← sign_mul_frac v]
  rw [abs_mul, hsign, one_mul, abs_of_nonneg hnonneg]

/-- The text of two decimals holds all of its seven digits before the point. -/
theorem shows_floatValueTranStr (hv : R.op v = v)
    (hround : subValue R 2 v % 10 = 9 → (subValue R 2 v : ℚ) ≤ frac v * 10 ^ 2) (hr : |v| < 10 ^ 7 - 1 / 10 ^ 2) :
    Shows 2 (floatValueTranStr R v) v := by
  have hr7 : |v| < 10 ^ 7 := by linarith
  have hr31 : |v| < 2 ^ 31 := by linarith
  refine ⟨(abs_sub_floatValueTranStr_le_iff hv hr31).mpr hround, ?_⟩
  have hwhole := truncQ_natAbs_lt hr7
  have hlen : (floatText R 2 10 v).length ≤ 7 + 2 + 2 := by
    refine length_floatText_le (by decide) (by decide) (by decide) hv hr31 hwhole fun hfull => ?_
    -- the carry comes from 99 decimals, and 9999999.99 is out of range
    by_contra hbig
    have hsub : subValue R 2 v = 99 := by
      have := subValue_lt (show 2 ∈ [2, 3] by decide) hv hr31
      unfold raised at hfull
      split_ifs at hfull <;> omega
    have hn : (truncQ v).natAbs = 9999999 := by omega
    have hfrac := hround (by rw [hsub])
    rw [abs_eq_frac, hn] at hr
    rw [hsub] at hfrac
    push_cast at hr hfrac
    linarith
  exact Nat.lt_succ_of_le hlen

theorem shows_leastText (hv : R.op v = v) (h9 : subValue R 3 v % 100 ≠ 9) (hr : |v| < 10 ^ 6) :
    Shows 3 (floatText R 3 100 v) v := by
  have hr31 : |v| < 2 ^ 31 := by linarith
  refine ⟨(abs_sub_leastText_le_iff hv hr31).mpr h9, ?_⟩
  have hlen : (floatText R 3 100 v).length ≤ 6 + 3 + 2 := by
    refine length_floatText_le (by decide) (by decide) (by decide) hv hr31 (truncQ_natAbs_lt hr) fun hfull => ?_
    have hlt := subValue_lt (show 3 ∈ [2, 3] by decide) hv hr31
    unfold raised at hfull
    rw [if_neg h9] at hfull
    omega
  exact Nat.lt_succ_of_le hlen

/-- **The jog display**: after any run of the menu, in any arithmetic, a distance is the sum of the moves that the queue
has taken, each one rounded as it is added, and the texts show it. -/
theorem jog_run (R : Arithmetic) (es : List Event) :
    let s := run R es System.start
    (∀ a, R.Summed (s.moves a) (s.distance a)) ∧
    (R = Arithmetic.exact → ∀ a, s.distance a = (s.moves a).sum) ∧
    (∀ a, (subValue R 2 (s.distance a) % 10 = 9 →
        (subValue R 2 (s.distance a) : ℚ) ≤ frac (s.distance a) * 10 ^ 2) →
      |s.distance a| < 10 ^ 7 - 1 / 10 ^ 2 → Shows 2 (moveMenuItemShow R a s) (s.distance a)) ∧
    (subValue R 3 (s.distance .Z) % 100 ≠ 9 → |s.distance .Z| < 10 ^ 6 →
      Shows 3 (zAixsLeastMoveMenuItemShow R s) (s.distance .Z)) := by
  intro s
  have hstart : Counted R System.start := by
    intro a
    cases a <;> exact Arithmetic.Summed.nil
  have hcounted : Counted R s := counted_run hstart es
  refine ⟨hcounted, ?_, ?_, ?_⟩
  · rintro rfl a
    exact (hcounted a).eq_sum
  · intro a hround hr
    rw [moveMenuItemShow_eq]
    exact shows_floatValueTranStr (hcounted a).op_eq hround hr
  · intro h9 hr
    exact shows_leastText (hcounted .Z).op_eq h9 hr

/-- The actions of one axis again and again, all of them taken by the queue. -/
def presses (ps : List (ℕ × Jog)) : List Event := ps.flatMap fun p => List.replicate p.1 (.jog p.2 0)

theorem run_replicate {j : Jog} (hj : j ≠ .max .E .down) (n : ℕ) {s : System} (hs : s.motionMoveSend = true) :
    (run R (List.replicate n (.jog j 0)) s).motionMoveSend = true ∧
      (run R (List.replicate n (.jog j 0)) s).distance j.axis = R.addTimes (j.unit R) n (s.distance j.axis) := by
  induction n generalizing s with
  | zero => exact ⟨hs, rfl⟩
  | succ n ih =>
    have hstep : step R s (.jog j 0) = s.moved R j.axis (j.unit R) := by
      show (j.action R 0 s).1 = _
      rw [Jog.action_eq hj]
      unfold move
      rw [if_pos hs]
      rfl
    rw [List.replicate_succ, Arithmetic.addTimes_succ]
    show (run R _ (step R s _)).motionMoveSend = true ∧ (run R _ (step R s _)).distance _ = _
    rw [hstep]
    obtain ⟨hvalid, hdistance⟩ := ih (s := s.moved R j.axis (j.unit R)) hs
    refine ⟨hvalid, hdistance.trans ?_⟩
    show R.addTimes _ _ (Function.update s.distance j.axis _ j.axis) = _
    rw [Function.update_self]

theorem run_presses {a : Axis} {ps : List (ℕ × Jog)} (h : ∀ p ∈ ps, p.2 ≠ .max .E .down ∧ p.2.axis = a) {s : System}
    (hs : s.motionMoveSend = true) : (run R (presses ps) s).distance a =
      ps.foldl (fun total p => R.addTimes (p.2.unit R) p.1 total) (s.distance a) := by
  induction ps generalizing s with
  | nil => rfl
  | cons p ps ih =>
    obtain ⟨hdown, haxis⟩ := h p (by simp)
    obtain ⟨hvalid, hdistance⟩ := run_replicate (R := R) hdown p.1 hs
    have hrun : run R (presses (p :: ps)) s = run R (presses ps) (run R (List.replicate p.1 (.jog p.2 0)) s) := by
      unfold run presses
      rw [List.flatMap_cons, List.foldl_append]
    rw [hrun, ih (fun q hq => h q (by simp [hq])) hvalid, ← haxis, hdistance]
    rfl

variable (R) in
/-- The state after presses from the start. -/
def after (ps : List (ℕ × Jog)) : System := run R (.init true :: presses ps) System.start

theorem distance_after {a : Axis} {ps : List (ℕ × Jog)} (h : ∀ p ∈ ps, p.2 ≠ .max .E .down ∧ p.2.axis = a) :
    (after R ps).distance a = ps.foldl (fun total p => R.addTimes (p.2.unit R) p.1 total) 0 :=
  run_presses h rfl

/-- Presses that lead X to a `float` next to 6.79, in single precision. -/
def xPresses : List (ℕ × Jog) :=
  [(208, .max .X .up), (103, .min .X .down), (196, .max .X .down), (39, .min .X .down), (10, .max .X .down),
    (10, .min .X .up)]

/-- Presses that lead Z to 2059.309. -/
def zPresses : List (ℕ × Jog) := [(205, .max .Z .up), (93, .min .Z .up)]

/-- Homing leaves the extruder's distance; 6.79 may be shown as 6.80 and 2059.309 as 2059.400; and after a million
moves of 10 mm the text and its closing zero need 13 bytes. -/
theorem not_jog_shown :
    (let s := run .exact [.init true, .jog (.max .E .up) 0, .goHome (some 0) 0] System.start
     s.distance .E = 10 ∧ (movesOf .E s.sinceHome).sum = 0) ∧
    ¬ Shows 2 (xAixsMoveMenuItemShow .single (after .single xPresses)) ((after .single xPresses).distance .X) ∧
    ¬ Shows 3 (zAixsLeastMoveMenuItemShow .single (after .single zPresses)) ((after .single zPresses).distance .Z) ∧
    ¬ Shows 2 (xAixsMoveMenuItemShow .exact (after .exact [(1000000, .max .X .up)]))
      ((after .exact [(1000000, .max .X .up)]).distance .X) := by
  have hx : (after .single xPresses).distance .X = 7119831 / 1048576 := by
    rw [distance_after (by decide)]
    decide +kernel
  have hz : (after .single zPresses).distance .Z = 4217465 / 2048 := by
    rw [distance_after (by decide)]
    decide +kernel
  have hlong : (after .exact [(1000000, .max .X .up)]).distance .X = 10000000 := by
    rw [distance_after (by simp [Jog.axis]), List.foldl_cons, List.foldl_nil, Arithmetic.addTimes_exact]
    show (0 : ℚ) + ((1000000 : ℕ) : ℚ) * 10 = 10000000
    norm_num
  unfold xAixsMoveMenuItemShow zAixsLeastMoveMenuItemShow
  rw [hx, hz, hlong]
  exact ⟨by decide +kernel, by decide +kernel, by decide +kernel, by decide +kernel⟩

end Display

end Cxsw.MoveAxisMenu
