import Mathlib.Algebra.Order.Round
import Cxsw.Lib.FloatCast
import Cxsw.Lib.Word
import Cxsw.CrModel.CrHeaterManager

/-!
# Cxsw.CrModel.PauseTemper — the temperatures of a paused print (`CrModel/CrPrinter.cpp`, `GcodeM24Handle.cpp`)

M25 saves the targets of the nozzle and the bed in `CrPrinter`, as whole degrees, and sets them to zero; M24 sets them
again.  The nozzle of `CrPrinter` is `HotEndArr[0]`.  `HOTENDS` is a constant of the configuration; M24 restores the
nozzle only where it is more than one.

* `getTargetTemper`, `pauseHandle`, `waitTemperatureRecover`: the code.
* `savedTemper_nearest_iff`: which targets are rounded to the nearest degree.
* `pauseBlock_bed`, `pauseBlock_nozzle`: what a pause, repeated or not, leaves of the targets.
* `pause_restores_iff`: a run restores its targets exactly when every pause of it meets `Keeps`.
* `nozzle_left_cold`: a single pause of a printer with one hot end, and a pause that is repeated.
-/

namespace Cxsw.Print

open Heater

/-! ## The code -/

section Defs

/-- `PrintStatus_t`. -/
inductive PrintStatus
  | stopPrint
  | printing
  | pausePrint
  | resumePrint
  deriving DecidableEq

/-- The heaters, for `HOTENDS = n + 1`, and what `CrPrinter` keeps of a paused print. -/
structure PausedPrinter (n : ℕ) where
  status : PrintStatus
  bed : HeaterManager
  hotEndArr : Fin (n + 1) → HeaterManager
  nozzleTemp : ℤ
  bedTemp : ℤ

/-- `Attr = CrHeaterMagagerGetAttr(); Attr.TargetTemper = target; CrHeaterMagagerSetAttr(Attr);` -/
def setTarget (h : HeaterManager) (target : ℚ) : HeaterManager := crHeaterMagagerSetAttr h target h.attrDuty

/-- One temperature of `GetTargetTemper`: the cut target, and one more from a half on. -/
def savedTemper (target : ℚ) : ℤ :=
  if target - toS32 target ≥ 1 / 2 then s32 (toS32 target + 1) else toS32 target

/-- `GetTargetTemper`: the nozzle and the bed. -/
def getTargetTemper {n : ℕ} (p : PausedPrinter n) : ℤ × ℤ :=
  (savedTemper (p.hotEndArr 0).targetTemper, savedTemper p.bed.targetTemper)

/-- `PauseHandle`. -/
def pauseHandle {n : ℕ} (p : PausedPrinter n) : PausedPrinter n :=
  let saved := getTargetTemper p
  { p with
    nozzleTemp := saved.1
    bedTemp := saved.2
    hotEndArr := Function.update p.hotEndArr 0 (setTarget (p.hotEndArr 0) 0)
    bed := setTarget p.bed 0 }

/-- `ResumeHandle`. -/
def resumeHandle {n : ℕ} (p : PausedPrinter n) : PausedPrinter n := { p with status := .printing }

/-- `WaitTemperatureRecover`, without the wait. -/
def waitTemperatureRecover {n : ℕ} (p : PausedPrinter n) : PausedPrinter n :=
  let p := { p with bed := setTarget p.bed p.bedTemp }
  if n + 1 > 1 then
    { p with hotEndArr := Function.update p.hotEndArr 0 (setTarget (p.hotEndArr 0) p.nozzleTemp) }
  else p

/-- The two commands. -/
inductive PauseCmd
  | m24
  | m25
  deriving DecidableEq

/-- `GcodeM24Exec`, `GcodeM25Exec`: their parts in the printer. -/
def execPauseCmd {n : ℕ} (p : PausedPrinter n) : PauseCmd → PausedPrinter n
  | .m24 => waitTemperatureRecover (resumeHandle p)
  | .m25 => pauseHandle p

/-- The printer after commands. -/
def afterCmds {n : ℕ} (p : PausedPrinter n) (cmds : List PauseCmd) : PausedPrinter n := cmds.foldl execPauseCmd p

/-- A first pause, `k` more, and the resume that ends them. -/
def pauseBlock (k : ℕ) : List PauseCmd := .m25 :: (List.replicate k .m25 ++ [.m24])

/-- A target as it was, or the nearest degree. -/
def Restored (before after : ℚ) : Prop := after = before ∨ |before - after| ≤ 1 / 2 ∧ ∃ t : ℤ, after = t

end Defs

/-! ## One saved temperature -/

section Saved

@[simp] theorem setTarget_targetTemper (h : HeaterManager) (target : ℚ) :
    (setTarget h target).targetTemper = target := by
  unfold setTarget crHeaterMagagerSetAttr
  dsimp only
  split_ifs <;> rfl

theorem restored_intCast_iff (t : ℚ) (n : ℤ) : Restored t n ↔ |t - n| ≤ 1 / 2 := by
  constructor
  · rintro (h | ⟨h, -⟩)
    · rw [h, sub_self, abs_zero]
      norm_num
    · exact h
  · exact fun h => Or.inr ⟨h, n, rfl⟩

theorem restored_zero_iff (t : ℚ) : Restored t 0 ↔ |t| ≤ 1 / 2 := by
  simpa using restored_intCast_iff t 0

/-- A target that the saved degree is nearest to: not negative, or cut off by no more than a half; and within
`S32`. -/
def Rounds (t : ℚ) : Prop := 0 ≤ t ∧ t < 2 ^ 31 - 1 / 2 ∨ t < 0 ∧ -2 ^ 31 - 1 / 2 ≤ t ∧ ⌈t⌉ - t ≤ 1 / 2

theorem toS32_of_neg {t : ℚ} (h : t < 0) : toS32 t = max (-2 ^ 31) ⌈t⌉ := by
  have hc : ⌈t⌉ ≤ 0 := Int.ceil_le.mpr (by simpa using h.le)
  unfold toS32 truncQ
  rw [if_pos h, min_eq_right (by omega)]

theorem toS32_of_pos {t : ℚ} (h : 0 ≤ t) : toS32 t = min (2 ^ 31 - 1) ⌊t⌋ := by
  have hf : 0 ≤ ⌊t⌋ := Int.floor_nonneg.mpr h
  unfold toS32
  rw [truncQ_of_nonneg h]
  omega

/-- A target that is not negative is rounded to the nearest degree, unless that is no `S32`. -/
theorem savedTemper_of_nonneg {t : ℚ} (h : 0 ≤ t) : |t - savedTemper t| ≤ 1 / 2 ↔ t < 2 ^ 31 - 1 / 2 := by
  have hfl := Int.floor_le t
  have hfu := Int.lt_floor_add_one t
  have hwrap : s32 (2 ^ 31 - 1 + 1) = -2 ^ 31 := rfl
  rw [abs_le]
  unfold savedTemper
  rw [toS32_of_pos h]
  rcases lt_or_ge t (2 ^ 31 - 1 / 2) with hlt | hge
  · have hin : ⌊t⌋ ≤ 2 ^ 31 - 1 := by
      have : ⌊t⌋ < 2 ^ 31 := Int.floor_lt.mpr (by push_cast; linarith)
      omega
    rw [min_eq_right hin]
    refine iff_of_true ?_ hlt
    split_ifs with hhalf
    · have hnext : ⌊t⌋ + 1 < 2 ^ 31 := by
        have : (⌊t⌋ : ℚ) < 2 ^ 31 - 1 := by linarith
        have : ⌊t⌋ < 2 ^ 31 - 1 := by exact_mod_cast this
        omega
      have h0 : 0 ≤ ⌊t⌋ := Int.floor_nonneg.mpr h
      rw [s32_of_range (by omega) hnext]
      push_cast
      exact ⟨by linarith, by linarith⟩
    · exact ⟨by linarith, by linarith⟩
  · -- one more than the greatest `S32` is the least one
    have hout : 2 ^ 31 - 1 ≤ ⌊t⌋ := Int.le_floor.mpr (by push_cast; linarith)
    rw [min_eq_left hout, if_pos (by push_cast; linarith), hwrap]
    refine iff_of_false ?_ (not_lt.mpr hge)
    rintro ⟨-, hle⟩
    push_cast at hle
    linarith

theorem savedTemper_of_neg {t : ℚ} (h : t < 0) :
    |t - savedTemper t| ≤ 1 / 2 ↔ -2 ^ 31 - 1 / 2 ≤ t ∧ ⌈t⌉ - t ≤ 1 / 2 := by
  have hcl := Int.le_ceil t
  have hcu := Int.ceil_lt_add_one t
  rw [abs_le]
  unfold savedTemper
  rw [toS32_of_neg h]
  rcases le_or_gt (-2 ^ 31) ⌈t⌉ with hin | hout
  · have hin' : (-2 ^ 31 : ℚ) ≤ ⌈t⌉ := by exact_mod_cast hin
    rw [max_eq_right hin, if_neg (by linarith)]
    constructor
    · rintro ⟨h1, -⟩
      exact ⟨by linarith, by linarith⟩
    · rintro ⟨-, h1⟩
      exact ⟨by linarith, by linarith⟩
  · have hout' : (⌈t⌉ : ℚ) ≤ -2 ^ 31 - 1 := by exact_mod_cast Int.le_sub_one_of_lt hout
    rw [max_eq_left hout.le]
    push_cast
    rw [if_neg (by linarith)]
    refine iff_of_false ?_ ?_
    · rintro ⟨h1, -⟩
      linarith
    · rintro ⟨h1, -⟩
      linarith

/-- **Which targets are rounded to the nearest degree.** -/
theorem savedTemper_nearest_iff (t : ℚ) : Restored t (savedTemper t) ↔ Rounds t := by
  rw [restored_intCast_iff]
  unfold Rounds
  rcases lt_or_ge t 0 with h | h
  · rw [savedTemper_of_neg h]
    simp [h]
  · rw [savedTemper_of_nonneg h]
    simp [h]

@[simp] theorem savedTemper_zero : savedTemper 0 = 0 := by decide +kernel

end Saved

/-! ## A pause -/

section Pause

variable {n : ℕ}

theorem afterCmds_append (p : PausedPrinter n) (as bs : List PauseCmd) :
    afterCmds p (as ++ bs) = afterCmds (afterCmds p as) bs := List.foldl_append

/-- What is saved by a pause and `k` more: the second one saves the zeros that the first one has set. -/
def savedAfter (k : ℕ) (target : ℚ) : ℤ := if k = 0 then savedTemper target else 0

theorem pauses_spec (p : PausedPrinter n) (k : ℕ) :
    let q := afterCmds p (.m25 :: List.replicate k .m25)
    q.bed.targetTemper = 0 ∧ (q.hotEndArr 0).targetTemper = 0 ∧
      q.bedTemp = savedAfter k p.bed.targetTemper ∧ q.nozzleTemp = savedAfter k (p.hotEndArr 0).targetTemper ∧
      ∀ i, i ≠ 0 → q.hotEndArr i = p.hotEndArr i := by
  induction k with
  | zero =>
    refine ⟨?_, ?_, rfl, rfl, ?_⟩
    · simp [afterCmds, execPauseCmd, pauseHandle]
    · simp [afterCmds, execPauseCmd, pauseHandle]
    · intro i hi
      simp [afterCmds, execPauseCmd, pauseHandle, hi]
  | succ k ih =>
    obtain ⟨hbed, hnozzle, -, -, hother⟩ := ih
    rw [List.replicate_succ', ← List.cons_append, afterCmds_append]
    refine ⟨?_, ?_, ?_, ?_, ?_⟩
    · simp [afterCmds, execPauseCmd, pauseHandle]
    · simp [afterCmds, execPauseCmd, pauseHandle]
    · show savedTemper _ = _
      rw [hbed]
      simp [savedAfter]
    · show savedTemper _ = _
      rw [hnozzle]
      simp [savedAfter]
    · intro i hi
      rw [← hother i hi]
      exact Function.update_of_ne hi _ _

theorem afterBlock (p : PausedPrinter n) (k : ℕ) :
    afterCmds p (pauseBlock k) =
      waitTemperatureRecover (resumeHandle (afterCmds p (.m25 :: List.replicate k .m25))) := by
  unfold pauseBlock
  rw [← List.cons_append, afterCmds_append]
  rfl

/-- **The bed after a pause**: M24 sets the saved temperature. -/
theorem pauseBlock_bed (p : PausedPrinter n) (k : ℕ) :
    (afterCmds p (pauseBlock k)).bed.targetTemper = savedAfter k p.bed.targetTemper := by
  have hsaved := (pauses_spec p k).2.2.1
  rw [afterBlock, ← hsaved]
  unfold waitTemperatureRecover
  dsimp only
  split_ifs <;> simp [resumeHandle]

/-- **The nozzle after a pause**: with one hot end it stays at zero. -/
theorem pauseBlock_nozzle (p : PausedPrinter n) (k : ℕ) :
    ((afterCmds p (pauseBlock k)).hotEndArr 0).targetTemper =
      if n = 0 then 0 else ((savedAfter k (p.hotEndArr 0).targetTemper : ℤ) : ℚ) := by
  obtain ⟨-, hzero, -, hsaved, -⟩ := pauses_spec p k
  rw [afterBlock]
  unfold waitTemperatureRecover
  dsimp only
  rcases Nat.eq_zero_or_pos n with hn | hn
  · rw [if_neg (by omega), if_pos hn]
    exact hzero
  · rw [if_pos (by omega), if_neg (by omega), ← hsaved]
    simp [resumeHandle]

theorem pauseBlock_other (p : PausedPrinter n) (k : ℕ) {i : Fin (n + 1)} (hi : i ≠ 0) :
    (afterCmds p (pauseBlock k)).hotEndArr i = p.hotEndArr i := by
  have hother := (pauses_spec p k).2.2.2.2 i hi
  rw [afterBlock, ← hother]
  unfold waitTemperatureRecover
  dsimp only
  split_ifs
  · exact Function.update_of_ne hi _ _
  · rfl

end Pause

/-! ## Runs -/

section Runs

variable {n : ℕ}

/-- **A run restores its targets**: after every pause of it, repeated or not, the bed and all hot ends have the targets
that they had before, to the nearest degree. -/
def PausesRestore (p : PausedPrinter n) (cmds : List PauseCmd) : Prop :=
  ∀ pre k, pre.getLast? ≠ some .m25 → pre ++ pauseBlock k <+: cmds →
    Restored (afterCmds p pre).bed.targetTemper (afterCmds p (pre ++ pauseBlock k)).bed.targetTemper ∧
      ∀ i, Restored ((afterCmds p pre).hotEndArr i).targetTemper
        ((afterCmds p (pre ++ pauseBlock k)).hotEndArr i).targetTemper

/-- The condition of a pause with `k` more pauses: a target that comes back is one that is rounded well, one that does
not come back is about zero.  The bed comes back if the pause is not repeated, the nozzle if there is another hot end
as well. -/
def Keeps (p : PausedPrinter n) (k : ℕ) : Prop :=
  (if k = 0 then Rounds p.bed.targetTemper else |p.bed.targetTemper| ≤ 1 / 2) ∧
    if k = 0 ∧ n ≠ 0 then Rounds (p.hotEndArr 0).targetTemper else |(p.hotEndArr 0).targetTemper| ≤ 1 / 2

theorem restored_savedAfter_iff (k : ℕ) (t : ℚ) :
    Restored t (savedAfter k t) ↔ if k = 0 then Rounds t else |t| ≤ 1 / 2 := by
  unfold savedAfter
  split_ifs
  · exact savedTemper_nearest_iff t
  · simpa using restored_zero_iff t

/-- **One pause restores the targets exactly under its condition.** -/
theorem pauseBlock_restores_iff (p : PausedPrinter n) (k : ℕ) :
    (Restored p.bed.targetTemper (afterCmds p (pauseBlock k)).bed.targetTemper ∧
      ∀ i, Restored (p.hotEndArr i).targetTemper ((afterCmds p (pauseBlock k)).hotEndArr i).targetTemper) ↔
      Keeps p k := by
  have hnozzle : Restored (p.hotEndArr 0).targetTemper ((afterCmds p (pauseBlock k)).hotEndArr 0).targetTemper ↔
      if k = 0 ∧ n ≠ 0 then Rounds (p.hotEndArr 0).targetTemper else |(p.hotEndArr 0).targetTemper| ≤ 1 / 2 := by
    rw [pauseBlock_nozzle]
    by_cases hn : n = 0
    · rw [if_pos hn, if_neg (by simp [hn])]
      exact restored_zero_iff _
    · rw [if_neg hn, restored_savedAfter_iff]
      simp [hn]
  unfold Keeps
  rw [pauseBlock_bed, restored_savedAfter_iff, ← hnozzle]
  refine and_congr_right fun _ => ⟨fun h => h 0, fun h i => ?_⟩
  by_cases hi : i = 0
  · rw [hi]
    exact h
  · rw [pauseBlock_other p k hi]
    exact Or.inl rfl

/-- **A run restores its targets exactly when every pause of it meets the condition.** -/
theorem pause_restores_iff (p : PausedPrinter n) (cmds : List PauseCmd) :
    PausesRestore p cmds ↔
      ∀ pre k, pre.getLast? ≠ some .m25 → pre ++ pauseBlock k <+: cmds → Keeps (afterCmds p pre) k := by
  unfold PausesRestore
  refine forall₂_congr fun pre k => forall₂_congr fun _ _ => ?_
  rw [afterCmds_append]
  exact pauseBlock_restores_iff (afterCmds p pre) k

/-- A printer with one hot end: the bed at 60 degrees, the nozzle at 200. -/
def printingHot : PausedPrinter 0 where
  status := .printing
  bed := setTarget (constructed 0 .idle ⟨0, 0⟩ 0 0) 60
  hotEndArr := fun _ => setTarget (constructed 0 .idle ⟨0, 0⟩ 0 0) 200
  nozzleTemp := 0
  bedTemp := 0

/-- **The nozzle is left cold** by a single pause, and the bed by a pause that is repeated. -/
theorem nozzle_left_cold :
    ((afterCmds printingHot [.m25, .m24]).hotEndArr 0).targetTemper = 0 ∧
      (afterCmds printingHot [.m25, .m25, .m24]).bed.targetTemper = 0 ∧
      ¬ PausesRestore printingHot [.m25, .m24] ∧ ¬ PausesRestore printingHot [.m25, .m25, .m24] := by
  refine ⟨by decide +kernel, by decide +kernel, ?_, ?_⟩
  · intro h
    have hk := ((pauseBlock_restores_iff printingHot 0).mp (h [] 0 (by simp) (List.prefix_refl _))).2
    rw [if_neg (by simp)] at hk
    exact absurd hk (by decide +kernel)
  · intro h
    have hk := ((pauseBlock_restores_iff printingHot 1).mp (h [] 1 (by simp) (List.prefix_refl _))).1
    rw [if_neg (by simp)] at hk
    exact absurd hk (by decide +kernel)

end Runs

end Cxsw.Print
