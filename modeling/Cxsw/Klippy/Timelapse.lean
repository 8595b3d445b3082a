import Mathlib.Algebra.Order.Field.Rat
import Mathlib.Tactic.Linarith
import Mathlib.Tactic.NormNum
import Cxsw.Klippy.VirtualSdcard

/-!
# Cxsw.Klippy.Timelapse — a print with and without its film (`klippy/extras/virtual_sdcard.py`, `gcode_move.py`)

With the nozzle moved aside before a frame, `G0 X5 Y150 F9000` goes through the same interpreter as the file: it leaves
its position and speed behind, and under `G91` it moves by these values.  A frequency of zero ends the print at the
first marker.

* `GcodeMove`, `GcodeMove.cmdG1`: the move state and `G0`/`G1`, over exact numbers.
* `Printer`: a printer that runs scripts, with what is known of the ones the handler inserts.
* `Undisturbed`: the files, states and settings with which the film leaves the print alone.
* `timelapse_unchanged_iff`: these, and no others.
-/

namespace Cxsw.VirtualSD

/-! ## The move state -/

section GcodeMove

/-- A value for each axis. -/
structure Coord where
  x : ℚ
  y : ℚ
  z : ℚ
  e : ℚ
  deriving DecidableEq

/-- The G-code move state. -/
@[ext]
structure GcodeMove where
  absoluteCoord : Bool
  absoluteExtrude : Bool
  basePosition : Coord
  lastPosition : Coord
  homingPosition : Coord
  speed : ℚ
  speedFactor : ℚ
  extrudeFactor : ℚ
  deriving DecidableEq

/-- The words of a `G0` or `G1`. -/
structure Params where
  x : Option ℚ
  y : Option ℚ
  z : Option ℚ
  e : Option ℚ
  f : Option ℚ

/-- The value on an axis that a word gives: relative to the last move, or to the base. -/
def axisValue (absolute : Bool) (base last : ℚ) : Option ℚ → ℚ
  | none => last
  | some v => if absolute then v + base else last + v

/-- `cmd_G1` up to the call of `move_with_transform`; `none` is the error of a speed that is not positive. -/
def GcodeMove.cmdG1 (m : GcodeMove) (p : Params) : Option GcodeMove :=
  let lastPosition : Coord :=
    { x := axisValue m.absoluteCoord m.basePosition.x m.lastPosition.x p.x
      y := axisValue m.absoluteCoord m.basePosition.y m.lastPosition.y p.y
      z := axisValue m.absoluteCoord m.basePosition.z m.lastPosition.z p.z
      e := axisValue (m.absoluteCoord && m.absoluteExtrude) m.basePosition.e m.lastPosition.e
        (p.e.map (· * m.extrudeFactor)) }
  match p.f with
  | none => some { m with lastPosition }
  | some gcodeSpeed => if gcodeSpeed ≤ 0 then none
    else some { m with lastPosition, speed := gcodeSpeed * m.speedFactor }

/-- `G0 X5 Y150 F9000`. -/
def asideParams : Params := ⟨some 5, some 150, none, none, some 9000⟩

/-- The state that the move aside leaves. -/
def GcodeMove.aside (m : GcodeMove) : GcodeMove :=
  { m with
    lastPosition := { m.lastPosition with
      x := axisValue m.absoluteCoord m.basePosition.x m.lastPosition.x (some 5)
      y := axisValue m.absoluteCoord m.basePosition.y m.lastPosition.y (some 150) }
    speed := 9000 * m.speedFactor }

theorem cmdG1_aside (m : GcodeMove) : m.cmdG1 asideParams = some m.aside := by
  have hpos : ¬ (9000 : ℚ) ≤ 0 := by norm_num
  simp [GcodeMove.cmdG1, asideParams, GcodeMove.aside, axisValue, hpos]

/-- The state `g` is `m` after moves aside that changed it. -/
def Shifted (m g : GcodeMove) : Prop :=
  g.absoluteCoord = false ∧ m.lastPosition.x < g.lastPosition.x ∨ g.aside = g ∧ g ≠ m

theorem Shifted.ne {m g : GcodeMove} (h : Shifted m g) : g ≠ m := by
  rcases h with ⟨-, hlt⟩ | ⟨-, hne⟩
  · rintro rfl
    exact lt_irrefl _ hlt
  · exact hne

theorem aside_relative {m : GcodeMove} (h : m.absoluteCoord = false) :
    m.aside.absoluteCoord = false ∧ m.lastPosition.x < m.aside.lastPosition.x := by
  refine ⟨h, ?_⟩
  simp [GcodeMove.aside, axisValue, h]

/-- Under `G90` the second move aside changes nothing more. -/
theorem aside_aside {m : GcodeMove} (h : m.absoluteCoord = true) : m.aside.aside = m.aside := by
  simp [GcodeMove.aside, axisValue, h]

theorem shifted_aside {m : GcodeMove} (h : m.aside ≠ m) : Shifted m m.aside := by
  cases habsolute : m.absoluteCoord with
  | false => exact Or.inl (aside_relative habsolute)
  | true => exact Or.inr ⟨aside_aside habsolute, h⟩

theorem Shifted.aside {m g : GcodeMove} (h : Shifted m g) : Shifted m g.aside := by
  rcases h with ⟨hrelative, hlt⟩ | ⟨hfixed, hne⟩
  · obtain ⟨hrelative', hlt'⟩ := aside_relative hrelative
    exact Or.inl ⟨hrelative', hlt.trans hlt'⟩
  · rw [hfixed]
    exact Or.inr ⟨hfixed, hne⟩

end GcodeMove

/-! ## The two runs -/

section TwoRuns

variable {σ : Type*}

/-- A printer that runs scripts: a comment does nothing, the macro restores all it changes, and the move aside is
`cmd_G1`, which to the place where the nozzle is does nothing, and is refused or leaves its move state elsewhere. -/
structure Printer (σ : Type*) where
  gcodeMove : σ → GcodeMove
  runScript : Script → σ → Ran σ
  noSkip : NoSkip runScript
  marker_done : ∀ line s, isMarker line = true → runScript line s = Ran.done s
  takeFrame_done : ∀ s, runScript takeFrame s = Ran.done s
  moveAside_move : ∀ s, (runScript moveAside s).failure = none →
    (gcodeMove s).cmdG1 asideParams = some (gcodeMove (runScript moveAside s).state) ∧
      (runScript moveAside s).pause = false
  moveAside_idle : ∀ s, (gcodeMove s).cmdG1 asideParams = some (gcodeMove s) → runScript moveAside s = Ran.done s

/-- Delay photography is on. -/
def filming (timelapsePosition frequency : ℤ) : TimeLapse := ⟨timelapsePosition, true, frequency⟩

/-- Delay photography is off. -/
def plain (timelapsePosition frequency : ℤ) : TimeLapse := ⟨timelapsePosition, false, frequency⟩

variable (p : Printer σ)

/-- The lines handed over that are no markers, each with the move state before. -/
def Printer.moves (dispatched : List (Script × σ)) : List (Script × GcodeMove) :=
  (dispatched.filter fun d => !isMarker d.1).map fun d => (d.1, p.gcodeMove d.2)

/-- The film leaves the print alone: the same lines in the same move states, those of the file in order, and the same
end. -/
structure Unchanged (content : List Char) (film print : Loop σ) : Prop where
  moves : p.moves film.dispatched = p.moves print.dispatched
  ending : film.ending = print.ending
  order : (p.moves film.dispatched).map Prod.fst <+: (fileLines content).filter fun line => !isMarker line
  all : film.ending = some .finished →
    (p.moves film.dispatched).map Prod.fst = (fileLines content).filter fun line => !isMarker line

/-- The move aside changes nothing. -/
def Printer.Idle (s : σ) : Prop := (p.gcodeMove s).aside = p.gcodeMove s

instance (s : σ) : Decidable (p.Idle s) := inferInstanceAs (Decidable (_ = _))

/-- From the state `s` on, with `layerCount` markers behind: at a marker the frequency is not zero; at one where the
nozzle is moved aside it is there already, or it may go there and only markers follow. -/
def Undisturbed (timelapsePosition frequency : ℤ) : ℕ → σ → List Script → Prop
  | _, _, [] => True
  | layerCount, s, line :: lines =>
    if isMarker line then
      frequency ≠ 0 ∧
        if (layerCount : ℤ) % frequency = 0 ∧ timelapsePosition ≠ 0 then
          (p.Idle s ∨ (p.runScript moveAside s).failure = none ∧ ∀ line ∈ lines, isMarker line = true) ∧
            Undisturbed timelapsePosition frequency (layerCount + 1) (p.runScript moveAside s).state lines
        else Undisturbed timelapsePosition frequency (layerCount + 1) s lines
    else
      (p.runScript line s).failure.isSome ∨ (p.runScript line s).pause = true ∨
        Undisturbed timelapsePosition frequency layerCount (p.runScript line s).state lines

/-! ### Line by line -/

variable {p} {t : TimeLapse} {layerCount : ℕ} {s : σ} {line : Script} {lines : List Script}
  {position frequency : ℤ} {failure : Failure}

theorem runScripts_single (runScript : Script → σ → Ran σ) (script : Script) (s : σ) :
    (runScripts runScript [script] s).state = (runScript script s).state ∧
      (runScripts runScript [script] s).failure = (runScript script s).failure ∧
      (runScripts runScript [script] s).pause = (runScript script s).pause := by
  unfold runScripts
  dsimp only
  split
  · exact ⟨rfl, rfl, rfl⟩
  · next hnone =>
    rw [Bool.not_eq_true, Option.isSome_eq_false_iff, Option.isNone_iff_eq_none] at hnone
    exact ⟨rfl, hnone.symm, by simp [runScripts, Ran.done]⟩

theorem Printer.frame (p : Printer σ) (s : σ) :
    (runScripts p.runScript [VirtualSD.moveAside, VirtualSD.takeFrame] s).state =
      (p.runScript VirtualSD.moveAside s).state ∧
      (runScripts p.runScript [VirtualSD.moveAside, VirtualSD.takeFrame] s).failure =
        (p.runScript VirtualSD.moveAside s).failure ∧
      ((p.runScript VirtualSD.moveAside s).failure = none →
        (runScripts p.runScript [VirtualSD.moveAside, VirtualSD.takeFrame] s).pause = false) := by
  unfold runScripts
  dsimp only
  split
  · next hsome => exact ⟨rfl, rfl, fun hnone => by simp [hnone] at hsome⟩
  · next hnone =>
    rw [Bool.not_eq_true, Option.isSome_eq_false_iff, Option.isNone_iff_eq_none] at hnone
    obtain ⟨hstate, hfailure, hpause⟩ := runScripts_single p.runScript VirtualSD.takeFrame
      (p.runScript VirtualSD.moveAside s).state
    rw [p.takeFrame_done] at hstate hfailure hpause
    refine ⟨hstate, hfailure.trans hnone.symm, fun _ => ?_⟩
    simp only [hpause, (p.moveAside_move s hnone).2]
    rfl

theorem dispatch_normal (hline : isMarker line = false) :
    dispatch p.runScript t layerCount line s = runScripts p.runScript [line] s ∧
      nextLayerCount t layerCount line = layerCount := by
  simp [dispatch, scripts, nextLayerCount, hline]

theorem runLines_cons {ran : Ran σ} (hran : dispatch p.runScript t layerCount line s = ran)
    (hfailure : ran.failure = none)
    (hpause : ran.pause = false) :
    runLines p.runScript t layerCount s (line :: lines) =
      ((line, s) :: (runLines p.runScript t (nextLayerCount t layerCount line) ran.state lines).1,
        (runLines p.runScript t (nextLayerCount t layerCount line) ran.state lines).2) := by
  rw [runLines]
  simp only [hran, hfailure, hpause, Bool.false_eq_true, if_false]

theorem runLines_failed {ran : Ran σ} (hran : dispatch p.runScript t layerCount line s = ran)
    (hfailure : ran.failure = some failure) :
    runLines p.runScript t layerCount s (line :: lines) = ([(line, s)], .failed failure, ran.state) := by
  rw [runLines]
  simp only [hran, hfailure]

theorem runLines_paused {ran : Ran σ} (hran : dispatch p.runScript t layerCount line s = ran)
    (hfailure : ran.failure = none)
    (hpause : ran.pause = true) :
    runLines p.runScript t layerCount s (line :: lines) = ([(line, s)], .paused, ran.state) := by
  rw [runLines]
  simp only [hran, hfailure, hpause, if_true]

theorem plain_runLines_marker (p : Printer σ) (position frequency : ℤ) (hline : isMarker line = true) :
    runLines p.runScript (plain position frequency) layerCount s (line :: lines) =
      ((line, s) :: (runLines p.runScript (plain position frequency) layerCount s lines).1,
        (runLines p.runScript (plain position frequency) layerCount s lines).2) := by
  have hdispatch : dispatch p.runScript (plain position frequency) layerCount line s =
      runScripts p.runScript [line] s := by
    simp [dispatch, scripts, plain]
  have hcount : nextLayerCount (plain position frequency) layerCount line = layerCount := by
    simp [nextLayerCount, plain]
  obtain ⟨hstate, hfailure, hpause⟩ := runScripts_single p.runScript line s
  rw [p.marker_done line s hline] at hstate hfailure hpause
  rw [runLines_cons hdispatch hfailure hpause, hcount, hstate]
  rfl

/-- With a frequency of zero a marker ends the film's print. -/
theorem filming_zero (p : Printer σ) (position : ℤ) (hline : isMarker line = true) :
    runLines p.runScript (filming position 0) layerCount s (line :: lines) = ([(line, s)], .failed .exception, s) := by
  have hdispatch : dispatch p.runScript (filming position 0) layerCount line s =
      { Ran.done s with failure := some .exception } := by
    simp [dispatch, scripts, filming, hline]
  rw [runLines_failed hdispatch rfl]
  rfl

/-- At a marker without the move aside the film goes on in the same state. -/
theorem filming_still (p : Printer σ) (hline : isMarker line = true)
    (hfrequency : frequency ≠ 0)
    (hstill : ¬ ((layerCount : ℤ) % frequency = 0 ∧ position ≠ 0)) :
    runLines p.runScript (filming position frequency) layerCount s (line :: lines) =
      ((line, s) :: (runLines p.runScript (filming position frequency) (layerCount + 1) s lines).1,
        (runLines p.runScript (filming position frequency) (layerCount + 1) s lines).2) := by
  have hcount : nextLayerCount (filming position frequency) layerCount line = layerCount + 1 := by
    simp [nextLayerCount, filming, hline]
  -- the frame, or the marker itself
  obtain ⟨script, hdispatch, hdone⟩ : ∃ script,
      dispatch p.runScript (filming position frequency) layerCount line s = runScripts p.runScript [script] s ∧
        p.runScript script s = Ran.done s := by
    by_cases htaken : (layerCount : ℤ) % frequency = 0
    · have hposition : position = 0 := by
        by_contra hne
        exact hstill ⟨htaken, hne⟩
      refine ⟨VirtualSD.takeFrame, ?_, p.takeFrame_done s⟩
      simp [dispatch, scripts, filming, hline, hfrequency, htaken, hposition]
    · refine ⟨line, ?_, p.marker_done line s hline⟩
      simp [dispatch, scripts, filming, hline, hfrequency, htaken]
  obtain ⟨hstate, hfailure, hpause⟩ := runScripts_single p.runScript script s
  rw [hdone] at hstate hfailure hpause
  rw [runLines_cons hdispatch hfailure hpause, hcount, hstate]
  rfl

theorem filming_dispatch_aside (p : Printer σ) (hline : isMarker line = true)
    (hfrequency : frequency ≠ 0) (htaken : (layerCount : ℤ) % frequency = 0 ∧ position ≠ 0) :
    dispatch p.runScript (filming position frequency) layerCount line s =
      runScripts p.runScript [VirtualSD.moveAside, VirtualSD.takeFrame] s := by
  simp [dispatch, scripts, filming, hline, hfrequency, htaken]

/-- At a marker with the move aside the film goes on in the state that it leaves. -/
theorem filming_aside (p : Printer σ) (hline : isMarker line = true)
    (hfrequency : frequency ≠ 0)
    (htaken : (layerCount : ℤ) % frequency = 0 ∧ position ≠ 0)
    (hfailure : (p.runScript VirtualSD.moveAside s).failure = none) :
    runLines p.runScript (filming position frequency) layerCount s (line :: lines) =
      ((line, s) :: (runLines p.runScript (filming position frequency) (layerCount + 1)
          (p.runScript VirtualSD.moveAside s).state lines).1,
        (runLines p.runScript (filming position frequency) (layerCount + 1)
          (p.runScript VirtualSD.moveAside s).state lines).2) := by
  have hcount : nextLayerCount (filming position frequency) layerCount line = layerCount + 1 := by
    simp [nextLayerCount, filming, hline]
  obtain ⟨hstate, hfail, hpause⟩ := p.frame s
  rw [runLines_cons (filming_dispatch_aside p hline hfrequency htaken) (hfail.trans hfailure) (hpause hfailure), hcount,
    hstate]

/-- Where the move aside is refused the film's print ends. -/
theorem filming_refused (p : Printer σ) (lines : List Script) (hline : isMarker line = true)
    (hfrequency : frequency ≠ 0) (htaken : (layerCount : ℤ) % frequency = 0 ∧ position ≠ 0)
    (hfailure : (p.runScript VirtualSD.moveAside s).failure = some failure) :
    (runLines p.runScript (filming position frequency) layerCount s (line :: lines)).1 = [(line, s)] ∧
      (runLines p.runScript (filming position frequency) layerCount s (line :: lines)).2.1 = .failed failure := by
  obtain ⟨-, hfail, -⟩ := p.frame s
  rw [runLines_failed (filming_dispatch_aside p hline hfrequency htaken) (hfail.trans hfailure)]
  exact ⟨rfl, rfl⟩

/-! ### The two runs compared -/

theorem Printer.moves_marker (p : Printer σ) (hline : isMarker line = true) (ds : List (Script × σ)) :
    p.moves ((line, s) :: ds) = p.moves ds := by
  simp [Printer.moves, hline]

theorem Printer.moves_normal (p : Printer σ) (hline : isMarker line = false) (ds : List (Script × σ)) :
    p.moves ((line, s) :: ds) = (line, p.gcodeMove s) :: p.moves ds := by
  simp [Printer.moves, hline]

/-- The same lines in the same move states, and the same end. -/
def Same (p : Printer σ) (film print : List (Script × σ) × Ending × σ) : Prop :=
  p.moves film.1 = p.moves print.1 ∧ film.2.1 = print.2.1

/-- Without the film only a line that is no marker can fail. -/
theorem plain_failed (p : Printer σ)
    (h : (runLines p.runScript (plain position frequency) layerCount s lines).2.1 = .failed failure) :
    p.moves (runLines p.runScript (plain position frequency) layerCount s lines).1 ≠ [] := by
  induction lines generalizing s with
  | nil => cases h
  | cons line lines ih =>
    cases hline : isMarker line with
    | true =>
      rw [plain_runLines_marker p position frequency hline] at h ⊢
      rw [p.moves_marker hline]
      exact ih h
    | false =>
      rw [runLines]
      split
      · rw [p.moves_normal hline]
        exact List.cons_ne_nil _ _
      · dsimp only
        split <;> · rw [p.moves_normal hline]; exact List.cons_ne_nil _ _

theorem not_same_of_failed {film : List (Script × σ) × Ending × σ}
    (hline : isMarker line = true) (hfilm : film.1 = [(line, s)]) (hending : film.2.1 = .failed failure) {s' : σ} :
    ¬ Same p film (runLines p.runScript (plain position frequency) 0 s' lines) := by
  rintro ⟨hmoves, hend⟩
  rw [hfilm, p.moves_marker hline] at hmoves
  exact plain_failed p (hend.symm.trans hending) hmoves.symm

theorem same_marker_iff (p : Printer σ) (position frequency : ℤ) (hline : isMarker line = true) {film : σ}
    (r : List (Script × σ) × Ending × σ) :
    Same p ((line, film) :: r.1, r.2) (runLines p.runScript (plain position frequency) 0 s (line :: lines)) ↔
      Same p r (runLines p.runScript (plain position frequency) 0 s lines) := by
  rw [plain_runLines_marker p position frequency hline]
  unfold Same
  rw [p.moves_marker hline, p.moves_marker hline]

/-- With a frequency of zero the film ends at a marker. -/
theorem not_same_zero (p : Printer σ) (position : ℤ) (hline : isMarker line = true) {film : σ} :
    ¬ Same p (runLines p.runScript (filming position 0) layerCount film (line :: lines))
      (runLines p.runScript (plain position 0) 0 s (line :: lines)) :=
  not_same_of_failed hline (by rw [filming_zero p position hline]) (by rw [filming_zero p position hline])

/-- A move that the nozzle has no way to go is not refused. -/
theorem Printer.not_idle_of_failed (p : Printer σ)
    (h : (p.runScript VirtualSD.moveAside s).failure = some failure) : ¬ p.Idle s := by
  intro hidle
  rw [p.moveAside_idle s (by rw [cmdG1_aside, hidle])] at h
  cases h

theorem Printer.gcodeMove_moveAside (p : Printer σ) (h : (p.runScript VirtualSD.moveAside s).failure = none) :
    p.gcodeMove (p.runScript VirtualSD.moveAside s).state = (p.gcodeMove s).aside := by
  have hmove := (p.moveAside_move s h).1
  rw [cmdG1_aside] at hmove
  exact (Option.some.inj hmove).symm

/-- A line that is no marker is the first move of a print. -/
theorem Printer.moves_runLines (p : Printer σ) (hline : isMarker line = false) (t : TimeLapse) : ∃ ds,
    p.moves (runLines p.runScript t layerCount s (line :: lines)).1 = (line, p.gcodeMove s) :: ds := by
  rw [runLines]
  split
  · exact ⟨_, p.moves_normal hline _⟩
  · dsimp only
    split <;> exact ⟨_, p.moves_normal hline _⟩

/-- **Once the nozzle is left elsewhere**, the film is the same only while nothing but markers follows. -/
theorem same_shifted_iff (p : Printer σ) (position frequency : ℤ) {film : σ}
    (hshifted : Shifted (p.gcodeMove s) (p.gcodeMove film)) :
    Same p (runLines p.runScript (filming position frequency) layerCount film lines)
        (runLines p.runScript (plain position frequency) 0 s lines) ↔
      (∀ line ∈ lines, isMarker line = true) ∧ Undisturbed p position frequency layerCount film lines := by
  induction lines generalizing layerCount film with
  | nil => exact iff_of_true ⟨rfl, rfl⟩ ⟨by simp, trivial⟩
  | cons line lines ih =>
    cases hline : isMarker line with
    | false =>
      -- the line is handed over in different states
      refine iff_of_false ?_ fun h => by simpa [hline] using h.1 line List.mem_cons_self
      rintro ⟨hmoves, -⟩
      obtain ⟨ds, hfilm⟩ := p.moves_runLines hline (filming position frequency)
      obtain ⟨ds', hprint⟩ := p.moves_runLines hline (plain position frequency)
      rw [hfilm, hprint, List.cons.injEq, Prod.mk.injEq] at hmoves
      exact hshifted.ne hmoves.1.2
    | true =>
      have hmarkers : (∀ line' ∈ line :: lines, isMarker line' = true) ↔ ∀ line ∈ lines, isMarker line = true := by
        simp [hline]
      rw [hmarkers, Undisturbed, if_pos hline]
      by_cases hfrequency : frequency = 0
      · subst hfrequency
        exact iff_of_false (not_same_zero p position hline) fun h => h.2.1 rfl
      rw [and_iff_right hfrequency]
      split
      · next htaken =>
        cases hfailure : (p.runScript VirtualSD.moveAside film).failure with
        | some failure =>
          obtain ⟨hfilm, hending⟩ := filming_refused p lines hline hfrequency htaken hfailure
          refine iff_of_false (not_same_of_failed hline hfilm hending) fun h => ?_
          rcases h.2.1 with hidle | ⟨hnone, -⟩
          · exact p.not_idle_of_failed hfailure hidle
          · cases hnone
        | none =>
          have hstate := p.gcodeMove_moveAside hfailure
          rw [filming_aside p hline hfrequency htaken hfailure, same_marker_iff p position frequency hline,
            ih (by rw [hstate]; exact hshifted.aside)]
          tauto
      · next hstill =>
        rw [filming_still p hline hfrequency hstill, same_marker_iff p position frequency hline, ih hshifted]

/-- **From one state** the film is the same as the print exactly where it leaves the print undisturbed. -/
theorem same_iff (p : Printer σ) (position frequency : ℤ) (layerCount : ℕ) (s : σ) (lines : List Script) :
    Same p (runLines p.runScript (filming position frequency) layerCount s lines)
        (runLines p.runScript (plain position frequency) 0 s lines) ↔
      Undisturbed p position frequency layerCount s lines := by
  induction lines generalizing layerCount s with
  | nil => exact iff_of_true ⟨rfl, rfl⟩ trivial
  | cons line lines ih =>
    rw [Undisturbed]
    cases hline : isMarker line with
    | false =>
      -- the same script in the same state
      have hran (t : TimeLapse) (count : ℕ) : dispatch p.runScript t count line s = runScripts p.runScript [line] s ∧
          nextLayerCount t count line = count := dispatch_normal hline
      obtain ⟨hstate, hfailure, hpause⟩ := runScripts_single p.runScript line s
      rw [if_neg Bool.false_ne_true]
      cases hfail : (p.runScript line s).failure with
      | some failure =>
        rw [hfail] at hfailure
        rw [runLines_failed (hran _ _).1 hfailure, runLines_failed (hran _ _).1 hfailure]
        exact iff_of_true ⟨rfl, rfl⟩ (Or.inl rfl)
      | none =>
        rw [hfail] at hfailure
        cases hstop : (p.runScript line s).pause with
        | true =>
          rw [hstop] at hpause
          rw [runLines_paused (hran _ _).1 hfailure hpause, runLines_paused (hran _ _).1 hfailure hpause]
          exact iff_of_true ⟨rfl, rfl⟩ (Or.inr (Or.inl rfl))
        | false =>
          rw [hstop] at hpause
          rw [runLines_cons (hran _ _).1 hfailure hpause, runLines_cons (hran _ _).1 hfailure hpause, (hran _ _).2,
            (hran _ _).2, hstate]
          simp only [Bool.false_eq_true, Option.isSome_none, false_or, ← ih]
          unfold Same
          rw [p.moves_normal hline, p.moves_normal hline, List.cons_inj_right]
    | true =>
      rw [if_pos rfl]
      by_cases hfrequency : frequency = 0
      · subst hfrequency
        exact iff_of_false (not_same_zero p position hline) fun h => h.1 rfl
      rw [and_iff_right hfrequency]
      split
      · next htaken =>
        cases hfailure : (p.runScript VirtualSD.moveAside s).failure with
        | some failure =>
          obtain ⟨hfilm, hending⟩ := filming_refused p lines hline hfrequency htaken hfailure
          refine iff_of_false (not_same_of_failed hline hfilm hending) fun h => ?_
          rcases h.1 with hidle | ⟨hnone, -⟩
          · exact p.not_idle_of_failed hfailure hidle
          · cases hnone
        | none =>
          rw [filming_aside p hline hfrequency htaken hfailure, same_marker_iff p position frequency hline]
          by_cases hidle : p.Idle s
          · have hstate : (p.runScript VirtualSD.moveAside s).state = s := by
              rw [p.moveAside_idle s (by rw [cmdG1_aside, hidle])]
              rfl
            rw [hstate, ih]
            exact (and_iff_right (Or.inl hidle)).symm
          · have hstate := p.gcodeMove_moveAside hfailure
            rw [same_shifted_iff p position frequency (by rw [hstate]; exact shifted_aside hidle)]
            simp only [hidle, false_or, true_and]
      · next hstill =>
        rw [filming_still p hline hfrequency hstill, same_marker_iff p position frequency hline, ih]

theorem Printer.moves_lines (p : Printer σ) (ds : List (Script × σ)) :
    (p.moves ds).map Prod.fst = (ds.map Prod.fst).filter fun line => !isMarker line := by
  unfold Printer.moves
  rw [List.map_map, List.filter_map]
  rfl

theorem Unchanged.undisturbed {p : Printer σ} {content : List Char} {s : σ}
    (h : Unchanged p content (workHandler p.runScript (filming position frequency) content 0 s)
      (workHandler p.runScript (plain position frequency) content 0 s)) :
    Undisturbed p position frequency 0 s (fileLines content) := by
  obtain ⟨hfilmEnd, hfilm⟩ := workHandler_eq (t := filming position frequency) p.noSkip content 0 s
  obtain ⟨hprintEnd, hprint⟩ := workHandler_eq (t := plain position frequency) p.noSkip content 0 s
  have hmoves := h.moves
  have hending := h.ending
  rw [hfilm, hprint] at hmoves
  rw [hfilmEnd, hprintEnd, Option.some.injEq] at hending
  exact (same_iff p position frequency 0 s _).mp ⟨hmoves, hending⟩

/-- **The film**: it leaves the print of a file unchanged exactly where it leaves its lines undisturbed. -/
theorem timelapse_unchanged_iff (p : Printer σ) (position frequency : ℤ) (content : List Char) (s : σ) :
    Unchanged p content (workHandler p.runScript (filming position frequency) content 0 s)
        (workHandler p.runScript (plain position frequency) content 0 s) ↔
      Undisturbed p position frequency 0 s (fileLines content) := by
  refine ⟨Unchanged.undisturbed, fun h => ?_⟩
  obtain ⟨hmoves, hending⟩ := (same_iff p position frequency 0 s _).mpr h
  obtain ⟨horder, hall⟩ := runLines_lines p.runScript (filming position frequency) 0 s (fileLines content)
  obtain ⟨hfilmEnd, hfilm⟩ := workHandler_eq (t := filming position frequency) p.noSkip content 0 s
  obtain ⟨hprintEnd, hprint⟩ := workHandler_eq (t := plain position frequency) p.noSkip content 0 s
  rw [List.drop_zero] at hfilmEnd hfilm hprintEnd hprint
  refine ⟨by rw [hfilm, hprint, hmoves], by rw [hfilmEnd, hprintEnd, hending], ?_, fun hfinished => ?_⟩
  · rw [hfilm, p.moves_lines]
    exact horder.filter _
  · rw [hfilmEnd, Option.some.injEq] at hfinished
    rw [hfilm, p.moves_lines, hall hfinished]

/-- A printer that makes every move aside and knows one other move; its other scripts do nothing. -/
def takesAll : Printer GcodeMove where
  gcodeMove := id
  runScript script m := Ran.done
    (if script = moveAside then m.aside
      else if script = "G1 Z5".toList then (m.cmdG1 ⟨none, none, some 5, none, none⟩).getD m else m)
  noSkip _ _ := rfl
  marker_done line m h := by
    have hother : ∀ script, isMarker script = false → line ≠ script := fun script hs heq =>
      absurd (heq ▸ h) (by rw [hs]; decide)
    rw [if_neg (hother _ (by decide)), if_neg (hother _ (by decide))]
  takeFrame_done m := by rw [if_neg (by decide), if_neg (by decide)]
  moveAside_move m _ := by
    rw [if_pos rfl]
    exact ⟨cmdG1_aside m, rfl⟩
  moveAside_idle m h := by
    rw [if_pos rfl, Option.some.inj ((cmdG1_aside m).symm.trans h)]
    rfl

/-- Klipper's move state at the start. -/
def GcodeMove.start : GcodeMove :=
  ⟨true, true, ⟨0, 0, 0, 0⟩, ⟨0, 0, 0, 0⟩, ⟨0, 0, 0, 0⟩, 25, 1 / 60, 1⟩

/-- A marker and a move. -/
def oneLayer : List Char := ";LAYER:0\nG1 Z5\n".toList

/-- The move starts where the frame was taken; and with a frequency of zero the print ends at the marker. -/
theorem frame_shifts_next_line :
    ¬ Unchanged takesAll oneLayer (workHandler takesAll.runScript (filming 1 1) oneLayer 0 GcodeMove.start)
        (workHandler takesAll.runScript (plain 1 1) oneLayer 0 GcodeMove.start) ∧
      ¬ Unchanged takesAll oneLayer (workHandler takesAll.runScript (filming 0 0) oneLayer 0 GcodeMove.start)
        (workHandler takesAll.runScript (plain 0 0) oneLayer 0 GcodeMove.start) := by
  have hlines : fileLines oneLayer = [";LAYER:0".toList, "G1 Z5".toList] := by decide
  have hmarker : isMarker ";LAYER:0".toList = true := by decide
  have hmove : isMarker "G1 Z5".toList = false := by decide
  constructor
  · intro h
    have hfile := h.undisturbed
    rw [hlines, Undisturbed, if_pos hmarker, if_pos (by decide)] at hfile
    rcases hfile.2.1 with hidle | ⟨-, hall⟩
    · have hx := congrArg (fun m => m.lastPosition.x) hidle
      norm_num [takesAll, GcodeMove.aside, GcodeMove.start, axisValue] at hx
    · have hnot := hall _ (List.mem_singleton_self _)
      rw [hmove] at hnot
      cases hnot
  · intro h
    have hfile := h.undisturbed
    rw [hlines, Undisturbed, if_pos hmarker] at hfile
    exact hfile.1 rfl

end TwoRuns

end Cxsw.VirtualSD
