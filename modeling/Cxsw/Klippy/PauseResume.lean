import Cxsw.Klippy.VirtualSdcard
import Cxsw.Lib.Run

/-!
# Cxsw.Klippy.PauseResume — a print that is paused and resumed (`klippy/extras/virtual_sdcard.py`)

`do_pause` lets the work handler end and `do_resume` starts it again at `file_position`.  The lines that were read ahead
and the line that had begun are read again; `layer_count` starts again at zero, so that the film takes its next frame at
the first marker after the resume.

* `step`: a round of the loop, or a pause with the resume after it.
* `Kept`: what every run keeps; at a pause it gives the position.
* `Fits`: a marker is handed over with the same remainder of `layer_count` as without the pauses.
* `pause_transparent_iff`: the scripts are those of the print without pauses where every step fits, and nowhere else.
-/

namespace Cxsw.VirtualSD

/-! ## Pauses -/

section Pauses

/-- What is handed to `run_script` is kept in order; no script fails. -/
def logScript (script : Script) (log : List Script) : Ran (List Script) := Ran.done (log ++ [script])

/-- What happens between two lines. -/
inductive Event where
  | round
  | pauseResume
  deriving DecidableEq

variable (t : TimeLapse) (content : List Char)

/-- `do_pause`: the handler sees `must_pause_work` and ends.  Without a work timer nothing happens. -/
def doPause (l : Loop (List Script)) : Loop (List Script) :=
  if l.ending.isSome then l else Loop.iteration logScript t { l with mustPauseWork := true }

/-- `do_resume` after a pause: the handler begins again. -/
def doResume (l : Loop (List Script)) : Loop (List Script) :=
  if l.ending = some .paused then
    { Loop.enter l.currentFile.content l.filePosition l.state with dispatched := l.dispatched }
  else l

def step (l : Loop (List Script)) : Event → Loop (List Script)
  | .round => l.iteration logScript t
  | .pauseResume => doResume (doPause t l)

/-- The events of a print, up to its end. -/
def toEnd (events : List Event) : List Event := events ++ List.replicate (2 * content.length + 1) .round

/-- A print with pauses, up to its end. -/
def pausedPrint (events : List Event) : Loop (List Script) :=
  (toEnd content events).foldl (step t) (Loop.enter content 0 [])

/-- The lines handed over. -/
def Loop.handedOver (l : Loop (List Script)) : List Script := l.dispatched.map Prod.fst

/-- `file_position` is the offset of the first line not yet handed over. -/
def AtNextLine (l : Loop (List Script)) : Prop :=
  l.filePosition = (l.handedOver.flatMap (· ++ ['\n'])).length ∧
    l.handedOver ++ fileLines (content.drop l.filePosition) = fileLines content

/-- The print with pauses runs the scripts of the print without, to the end of the file, and at every pause the
position is that of the next line. -/
structure Transparent (events : List Event) : Prop where
  scripts : (pausedPrint t content events).state = (workHandler logScript t content 0 []).state
  ending : (pausedPrint t content events).ending = some .finished
  position : ∀ before, before ++ [.pauseResume] <+: events →
    AtNextLine content (doPause t (before.foldl (step t) (Loop.enter content 0 [])))

/-- The markers that the film counts in these lines. -/
def markersIn (lines : List Script) : ℕ := lines.foldl (nextLayerCount t) 0

/-- If a marker is handed over, the markers that were handed over before the last resume are a multiple of the
frequency. -/
def Fits (l : Loop (List Script)) : Event → Prop
  | .pauseResume => True
  | .round =>
    t.enableDelayPhotography = true → l.ending = none → (∃ line ∈ l.lines.head?, isMarker line = true) →
      t.frequency ∣ (markersIn t l.handedOver : ℤ) - l.layerCount

instance (l : Loop (List Script)) : (event : Event) → Decidable (Fits t l event)
  | .pauseResume => isTrue trivial
  | .round => inferInstanceAs (Decidable (_ → _ → _ → _))

end Pauses

/-! ## The scripts of the lines -/

section Scripts

variable {t : TimeLapse}

/-- The scripts for a line, for a frequency that is not zero. -/
def lineScripts (t : TimeLapse) (layerCount : ℕ) (line : Script) : List Script := (scripts t layerCount line).getD []

/-- The scripts for the lines of a print. -/
def allScripts (t : TimeLapse) : ℕ → List Script → List Script
  | _, [] => []
  | layerCount, line :: lines => lineScripts t layerCount line ++ allScripts t (nextLayerCount t layerCount line) lines

theorem allScripts_concat (layerCount : ℕ) (lines : List Script) (line : Script) :
    allScripts t layerCount (lines ++ [line]) =
      allScripts t layerCount lines ++ lineScripts t (lines.foldl (nextLayerCount t) layerCount) line := by
  induction lines generalizing layerCount with
  | nil => simp [allScripts]
  | cons line' lines ih =>
    rw [List.cons_append, allScripts, ih, allScripts, List.append_assoc]
    rfl

theorem markersIn_concat (lines : List Script) (line : Script) :
    markersIn t (lines ++ [line]) = nextLayerCount t (markersIn t lines) line := by
  rw [markersIn, List.foldl_append]
  rfl

/-- What is not filmed is handed over as it is, and not counted. -/
theorem lineScripts_of_not {line : Script} (h : (t.enableDelayPhotography && isMarker line) = false) (layerCount : ℕ) :
    lineScripts t layerCount line = [line] ∧ nextLayerCount t layerCount line = layerCount := by
  rw [lineScripts, scripts, nextLayerCount, h]
  exact ⟨rfl, rfl⟩

theorem lineScripts_congr {a b : ℕ} (h : t.frequency ∣ (a : ℤ) - b) (line : Script) :
    lineScripts t a line = lineScripts t b line := by
  have hmod : (a : ℤ) % t.frequency = b % t.frequency :=
    Int.emod_eq_emod_iff_emod_sub_eq_zero.mpr (Int.emod_eq_zero_of_dvd h)
  simp only [lineScripts, scripts, hmod]

theorem lineScripts_frame {line : Script} (hfilm : t.enableDelayPhotography = true) (hline : isMarker line = true)
    (hfreq : 1 ≤ t.frequency) {a b : ℕ} (ha : t.frequency ∣ (a : ℤ)) (hb : ¬ t.frequency ∣ (b : ℤ)) :
    ∃ script rest, lineScripts t a line = script :: rest ∧ lineScripts t b line = [line] ∧ script ≠ line := by
  have hzero : t.frequency ≠ 0 := by omega
  have hfilmed : (t.enableDelayPhotography && isMarker line) = true := by rw [hfilm, hline]; rfl
  have hon : (a : ℤ) % t.frequency = 0 := Int.emod_eq_zero_of_dvd ha
  have hoff : ¬ (b : ℤ) % t.frequency = 0 := mt Int.dvd_of_emod_eq_zero hb
  have hplain : lineScripts t b line = [line] := by
    rw [lineScripts, scripts, if_pos hfilmed, if_neg hzero, if_neg hoff]
    rfl
  have hne {script : Script} (h : isMarker script = false) : script ≠ line := by
    rintro rfl
    rw [h] at hline
    cases hline
  by_cases hposition : t.timelapsePosition = 0
  · refine ⟨takeFrame, [], ?_, hplain, hne (by decide)⟩
    rw [lineScripts, scripts, if_pos hfilmed, if_neg hzero, if_pos hon, if_neg (not_not.mpr hposition)]
    rfl
  · refine ⟨moveAside, [takeFrame], ?_, hplain, hne (by decide)⟩
    rw [lineScripts, scripts, if_pos hfilmed, if_neg hzero, if_pos hon, if_pos hposition]
    rfl

theorem noSkip_logScript : NoSkip logScript := fun _ _ => rfl

theorem runScripts_logScript (scripts log : List Script) :
    runScripts logScript scripts log = Ran.done (log ++ scripts) := by
  induction scripts generalizing log with
  | nil => rw [List.append_nil, runScripts]
  | cons script scripts ih =>
    rw [runScripts]
    simp only [logScript, Ran.done, Option.isSome_none, Bool.false_eq_true, if_false] at ih ⊢
    rw [ih]
    simp

theorem dispatch_logScript (hfreq : 1 ≤ t.frequency) (layerCount : ℕ) (line : Script) (log : List Script) :
    dispatch logScript t layerCount line log = Ran.done (log ++ lineScripts t layerCount line) := by
  have hzero : t.frequency ≠ 0 := by omega
  obtain ⟨ss, hss⟩ : ∃ ss, scripts t layerCount line = some ss := by
    simp only [scripts, if_neg hzero]
    split
    · split <;> exact ⟨_, rfl⟩
    · exact ⟨_, rfl⟩
  rw [dispatch, lineScripts, hss]
  exact runScripts_logScript ss log

/-- Line by line, the scripts of all lines are handed over and the file ends. -/
theorem runLines_logScript (hfreq : 1 ≤ t.frequency) (layerCount : ℕ) (log : List Script) (lines : List Script) :
    (runLines logScript t layerCount log lines).2 = (.finished, log ++ allScripts t layerCount lines) := by
  induction lines generalizing layerCount log with
  | nil => rw [runLines, allScripts, List.append_nil]
  | cons line lines ih =>
    rw [runLines]
    simp only [dispatch_logScript hfreq, Ran.done, Bool.false_eq_true, if_false]
    rw [ih, allScripts, List.append_assoc]

end Scripts

/-! ## Runs -/

section Runs

variable {t : TimeLapse} {content : List Char} {l : Loop (List Script)}

/-- What every run keeps. -/
structure Kept (content : List Char) (l : Loop (List Script)) : Prop where
  inv : Inv content l
  running : l.mustPauseWork = false
  next : AtNextLine content l
  ending : l.ending = none ∨ l.ending = some .finished ∧ fileLines (content.drop l.filePosition) = []

theorem kept_enter (content : List Char) : Kept content (Loop.enter content 0 []) where
  inv := inv_enter content 0 []
  running := rfl
  next := ⟨rfl, rfl⟩
  ending := Or.inl rfl

/-- A step that hands over nothing. -/
structure Still (t : TimeLapse) (l l' : Loop (List Script)) (event : Event) : Prop where
  handedOver : l'.handedOver = l.handedOver
  state : l'.state = l.state
  layerCount : l'.layerCount = l.layerCount ∨ l'.layerCount = 0
  fits : Fits t l event

/-- A step that hands over the line `line`. -/
structure Hands (t : TimeLapse) (l l' : Loop (List Script)) (event : Event) (line : Script) : Prop where
  handedOver : l'.handedOver = l.handedOver ++ [line]
  state : l'.state = l.state ++ lineScripts t l.layerCount line
  layerCount : l'.layerCount = nextLayerCount t l.layerCount line
  fits : Fits t l event ↔ (t.enableDelayPhotography = true → isMarker line = true →
    t.frequency ∣ (markersIn t l.handedOver : ℤ) - l.layerCount)

theorem still_of_finished (h : l.ending = some .finished) (event : Event) :
    doPause t l = l ∧ step t l event = l ∧ Still t l l event := by
  have hended : l.ending.isSome := by rw [h]; rfl
  have hpause : doPause t l = l := if_pos hended
  refine ⟨hpause, ?_, ⟨rfl, rfl, Or.inl rfl, ?_⟩⟩
  · cases event with
    | round => exact iteration_of_ended hended
    | pauseResume =>
      rw [step, hpause, doResume, if_neg]
      simp [h]
  · cases event with
    | round => exact fun _ hnone => by simp [hnone] at h
    | pauseResume => trivial

/-- **A round**: more is read, a line is handed over, or the loop ends. -/
theorem round_cases (hfreq : 1 ≤ t.frequency) (h : Kept content l) (hrunning : l.ending = none) :
    Kept content (step t l .round) ∧
      (Still t l (step t l .round) .round ∨ ∃ line, Hands t l (step t l .round) .round line) := by
  rw [step]
  cases hlines : l.lines with
  | nil =>
    have hfits : Fits t l .round := fun _ _ ⟨line, hhead, _⟩ => by simp [hlines] at hhead
    by_cases hdata : l.currentFile.data = []
    · have hnone := h.inv.nothing_left hlines hdata
      rw [iteration_finished hrunning h.running hlines hdata]
      exact ⟨⟨⟨h.inv.file, h.inv.position, h.inv.lines, h.inv.partialInput⟩, h.running, h.next, Or.inr ⟨rfl, hnone⟩⟩,
        Or.inl ⟨rfl, rfl, Or.inl rfl, hfits⟩⟩
    · rw [iteration_read hrunning h.running hlines hdata]
      exact ⟨⟨h.inv.read hlines, h.running, h.next, Or.inl hrunning⟩, Or.inl ⟨rfl, rfl, Or.inl rfl, hfits⟩⟩
  | cons line lines =>
    have hran := dispatch_logScript hfreq l.layerCount line l.state
    have hfailure : (dispatch logScript t l.layerCount line l.state).failure = none := by
      rw [hran]
      rfl
    have hskip : (dispatch logScript t l.layerCount line l.state).skipTo = none := by
      rw [hran]
      rfl
    obtain ⟨hnext, hinv⟩ := h.inv.dispatchLine hlines hfailure hskip
    rw [hran] at hnext
    have hhanded : (l.dispatchLine logScript t line lines).handedOver = l.handedOver ++ [line] := by
      rw [hnext]
      simp [Loop.handedOver]
    have htodo := h.inv.todo
    have htail := hinv.todo
    rw [iteration_dispatch hrunning h.running hlines]
    refine ⟨⟨hinv, ?_, ⟨?_, ?_⟩, Or.inl ?_⟩, Or.inr ⟨line, hhanded, ?_, ?_, ?_⟩⟩
    · rw [hnext]
      simp [h.running, Ran.done]
    · rw [hhanded, hnext]
      simp [h.next.1, Nat.add_assoc]
    · rw [hhanded, htail, List.append_assoc, ← h.next.2, htodo, hlines, hnext]
      rfl
    · rw [hnext]
      exact hrunning
    · rw [hnext]
      rfl
    · rw [hnext]
    · simp [Fits, hrunning, hlines]

/-- **A pause with its resume** hands over nothing, and `layer_count` starts again. -/
theorem pauseResume_still (h : Kept content l) (hrunning : l.ending = none) :
    AtNextLine content (doPause t l) ∧ Kept content (step t l .pauseResume) ∧
      Still t l (step t l .pauseResume) .pauseResume := by
  have hpause : doPause t l = { l with mustPauseWork := true, ending := some .paused } := by
    simp [doPause, Loop.iteration, hrunning]
  have hresume : step t l .pauseResume =
      { Loop.enter content l.filePosition l.state with dispatched := l.dispatched } := by
    rw [step, hpause, doResume, if_pos rfl]
    dsimp only
    rw [h.inv.file]
  rw [hpause, hresume]
  refine ⟨h.next, ⟨?_, rfl, h.next, Or.inl rfl⟩, ⟨rfl, rfl, Or.inr rfl, trivial⟩⟩
  obtain ⟨hfile, hposition, hlines, hpartial⟩ := inv_enter content l.filePosition l.state
  exact ⟨hfile, hposition, hlines, hpartial⟩

/-- **What a step does**, in a run. -/
theorem step_cases (hfreq : 1 ≤ t.frequency) (h : Kept content l) (event : Event) :
    Kept content (step t l event) ∧
      (Still t l (step t l event) event ∨ ∃ line, Hands t l (step t l event) event line) := by
  rcases h.ending with hrunning | ⟨hfinished, -⟩
  · cases event with
    | round => exact round_cases hfreq h hrunning
    | pauseResume =>
      obtain ⟨-, hkept, hstill⟩ := pauseResume_still (t := t) h hrunning
      exact ⟨hkept, Or.inl hstill⟩
  · obtain ⟨-, hstep, hstill⟩ := still_of_finished (t := t) hfinished event
    rw [hstep]
    exact ⟨h, Or.inl hstill⟩

theorem Kept.atNextLine (h : Kept content l) : AtNextLine content (doPause t l) := by
  rcases h.ending with hrunning | ⟨hfinished, -⟩
  · exact (pauseResume_still h hrunning).1
  · rw [(still_of_finished hfinished .pauseResume).1]
    exact h.next

/-- Two lists that differ at some place. -/
def Diverged (a b : List Script) : Prop := ∃ p x y u v, x ≠ y ∧ a = p ++ x :: u ∧ b = p ++ y :: v

theorem Diverged.append {a b : List Script} (h : Diverged a b) (c d : List Script) : Diverged (a ++ c) (b ++ d) := by
  obtain ⟨p, x, y, u, v, hne, rfl, rfl⟩ := h
  exact ⟨p, x, y, u ++ c, v ++ d, hne, by simp, by simp⟩

theorem Diverged.ne {a b : List Script} (h : Diverged a b) : a ≠ b := by
  obtain ⟨p, x, y, u, v, hne, rfl, rfl⟩ := h
  intro heq
  exact hne (List.cons.inj (List.append_cancel_left heq)).1

/-- The scripts so far are those of the lines handed over, and within a piece of the print between two pauses the
markers have the remainders that they have without them. -/
structure OnTrack (t : TimeLapse) (l : Loop (List Script)) : Prop where
  state : l.state = allScripts t 0 l.handedOver
  layerCount : l.layerCount ≠ 0 → t.frequency ∣ (markersIn t l.handedOver : ℤ) - l.layerCount

/-- The scripts so far are not those of the lines handed over. -/
def OffTrack (t : TimeLapse) (l : Loop (List Script)) : Prop := Diverged l.state (allScripts t 0 l.handedOver)

theorem OnTrack.still {l' : Loop (List Script)} {event : Event} (h : OnTrack t l) (hstill : Still t l l' event) :
    OnTrack t l' := by
  refine ⟨by rw [hstill.state, hstill.handedOver, h.state], fun hne => ?_⟩
  rcases hstill.layerCount with hsame | hzero
  · rw [hsame] at hne ⊢
    rw [hstill.handedOver]
    exact h.layerCount hne
  · exact absurd hzero hne

theorem OnTrack.hands {l' : Loop (List Script)} {event : Event} {line : Script} (h : OnTrack t l)
    (hhands : Hands t l l' event line) (hfits : Fits t l event) : OnTrack t l' := by
  cases hfilmed : t.enableDelayPhotography && isMarker line with
  | false =>
    obtain ⟨hscripts, hcount⟩ := lineScripts_of_not hfilmed l.layerCount
    obtain ⟨hscripts', hcount'⟩ := lineScripts_of_not hfilmed (markersIn t l.handedOver)
    constructor
    · rw [hhands.state, hhands.handedOver, allScripts_concat, h.state, hscripts]
      exact congrArg _ hscripts'.symm
    · rw [hhands.layerCount, hhands.handedOver, markersIn_concat, hcount, hcount']
      exact h.layerCount
  | true =>
    obtain ⟨hfilm, hline⟩ := Bool.and_eq_true_iff.mp hfilmed
    have hdvd := hhands.fits.mp hfits hfilm hline
    constructor
    · rw [hhands.state, hhands.handedOver, allScripts_concat, h.state]
      exact congrArg _ (lineScripts_congr hdvd line).symm
    · intro _
      have hsame : ((markersIn t l.handedOver + 1 : ℕ) : ℤ) - ((l.layerCount + 1 : ℕ) : ℤ) =
          (markersIn t l.handedOver : ℤ) - l.layerCount := by omega
      rw [hhands.layerCount, hhands.handedOver, markersIn_concat, nextLayerCount, nextLayerCount, hfilmed, if_pos rfl,
        if_pos rfl, hsame]
      exact hdvd

theorem OnTrack.leave (hfreq : 1 ≤ t.frequency) {l' : Loop (List Script)} {event : Event} {line : Script}
    (h : OnTrack t l) (hhands : Hands t l l' event line) (hfits : ¬ Fits t l event) : OffTrack t l' := by
  rw [hhands.fits] at hfits
  push Not at hfits
  obtain ⟨hfilm, hline, hdvd⟩ := hfits
  have hzero : l.layerCount = 0 := by
    by_contra hne
    exact hdvd (h.layerCount hne)
  have hmarkers : ¬ t.frequency ∣ (markersIn t l.handedOver : ℤ) := by simpa [hzero] using hdvd
  have hfirst : t.frequency ∣ ((0 : ℕ) : ℤ) := Int.dvd_zero _
  obtain ⟨script, rest, hframe, hplain, hne⟩ := lineScripts_frame hfilm hline hfreq hfirst hmarkers
  refine ⟨l.state, script, line, rest, [], hne, ?_, ?_⟩
  · rw [hhands.state, hzero, hframe]
  · rw [hhands.handedOver, allScripts_concat, h.state]
    exact congrArg _ hplain

theorem OffTrack.step (hfreq : 1 ≤ t.frequency) (h : OffTrack t l) (hkept : Kept content l) (event : Event) :
    OffTrack t (step t l event) := by
  unfold OffTrack at h ⊢
  rcases (step_cases hfreq hkept event).2 with hstill | ⟨line, hhands⟩
  · rw [hstill.state, hstill.handedOver]
    exact h
  · rw [hhands.state, hhands.handedOver, allScripts_concat]
    exact h.append _ _

/-- **Every run** keeps its position, and is on track exactly if all its steps fit. -/
theorem run_spec (hfreq : 1 ≤ t.frequency) (content : List Char) (events : List Event) :
    Kept content (events.foldl (VirtualSD.step t) (Loop.enter content 0 [])) ∧
      (AllSteps (VirtualSD.step t) (Fits t) (Loop.enter content 0 []) events →
        OnTrack t (events.foldl (VirtualSD.step t) (Loop.enter content 0 []))) ∧
      (¬ AllSteps (VirtualSD.step t) (Fits t) (Loop.enter content 0 []) events →
        OffTrack t (events.foldl (VirtualSD.step t) (Loop.enter content 0 []))) := by
  induction events using List.reverseRecOn with
  | nil => exact ⟨kept_enter content, fun _ => ⟨rfl, fun h => absurd rfl h⟩, fun h => absurd trivial h⟩
  | append_singleton events event ih =>
    obtain ⟨hkept, hon, hoff⟩ := ih
    obtain ⟨hkept', hstep⟩ := step_cases hfreq hkept event
    rw [List.foldl_append, List.foldl_cons, List.foldl_nil, allSteps_concat]
    refine ⟨hkept', fun ⟨hall, hfits⟩ => ?_, fun hnot => ?_⟩
    · rcases hstep with hstill | ⟨line, hhands⟩
      · exact (hon hall).still hstill
      · exact (hon hall).hands hhands hfits
    · by_cases hall : AllSteps (VirtualSD.step t) (Fits t) (Loop.enter content 0 []) events
      · have hfits : ¬ Fits t _ event := fun hfits => hnot ⟨hall, hfits⟩
        rcases hstep with hstill | ⟨line, hhands⟩
        · exact absurd hstill.fits hfits
        · exact (hon hall).leave hfreq hhands hfits
      · exact (hoff hall).step hfreq hkept event

/-- The print ends with the file, with all its lines handed over. -/
theorem pausedPrint_ended (hfreq : 1 ≤ t.frequency) (content : List Char) (events : List Event) :
    (pausedPrint t content events).ending = some .finished ∧
      (pausedPrint t content events).handedOver = fileLines content := by
  have hkept := (run_spec hfreq content events).1
  have hrounds (l : Loop (List Script)) (n : ℕ) :
      (List.replicate n Event.round).foldl (VirtualSD.step t) l = (Loop.iteration logScript t)^[n] l := by
    induction n generalizing l with
    | zero => rfl
    | succ n ih =>
      rw [List.replicate_succ, List.foldl_cons, ih, Function.iterate_succ_apply]
      rfl
  rw [pausedPrint, toEnd, List.foldl_append, hrounds]
  generalize events.foldl (VirtualSD.step t) (Loop.enter content 0 []) = l at hkept
  rcases hkept.ending with hrunning | ⟨hfinished, hnone⟩
  · obtain ⟨hending, hdispatched, -⟩ := iterate_ended (t := t) noSkip_logScript hkept.inv hrunning hkept.inv.rounds_le
    have hfinished : (l.outcome logScript t).2.1 = .finished := by
      simp [Loop.outcome, hkept.running, runLines_logScript hfreq]
    have hlines : (l.outcome logScript t).1.map Prod.fst = fileLines (content.drop l.filePosition) := by
      have hall := (runLines_lines logScript t l.layerCount l.state (fileLines (content.drop l.filePosition))).2
      simpa [Loop.outcome, hkept.running, hkept.inv.file] using hall (by rw [runLines_logScript hfreq])
    refine ⟨by rw [hending, hfinished], ?_⟩
    rw [Loop.handedOver, hdispatched, List.map_append, hlines]
    exact hkept.next.2
  · rw [iterate_of_ended (by rw [hfinished]; rfl)]
    have hlines := hkept.next.2
    rw [hnone, List.append_nil] at hlines
    exact ⟨hfinished, hlines⟩

/-- **The print without pauses** runs the scripts of all lines. -/
theorem workHandler_logScript (hfreq : 1 ≤ t.frequency) (content : List Char) :
    (workHandler logScript t content 0 []).state = allScripts t 0 (fileLines content) := by
  have hinv := inv_enter content 0 ([] : List Script)
  obtain ⟨-, -, hstate⟩ := iterate_ended (t := t) noSkip_logScript hinv rfl hinv.rounds_le
  rw [workHandler, hstate, Loop.outcome, if_neg (by simp [Loop.enter]), runLines_logScript hfreq]
  rfl

theorem scripts_eq_iff (hfreq : 1 ≤ t.frequency) (content : List Char) (events : List Event) :
    (pausedPrint t content events).state = (workHandler logScript t content 0 []).state ↔
      AllSteps (VirtualSD.step t) (Fits t) (Loop.enter content 0 []) (toEnd content events) := by
  obtain ⟨-, hon, hoff⟩ := run_spec hfreq content (toEnd content events)
  have hlines := (pausedPrint_ended hfreq content events).2
  rw [workHandler_logScript hfreq, ← hlines]
  by_cases hall : AllSteps (VirtualSD.step t) (Fits t) (Loop.enter content 0 []) (toEnd content events)
  · exact iff_of_true (hon hall).state hall
  · exact iff_of_false (hoff hall).ne hall

/-- **Pauses**: they change no script exactly where every marker is handed over after a resume that fits; the position
is right at every pause. -/
theorem pause_transparent_iff (hfreq : 1 ≤ t.frequency) (content : List Char) (events : List Event) :
    Transparent t content events ↔
      AllSteps (VirtualSD.step t) (Fits t) (Loop.enter content 0 []) (toEnd content events) := by
  constructor
  · intro h
    exact (scripts_eq_iff hfreq content events).mp h.scripts
  · intro h
    exact ⟨(scripts_eq_iff hfreq content events).mpr h, (pausedPrint_ended hfreq content events).1,
      fun before _ => (run_spec hfreq content before).1.atNextLine⟩

/-- A film with a frame every two layers. -/
def everySecondLayer : TimeLapse := ⟨0, true, 2⟩

/-- Three layers. -/
def threeLayers : List Char := ";LAYER:0\n;LAYER:1\n;LAYER:2\n".toList

/-- After a pause before the third layer it gets its frame as without. -/
theorem pause_after_two_layers : Transparent everySecondLayer threeLayers [.round, .round, .round, .pauseResume] := by
  refine (pause_transparent_iff (by decide) _ _).mpr ?_
  decide +kernel

/-- After a pause before the second layer it gets a frame, too, and the third none. -/
theorem pause_shifts_frames : ¬ Transparent everySecondLayer threeLayers [.round, .round, .pauseResume] := by
  intro h
  have hscripts := h.scripts
  revert hscripts
  decide +kernel

end Runs

end Cxsw.VirtualSD
