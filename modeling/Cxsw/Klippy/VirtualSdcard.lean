import Mathlib.Data.Int.Basic
import Mathlib.Data.List.Basic
import Mathlib.Logic.Function.Iterate
import Mathlib.Tactic.Common

/-!
# Cxsw.Klippy.VirtualSdcard — the work handler of the virtual SD card (`klippy/extras/virtual_sdcard.py`)

`work_handler` reads the file in pieces of 8192 characters, cuts them into lines and hands the lines to `run_script`; a
layer marker, which is a comment, may become a frame of the time-lapse film, before which the nozzle may be moved aside.
`klippy.py` runs under `python2`, where a text is its bytes and a position in the file counts them.  What comes after
the last newline is never handed over.

* `Loop`, `Loop.iteration`: the handler's variables, and one round of its loop.
* `runLines`: the same line by line, without the reading.
* `iterate_ended`: the loop ends, where `runLines` does.

Rounds that only wait for the lock of the G-code class change nothing and are left out, and so are errors of the file
system.
-/

namespace Cxsw.VirtualSD

/-! ## The handler -/

section Handler

variable {σ : Type*}

/-- A line or another script. -/
abbrev Script := List Char

/-- An open file, read from `pos` on. -/
structure File where
  content : List Char
  pos : ℕ
  deriving DecidableEq

/-- The argument of `read`. -/
def readSize : ℕ := 8192

/-- What `read` returns. -/
def File.data (f : File) : List Char := (f.content.drop f.pos).take readSize

/-- What `time_lapse.yaml` says. -/
structure TimeLapse where
  timelapsePosition : ℤ
  enableDelayPhotography : Bool
  frequency : ℤ

/-- `LAYER_KEYS`. -/
def layerKeys : List (List Char) :=
  [";LAYER".toList, "; layer".toList, "; LAYER".toList, ";AFTER_LAYER_CHANGE".toList]

/-- A line starts with one of the keys. -/
def isMarker (line : Script) : Bool := layerKeys.any (·.isPrefixOf line)

def takeFrame : Script := "TIMELAPSE_TAKE_FRAME".toList

def moveAside : Script := "G0 X5 Y150 F9000".toList

/-- What goes wrong: an error of the G-code class, which has a text, or anything else. -/
inductive Failure where
  | error (message : List Char)
  | exception
  deriving DecidableEq

/-- What running a script comes to: the state, what went wrong, whether `must_pause_work` was set meanwhile, and the
position that `set_file_position` was given. -/
structure Ran (σ : Type*) where
  state : σ
  failure : Option Failure
  pause : Bool
  skipTo : Option ℕ

/-- Nothing but the state changes. -/
def Ran.done (s : σ) : Ran σ := ⟨s, none, false, none⟩

variable (runScript : Script → σ → Ran σ) (t : TimeLapse)

/-- One script after the other, up to one that fails. -/
def runScripts : List Script → σ → Ran σ
  | [], s => Ran.done s
  | script :: scripts, s =>
    let ran := runScript script s
    if ran.failure.isSome then ran
    else
      let rest := runScripts scripts ran.state
      { rest with pause := ran.pause || rest.pause, skipTo := rest.skipTo.or ran.skipTo }

/-- The scripts for a line, or `none` where `layer_count % int(frequency)` divides by zero. -/
def scripts (layerCount : ℕ) (line : Script) : Option (List Script) :=
  if t.enableDelayPhotography && isMarker line then
    if t.frequency = 0 then none
    else if (layerCount : ℤ) % t.frequency = 0 then
      some (if t.timelapsePosition ≠ 0 then [moveAside, takeFrame] else [takeFrame])
    else some [line]
  else some [line]

/-- `layer_count` after a line. -/
def nextLayerCount (layerCount : ℕ) (line : Script) : ℕ :=
  if t.enableDelayPhotography && isMarker line then layerCount + 1 else layerCount

/-- A line is handed over. -/
def dispatch (layerCount : ℕ) (line : Script) (s : σ) : Ran σ :=
  match scripts t layerCount line with
  | none => { Ran.done s with failure := some .exception }
  | some scripts => runScripts runScript scripts s

/-- How the loop ends. -/
inductive Ending where
  | paused
  | finished
  | failed (failure : Failure)
  deriving DecidableEq

/-- The variables of the loop, with the lines in the order of the file.  No code reads `dispatched`: the lines handed
over, each with the state before. -/
structure Loop (σ : Type*) where
  currentFile : File
  filePosition : ℕ
  mustPauseWork : Bool
  lines : List Script
  partialInput : Script
  layerCount : ℕ
  state : σ
  ending : Option Ending
  dispatched : List (Script × σ)

/-- The handler begins: it reads from `file_position` on. -/
def Loop.enter (content : List Char) (filePosition : ℕ) (s : σ) : Loop σ where
  currentFile := ⟨content, filePosition⟩
  filePosition := filePosition
  mustPauseWork := false
  lines := []
  partialInput := []
  layerCount := 0
  state := s
  ending := none
  dispatched := []

/-- More of the file is read and cut at the newlines; the last piece waits for the rest of its line. -/
def Loop.read (l : Loop σ) : Loop σ :=
  let pieces := (l.currentFile.data.splitOn '\n').modifyHead (l.partialInput ++ ·)
  { l with
    currentFile := { l.currentFile with pos := l.currentFile.pos + l.currentFile.data.length }
    lines := pieces.dropLast
    partialInput := pieces.getLastD [] }

/-- The next line is handed over. -/
def Loop.dispatchLine (l : Loop σ) (line : Script) (lines : List Script) : Loop σ :=
  let nextFilePosition := l.filePosition + line.length + 1
  let ran := dispatch runScript t l.layerCount line l.state
  let l := { l with
    lines
    layerCount := nextLayerCount t l.layerCount line
    state := ran.state
    mustPauseWork := l.mustPauseWork || ran.pause
    dispatched := l.dispatched ++ [(line, l.state)] }
  match ran.failure with
  | some failure => { l with ending := some (.failed failure) }
  | none =>
    let filePosition := ran.skipTo.getD nextFilePosition
    if filePosition = nextFilePosition then { l with filePosition }
    else
      { l with
        filePosition
        currentFile := { l.currentFile with pos := filePosition }
        lines := []
        partialInput := [] }

/-- A round of the loop. -/
def Loop.iteration (l : Loop σ) : Loop σ :=
  if l.ending.isSome then l
  else if l.mustPauseWork then { l with ending := some .paused }
  else
    match l.lines with
    | line :: lines => l.dispatchLine runScript t line lines
    | [] => if l.currentFile.data = [] then { l with ending := some .finished } else l.read

/-- What the loop does with the lines of the file, without the reading: the lines handed over, each with the state
before, how it ends, and the state then. -/
def runLines : ℕ → σ → List Script → List (Script × σ) × Ending × σ
  | _, s, [] => ([], .finished, s)
  | layerCount, s, line :: lines =>
    let ran := dispatch runScript t layerCount line s
    match ran.failure with
    | some failure => ([(line, s)], .failed failure, ran.state)
    | none =>
      if ran.pause then ([(line, s)], .paused, ran.state)
      else
        let rest := runLines (nextLayerCount t layerCount line) ran.state lines
        ((line, s) :: rest.1, rest.2)

/-- The lines are handed over in order, and all of them where the file ends. -/
theorem runLines_lines (layerCount : ℕ) (s : σ) (lines : List Script) :
    (runLines runScript t layerCount s lines).1.map Prod.fst <+: lines ∧
      ((runLines runScript t layerCount s lines).2.1 = .finished →
        (runLines runScript t layerCount s lines).1.map Prod.fst = lines) := by
  induction lines generalizing layerCount s with
  | nil => exact ⟨List.prefix_rfl, fun _ => rfl⟩
  | cons line lines ih =>
    have hone : [line] <+: line :: lines := ⟨lines, rfl⟩
    rw [runLines]
    dsimp only
    split
    · exact ⟨hone, fun h => by cases h⟩
    · split
      · exact ⟨hone, fun h => by cases h⟩
      · obtain ⟨hpre, hall⟩ := ih (nextLayerCount t layerCount line)
          (dispatch runScript t layerCount line s).state
        refine ⟨?_, fun h => ?_⟩
        · rw [List.map_cons, List.prefix_cons_inj]
          exact hpre
        · rw [List.map_cons, hall h]

end Handler

/-! ## The lines of a text -/

section Lines

/-- The lines of a text that a newline ends. -/
def fileLines (text : List Char) : List Script := (text.splitOn '\n').dropLast

theorem fileLines_of_not_mem {text : List Char} (h : '\n' ∉ text) : fileLines text = [] := by
  rw [fileLines, List.splitOn_eq_singleton h]
  rfl

theorem fileLines_line {line : Script} (h : '\n' ∉ line) (rest : List Char) :
    fileLines (line ++ '\n' :: rest) = line :: fileLines rest := by
  unfold fileLines
  rw [List.splitOn_append_cons_self_of_not_mem h, List.dropLast_cons_of_ne_nil (List.splitOn_ne_nil '\n' rest)]

/-- A text is what its lines and what follows the last newline make up. -/
theorem splitOn_spec (text : List Char) :
    text = (fileLines text).flatMap (· ++ ['\n']) ++ (text.splitOn '\n').getLastD [] ∧
      (∀ line ∈ fileLines text, '\n' ∉ line) ∧ '\n' ∉ (text.splitOn '\n').getLastD [] := by
  induction text with
  | nil => simp [fileLines]
  | cons c text ih =>
    obtain ⟨htext, hlines, hlast⟩ := ih
    unfold fileLines at htext hlines ⊢
    rw [List.splitOn_cons_eq_if_modifyHead]
    have hne := List.splitOn_ne_nil '\n' text
    generalize text.splitOn '\n' = pieces at htext hlines hlast hne
    subst htext
    by_cases hc : c = '\n'
    · subst hc
      obtain ⟨piece, pieces, rfl⟩ := List.exists_cons_of_ne_nil hne
      simpa using ⟨hlines, hlast⟩
    · have hc' : (c == '\n') = false := by simpa using hc
      rw [if_neg (by simp [hc'])]
      cases pieces with
      | nil => exact absurd rfl hne
      | cons piece pieces =>
        cases pieces with
        | nil =>
          simp only [List.modifyHead_cons, List.dropLast_singleton, List.flatMap_nil, List.getLastD_cons,
            List.getLastD_nil, List.nil_append] at hlast ⊢
          exact ⟨trivial, by simp, by simpa [Ne.symm hc] using hlast⟩
        | cons piece' pieces =>
          simp only [List.modifyHead_cons, List.dropLast_cons_cons, List.flatMap_cons, List.getLastD_cons]
            at hlines hlast ⊢
          refine ⟨by simp, ?_, hlast⟩
          rintro line (_ | ⟨_, hmem⟩)
          · have hfirst := hlines piece List.mem_cons_self
            simpa [Ne.symm hc] using hfirst
          · exact hlines line (List.mem_cons_of_mem _ hmem)

/-- The first piece goes on from a line that has begun. -/
theorem splitOn_partial {begun : List Char} (h : '\n' ∉ begun) (data : List Char) :
    (begun ++ data).splitOn '\n' = (data.splitOn '\n').modifyHead (begun ++ ·) := by
  induction begun with
  | nil =>
    obtain ⟨piece, pieces, hpieces⟩ := List.exists_cons_of_ne_nil (List.splitOn_ne_nil '\n' data)
    simp [hpieces]
  | cons c begun ih =>
    rw [List.mem_cons, not_or] at h
    have hc : (c == '\n') = false := by simpa using Ne.symm h.1
    obtain ⟨piece, pieces, hpieces⟩ := List.exists_cons_of_ne_nil (List.splitOn_ne_nil '\n' data)
    rw [List.cons_append, List.splitOn_cons_eq_if_modifyHead, if_neg (by simp [hc]), ih h.2, hpieces]
    rfl

end Lines

/-! ## The loop ends, as line by line -/

section Rounds

variable {σ : Type*} {runScript : Script → σ → Ran σ} {t : TimeLapse} {content : List Char} {l : Loop σ}

/-- The lines and the begun line that the loop holds are what lies between `file_position` and the place read up to. -/
structure Inv (content : List Char) (l : Loop σ) : Prop where
  file : l.currentFile.content = content
  position : content.drop l.filePosition =
    l.lines.flatMap (· ++ ['\n']) ++ (l.partialInput ++ content.drop l.currentFile.pos)
  lines : ∀ line ∈ l.lines, '\n' ∉ line
  partialInput : '\n' ∉ l.partialInput

theorem fileLines_flatMap {lines : List Script} (h : ∀ line ∈ lines, '\n' ∉ line) (rest : List Char) :
    fileLines (lines.flatMap (· ++ ['\n']) ++ rest) = lines ++ fileLines rest := by
  induction lines with
  | nil => rfl
  | cons line lines ih =>
    rw [List.flatMap_cons, List.append_assoc, List.append_assoc, List.singleton_append,
      fileLines_line (h line List.mem_cons_self), ih fun line' hmem => h line' (List.mem_cons_of_mem _ hmem)]
    rfl

/-- The lines that are still to come. -/
theorem Inv.todo (h : Inv content l) : fileLines (content.drop l.filePosition) =
    l.lines ++ fileLines (l.partialInput ++ content.drop l.currentFile.pos) := by
  rw [h.position, fileLines_flatMap h.lines]

theorem inv_enter (content : List Char) (filePosition : ℕ) (s : σ) :
    Inv content (Loop.enter content filePosition s) where
  file := rfl
  position := rfl
  lines := by simp [Loop.enter]
  partialInput := by simp [Loop.enter]

/-- More is read only when no line is left. -/
theorem Inv.read (h : Inv content l) (hlines : l.lines = []) : Inv content l.read := by
  have hpieces := splitOn_partial h.partialInput l.currentFile.data
  obtain ⟨htext, hfree, hlast⟩ := splitOn_spec (l.partialInput ++ l.currentFile.data)
  have hdata : content.drop l.currentFile.pos =
      l.currentFile.data ++ content.drop (l.currentFile.pos + l.currentFile.data.length) := by
    rw [File.data, h.file, ← List.drop_drop]
    conv_lhs => rw [← List.take_append_drop readSize (content.drop l.currentFile.pos)]
    rw [List.length_take]
    congr 1
    rcases Nat.le_total readSize (content.drop l.currentFile.pos).length with hle | hle
    · rw [Nat.min_eq_left hle]
    · rw [Nat.min_eq_right hle, List.drop_of_length_le hle, List.drop_length]
  unfold fileLines at htext hfree
  rw [hpieces] at htext hfree hlast
  refine ⟨h.file, ?_, hfree, hlast⟩
  rw [show l.read.filePosition = l.filePosition from rfl, h.position, hlines, List.flatMap_nil, List.nil_append, hdata,
    ← List.append_assoc, htext, List.append_assoc]
  rfl

/-- A line is handed over that neither fails nor moves the position. -/
theorem Inv.dispatchLine (h : Inv content l) {line : Script} {lines : List Script} (hlines : l.lines = line :: lines)
    (hfailure : (dispatch runScript t l.layerCount line l.state).failure = none)
    (hskip : (dispatch runScript t l.layerCount line l.state).skipTo = none) :
    l.dispatchLine runScript t line lines =
      { l with
        lines
        filePosition := l.filePosition + line.length + 1
        layerCount := nextLayerCount t l.layerCount line
        state := (dispatch runScript t l.layerCount line l.state).state
        mustPauseWork := l.mustPauseWork || (dispatch runScript t l.layerCount line l.state).pause
        dispatched := l.dispatched ++ [(line, l.state)] } ∧
      Inv content (l.dispatchLine runScript t line lines) := by
  have hstep : l.dispatchLine runScript t line lines =
      { l with
        lines
        filePosition := l.filePosition + line.length + 1
        layerCount := nextLayerCount t l.layerCount line
        state := (dispatch runScript t l.layerCount line l.state).state
        mustPauseWork := l.mustPauseWork || (dispatch runScript t l.layerCount line l.state).pause
        dispatched := l.dispatched ++ [(line, l.state)] } := by
    simp only [Loop.dispatchLine, hfailure, hskip, Option.getD_none, if_true]
  refine ⟨hstep, ?_⟩
  rw [hstep]
  refine ⟨h.file, ?_, fun line' hmem => h.lines line' (hlines ▸ List.mem_cons_of_mem _ hmem), h.partialInput⟩
  have hposition := h.position
  rw [hlines, List.flatMap_cons, List.append_assoc, List.append_assoc] at hposition
  dsimp only
  rw [Nat.add_assoc, ← List.drop_drop, hposition, ← List.append_assoc, ← List.append_assoc,
    List.drop_append_of_le_length (by simp)]
  simp

/-- No script moves the position in the file. -/
def NoSkip (runScript : Script → σ → Ran σ) : Prop := ∀ script s, (runScript script s).skipTo = none

theorem NoSkip.runScripts (h : NoSkip runScript) (scripts : List Script) (s : σ) :
    (runScripts runScript scripts s).skipTo = none := by
  induction scripts generalizing s with
  | nil => rfl
  | cons script scripts ih =>
    unfold VirtualSD.runScripts
    dsimp only
    split
    · exact h script s
    · rw [ih, h]
      rfl

theorem NoSkip.dispatch (h : NoSkip runScript) (layerCount : ℕ) (line : Script) (s : σ) :
    (dispatch runScript t layerCount line s).skipTo = none := by
  unfold VirtualSD.dispatch
  split
  · rfl
  · exact h.runScripts _ s

/-- The rounds that are left at most: two for each character that is not read yet, one for each line and one for the
end. -/
def Loop.rounds (l : Loop σ) : ℕ := 2 * (l.currentFile.content.length - l.currentFile.pos) + l.lines.length + 1

theorem length_le_flatMap (lines : List Script) : lines.length ≤ (lines.flatMap (· ++ ['\n'])).length := by
  induction lines with
  | nil => exact le_rfl
  | cons line lines ih =>
    simp only [List.flatMap_cons, List.length_append, List.length_cons, List.length_nil] at ih ⊢
    omega

theorem length_fileLines_le (text : List Char) : (fileLines text).length ≤ text.length := by
  conv_rhs => rw [(splitOn_spec text).1]
  rw [List.length_append]
  exact Nat.le_trans (length_le_flatMap _) (Nat.le_add_right _ _)

theorem rounds_read (hlines : l.lines = []) (hdata : l.currentFile.data ≠ []) : l.read.rounds < l.rounds := by
  have hlength : (l.read.lines).length ≤ l.currentFile.data.length := by
    have hle := length_fileLines_le l.currentFile.data
    unfold fileLines at hle
    simpa [Loop.read] using hle
  have hpos : 0 < l.currentFile.data.length := List.length_pos_iff.mpr hdata
  have hunread : l.currentFile.data.length ≤ l.currentFile.content.length - l.currentFile.pos := by
    rw [File.data, List.length_take, List.length_drop]
    exact min_le_right _ _
  unfold Loop.rounds
  rw [show l.read.currentFile.content = l.currentFile.content from rfl,
    show l.read.currentFile.pos = l.currentFile.pos + l.currentFile.data.length from rfl, hlines, List.length_nil]
  omega

theorem Inv.rounds_le (h : Inv content l) : l.rounds ≤ 2 * content.length + 1 := by
  have hlength := congrArg List.length h.position
  have hlines := length_le_flatMap l.lines
  rw [List.length_append, List.length_append, List.length_drop, List.length_drop] at hlength
  rw [Loop.rounds, h.file]
  omega

theorem iteration_of_ended (h : l.ending.isSome) : l.iteration runScript t = l := by
  rw [Loop.iteration, if_pos h]

theorem iterate_of_ended (h : l.ending.isSome) (n : ℕ) : (Loop.iteration runScript t)^[n] l = l :=
  Function.iterate_fixed (iteration_of_ended h) n

/-! One lemma for each branch of a round. -/

section Branches

variable (hrunning : l.ending = none)

include hrunning

theorem iteration_paused (hpause : l.mustPauseWork = true) :
    l.iteration runScript t = { l with ending := some .paused } := by
  simp [Loop.iteration, hrunning, hpause]

theorem iteration_finished (hpause : l.mustPauseWork = false) (hlines : l.lines = [])
    (hdata : l.currentFile.data = []) :
    l.iteration runScript t = { l with ending := some .finished } := by
  simp [Loop.iteration, hrunning, hpause, hlines, hdata]

theorem iteration_read (hpause : l.mustPauseWork = false) (hlines : l.lines = []) (hdata : l.currentFile.data ≠ []) :
    l.iteration runScript t = l.read := by
  simp [Loop.iteration, hrunning, hpause, hlines, hdata]

theorem iteration_dispatch (hpause : l.mustPauseWork = false) {line : Script} {lines : List Script}
    (hlines : l.lines = line :: lines) : l.iteration runScript t = l.dispatchLine runScript t line lines := by
  simp [Loop.iteration, hrunning, hpause, hlines]

end Branches

/-- At the end of the file no line is left; the begun line is none. -/
theorem Inv.nothing_left (h : Inv content l) (hlines : l.lines = []) (hdata : l.currentFile.data = []) :
    fileLines (content.drop l.filePosition) = [] := by
  have hrest : content.drop l.currentFile.pos = [] := by
    rw [File.data, h.file] at hdata
    simpa [readSize, List.take_eq_nil_iff] using hdata
  rw [h.todo, hlines, hrest, List.append_nil, List.nil_append]
  exact fileLines_of_not_mem h.partialInput

/-- How the loop ends from `l` on, as `runLines` says. -/
def Loop.outcome (runScript : Script → σ → Ran σ) (t : TimeLapse) (l : Loop σ) : List (Script × σ) × Ending × σ :=
  if l.mustPauseWork then ([], .paused, l.state)
  else runLines runScript t l.layerCount l.state (fileLines (l.currentFile.content.drop l.filePosition))

/-- What a line that is handed over leaves to the rounds after it. -/
theorem Inv.outcome_dispatch (h : Inv content l) (hpause : l.mustPauseWork = false)
    {line : Script} {lines : List Script}
    (hlines : l.lines = line :: lines) (hfailure : (dispatch runScript t l.layerCount line l.state).failure = none)
    (hskip : (dispatch runScript t l.layerCount line l.state).skipTo = none) :
    l.outcome runScript t = ((line, l.state) :: ((l.dispatchLine runScript t line lines).outcome runScript t).1,
      ((l.dispatchLine runScript t line lines).outcome runScript t).2) := by
  obtain ⟨hnext, hinv⟩ := h.dispatchLine hlines hfailure hskip
  have htodo := h.todo
  have htail := hinv.todo
  rw [hlines, List.cons_append] at htodo
  rw [hnext] at htail ⊢
  dsimp only at htail
  simp only [Loop.outcome, hpause, h.file, htodo, htail, runLines, hfailure, Bool.false_or, Bool.false_eq_true,
    if_false]
  split <;> rfl

/-- **The loop ends**, after at most so many rounds, where `runLines` does. -/
theorem iterate_ended (hskip : NoSkip runScript) (h : Inv content l) (hrunning : l.ending = none) {n : ℕ}
    (hn : l.rounds ≤ n) :
    ((Loop.iteration runScript t)^[n] l).ending = some (l.outcome runScript t).2.1 ∧
      ((Loop.iteration runScript t)^[n] l).dispatched = l.dispatched ++ (l.outcome runScript t).1 ∧
      ((Loop.iteration runScript t)^[n] l).state = (l.outcome runScript t).2.2 := by
  induction n generalizing l with
  | zero => exact absurd hn (by simp [Loop.rounds])
  | succ n ih =>
    rw [Function.iterate_succ_apply]
    by_cases hpause : l.mustPauseWork = true
    · rw [iteration_paused hrunning hpause, iterate_of_ended rfl]
      simp [Loop.outcome, hpause]
    rw [Bool.not_eq_true] at hpause
    cases hlines : l.lines with
    | nil =>
      by_cases hdata : l.currentFile.data = []
      · -- the end of the file: the begun line is left
        rw [iteration_finished hrunning hpause hlines hdata, iterate_of_ended rfl]
        simp [Loop.outcome, hpause, h.file, h.nothing_left hlines hdata, runLines]
      · have hless := rounds_read hlines hdata
        rw [iteration_read hrunning hpause hlines hdata]
        exact ih (h.read hlines) hrunning (by omega)
    | cons line lines =>
      rw [iteration_dispatch hrunning hpause hlines]
      cases hfailure : (dispatch runScript t l.layerCount line l.state).failure with
      | some failure =>
        have hdispatch : (l.dispatchLine runScript t line lines).ending = some (.failed failure) ∧
            (l.dispatchLine runScript t line lines).dispatched = l.dispatched ++ [(line, l.state)] ∧
            (l.dispatchLine runScript t line lines).state = (dispatch runScript t l.layerCount line l.state).state := by
          simp [Loop.dispatchLine, hfailure]
        have htodo := h.todo
        rw [hlines, List.cons_append] at htodo
        rw [iterate_of_ended (by rw [hdispatch.1]; rfl)]
        simpa [Loop.outcome, hpause, h.file, htodo, runLines, hfailure] using hdispatch
      | none =>
        have hnoSkip := hskip.dispatch (t := t) l.layerCount line l.state
        obtain ⟨hnext, hinv⟩ := h.dispatchLine hlines hfailure hnoSkip
        have hrounds : (l.dispatchLine runScript t line lines).rounds + 1 = l.rounds := by
          rw [hnext]
          simp only [Loop.rounds, hlines, List.length_cons]
          omega
        obtain ⟨hending, hdispatched, hstate⟩ := ih hinv (by rw [hnext]; exact hrunning) (by omega)
        rw [hending, hdispatched, hstate, h.outcome_dispatch hpause hlines hfailure hnoSkip]
        refine ⟨rfl, ?_, rfl⟩
        rw [hnext, List.append_assoc, List.singleton_append]

/-- `work_handler`, with as many rounds as it takes. -/
def workHandler (runScript : Script → σ → Ran σ) (t : TimeLapse) (content : List Char) (filePosition : ℕ)
    (s : σ) : Loop σ :=
  (Loop.iteration runScript t)^[2 * content.length + 1] (Loop.enter content filePosition s)

/-- **The handler ends** as the lines of the file from `file_position` on say. -/
theorem workHandler_eq (hskip : NoSkip runScript) (content : List Char) (filePosition : ℕ) (s : σ) :
    (workHandler runScript t content filePosition s).ending =
        some (runLines runScript t 0 s (fileLines (content.drop filePosition))).2.1 ∧
      (workHandler runScript t content filePosition s).dispatched =
        (runLines runScript t 0 s (fileLines (content.drop filePosition))).1 := by
  have hrounds : (Loop.enter content filePosition s).rounds ≤ 2 * content.length + 1 := by
    simp only [Loop.rounds, Loop.enter, List.length_nil]
    omega
  obtain ⟨hending, hdispatched, -⟩ := iterate_ended (t := t) hskip (inv_enter content filePosition s) rfl hrounds
  exact ⟨hending, hdispatched⟩

end Rounds

end Cxsw.VirtualSD
