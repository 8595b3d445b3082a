import Mathlib.Data.Rat.Defs
import Cxsw.Klippy.VirtualSdcard
import Cxsw.Lib.Run

/-!
# Cxsw.Klippy.ResetThread — the delayed reset of a finished print (`klippy/extras/virtual_sdcard.py`)

When a print is complete `work_handler` starts a thread that sleeps for five seconds and then calls `_reset_file`.  The
main thread meanwhile runs the commands and the work handler of the next print: greenlets that take turns at
`reactor.pause`.  The thread may run between any two statements of the main thread.

* `Stmt`, `exec`: the statements that the commands and the thread are made of, and what one of them does.
* `handlerStep`: one statement of `work_handler`.
* `step`: one statement of the greenlet that runs, or of a reset thread.
* `Related`: a run next to the same run in which one of the threads never woke.
* `reset_thread_iff`: when the thread leaves a later job alone.

A call of `note_start`, `note_pause`, `note_complete`, `note_error` or `note_cancel` is one statement.  Which commands a
line of the file runs, and whether it fails, is up to the G-code class.
-/

namespace Cxsw.ResetThread

open VirtualSD (Script File Failure)

/-! ## `print_stats.py` -/

section PrintStats

/-- The values of `state`. -/
inductive PrintState where
  | standby
  | printing
  | paused
  | complete
  | error
  | cancelled
  deriving DecidableEq

structure PrintStats where
  filename : Script
  errorMessage : Script
  state : PrintState
  prevPauseDuration : ℚ
  lastEpos : ℚ
  filamentUsed : ℚ
  totalDuration : ℚ
  printStartTime : Option ℚ
  lastPauseTime : Option ℚ
  initDuration : ℚ
  deriving DecidableEq

/-- What the notes read of the clock and of the G-code position. -/
structure Now where
  monotonic : ℚ
  ePosition : ℚ
  extrudeFactor : ℚ

/-- The assignments of `reset`. -/
inductive Part where
  | texts
  | state
  | pause
  | totals
  | times
  | init
  deriving DecidableEq

namespace PrintStats

def resetPart (p : PrintStats) : Part → PrintStats
  | .texts => { p with filename := [], errorMessage := [] }
  | .state => { p with state := .standby }
  | .pause => { p with prevPauseDuration := 0, lastEpos := 0 }
  | .totals => { p with filamentUsed := 0, totalDuration := 0 }
  | .times => { p with printStartTime := none, lastPauseTime := none }
  | .init => { p with initDuration := 0 }

/-- After `reset`. -/
def standby : PrintStats := ⟨[], [], .standby, 0, 0, 0, 0, none, none, 0⟩

def updateFilamentUsage (p : PrintStats) (now : Now) : PrintStats :=
  { p with
    filamentUsed := p.filamentUsed + (now.ePosition - p.lastEpos) / now.extrudeFactor
    lastEpos := now.ePosition }

def noteStart (p : PrintStats) (now : Now) : PrintStats :=
  let p := match p.printStartTime, p.lastPauseTime with
    | none, _ => { p with printStartTime := some now.monotonic }
    | some _, some lastPauseTime =>
      { p with
        prevPauseDuration := p.prevPauseDuration + (now.monotonic - lastPauseTime)
        lastPauseTime := none }
    | some _, none => p
  { p with lastEpos := now.ePosition, state := .printing, errorMessage := [] }

def notePause (p : PrintStats) (now : Now) : PrintStats :=
  let p := if p.lastPauseTime.isNone then { p with lastPauseTime := some now.monotonic }.updateFilamentUsage now else p
  if p.state = .error then p else { p with state := .paused }

/-- `_note_finish`, for `note_complete`, `note_error` and `note_cancel`. -/
def noteFinish (p : PrintStats) (state : PrintState) (errorMessage : Script) (now : Now) : PrintStats :=
  match p.printStartTime with
  | none => p
  | some printStartTime =>
    let totalDuration := now.monotonic - printStartTime
    { p with
      state
      errorMessage
      totalDuration
      initDuration := if p.filamentUsed < 1 / 10000000 then totalDuration - p.prevPauseDuration else p.initDuration
      printStartTime := none }

/-- What every assignment of `reset` leaves as it is has been reset. -/
theorem eq_standby {p : PrintStats} (h : ∀ part, p.resetPart part = p) : p = standby := by
  have h1 := h .texts
  have h2 := h .state
  have h3 := h .pause
  have h4 := h .totals
  have h5 := h .times
  have h6 := h .init
  cases p
  simp only [resetPart, PrintStats.mk.injEq, and_true, true_and] at h1 h2 h3 h4 h5 h6
  obtain ⟨rfl, rfl⟩ := h1
  obtain ⟨rfl, rfl⟩ := h3
  obtain ⟨rfl, rfl⟩ := h4
  obtain ⟨rfl, rfl⟩ := h5
  rw [← h2, ← h6]
  rfl

theorem resetPart_resetPart (p : PrintStats) (part part' : Part) :
    (p.resetPart part).resetPart part' = (p.resetPart part').resetPart part := by
  cases part <;> cases part' <;> rfl

theorem resetPart_self (p : PrintStats) (part : Part) : (p.resetPart part).resetPart part = p.resetPart part := by
  cases part <;> rfl

end PrintStats

end PrintStats

/-! ## The statements -/

section Statements

/-- A file that was opened. -/
structure OpenFile where
  filename : Script
  file : File
  closed : Bool
  deriving DecidableEq

/-- A statement of the commands and of `_reset_file`.  The first three stand for an `if` and what it guards; `setFile`
of a file is where `_load_file` has opened it. -/
inductive Stmt where
  | resetIfFile
  | cancelIfFile
  | doPause
  | setMustPauseWork (value : Bool)
  | waitWork
  | closeFile
  | setFile (file : Option OpenFile)
  | setFilePosition (position : ℕ)
  | setFileSize (size : ℕ)
  | resetStats (part : Part)
  | setFilename (filename : Script)
  | noteCancel
  | raiseIfBusy
  | raiseIfFromSd
  | raise (failure : Failure)
  | registerTimer
  | setNextFilePosition (position : ℕ)

/-- `_reset_file`. -/
def resetFile : List Stmt :=
  [.resetIfFile, .setFilePosition 0, .setFileSize 0, .resetStats .texts, .resetStats .state, .resetStats .pause,
    .resetStats .totals, .resetStats .times, .resetStats .init]

/-- `_load_file`, with the file that is opened, if there is one. -/
def loadFile : Option (Script × List Char) → List Stmt
  | none => [.raise (.error "Unable to open file".toList)]
  | some (filename, content) =>
    [.setFile (some ⟨filename, ⟨content, 0⟩, false⟩), .setFilePosition 0, .setFileSize content.length,
      .resetStats .texts, .resetStats .state, .resetStats .pause, .resetStats .totals, .resetStats .times,
      .resetStats .init, .setFilename filename]

/-- `do_resume`. -/
def doResume : List Stmt := [.raiseIfBusy, .setMustPauseWork false, .registerTimer]

/-- The commands, and the two methods that other modules call. -/
inductive Command where
  | sdcardPrintFile (opened : Option (Script × List Char))
  | sdcardResetFile
  | m23 (opened : Option (Script × List Char))
  | m24
  | m25
  | m26 (position : ℕ)
  | doCancel
  | setFilePosition (position : ℕ)

def Command.stmts : Command → List Stmt
  | .sdcardPrintFile opened => .raiseIfBusy :: resetFile ++ loadFile opened ++ doResume
  | .sdcardResetFile => .raiseIfFromSd :: resetFile
  | .m23 opened => .raiseIfBusy :: resetFile ++ loadFile opened
  | .m24 => doResume
  | .m25 => [.doPause]
  | .m26 position => [.raiseIfBusy, .setFilePosition position]
  | .doCancel => [.cancelIfFile, .setFilePosition 0, .setFileSize 0]
  | .setFilePosition position => [.setNextFilePosition position]

/-- Where `work_handler` stands, with its variables. -/
inductive Pc where
  | seek
  | abort
  | noteStart
  | loop (lines : List Script) (partialInput : Script)
  | body (lines : List Script) (partialInput : Script)
  | eofClose
  | eofNone
  | nextPosition (line : Script) (lines : List Script) (partialInput : Script)
  | script (stmts : List Stmt) (failure : Option Failure) (next : ℕ) (lines : List Script) (partialInput : Script)
  | scriptDone (next : ℕ) (lines : List Script) (partialInput : Script)
  | advance (next : ℕ) (lines : List Script) (partialInput : Script)
  | skip (next : ℕ) (lines : List Script) (partialInput : Script)
  | exit (errorMessage : Option Script)
  | exited (errorMessage : Option Script)
  | ended (errorMessage : Option Script)
  | notePause
  | noteComplete
  | crashed

/-- The attributes, and the handler that the work timer has started. -/
structure SdState where
  currentFile : Option OpenFile
  filePosition : ℕ
  fileSize : ℕ
  mustPauseWork : Bool
  cmdFromSd : Bool
  nextFilePosition : ℕ
  workTimer : Bool
  printStats : PrintStats
  handler : Option Pc

/-- What a statement comes to: the next state, and the statements that it guards; or it waits; or it raises. -/
inductive Result where
  | next (s : SdState) (guarded : List Stmt)
  | wait
  | raised (failure : Failure)

/-- One statement.  The handler's file is the current one, so a file that is closed is closed for it too. -/
def exec (now : Now) (s : SdState) : Stmt → Result
  | .resetIfFile => .next s (if s.currentFile.isSome then [.doPause, .closeFile, .setFile none] else [])
  | .cancelIfFile => .next s (if s.currentFile.isSome then [.doPause, .closeFile, .setFile none, .noteCancel] else [])
  | .doPause => .next s (if s.workTimer then [.setMustPauseWork true, .waitWork] else [])
  | .setMustPauseWork value => .next { s with mustPauseWork := value } []
  | .waitWork => if s.workTimer && !s.cmdFromSd then .wait else .next s []
  | .closeFile =>
    match s.currentFile with
    | none => .raised .exception
    | some file => .next { s with currentFile := some { file with closed := true } } []
  | .setFile file => .next { s with currentFile := file } []
  | .setFilePosition position => .next { s with filePosition := position } []
  | .setFileSize size => .next { s with fileSize := size } []
  | .resetStats part => .next { s with printStats := s.printStats.resetPart part } []
  | .setFilename filename => .next { s with printStats := { s.printStats with filename } } []
  | .noteCancel => .next { s with printStats := s.printStats.noteFinish .cancelled [] now } []
  | .raiseIfBusy => if s.workTimer then .raised (.error "SD busy".toList) else .next s []
  | .raiseIfFromSd =>
    if s.cmdFromSd then .raised (.error "SDCARD_RESET_FILE cannot be run from the sdcard".toList) else .next s []
  | .raise failure => .raised failure
  | .registerTimer => .next { s with workTimer := true, handler := some .seek } []
  | .setNextFilePosition position => .next { s with nextFilePosition := position } []

/-- A file is loaded. -/
def Stmt.loads : Stmt → Bool
  | .setFile (some _) => true
  | _ => false

/-- The attributes after a statement that goes on. -/
def Stmt.effect (now : Now) (s : SdState) : Stmt → SdState
  | .setMustPauseWork value => { s with mustPauseWork := value }
  | .closeFile => { s with currentFile := s.currentFile.map fun file => { file with closed := true } }
  | .setFile file => { s with currentFile := file }
  | .setFilePosition position => { s with filePosition := position }
  | .setFileSize size => { s with fileSize := size }
  | .resetStats part => { s with printStats := s.printStats.resetPart part }
  | .setFilename filename => { s with printStats := { s.printStats with filename } }
  | .noteCancel => { s with printStats := s.printStats.noteFinish .cancelled [] now }
  | .registerTimer => { s with workTimer := true, handler := some .seek }
  | .setNextFilePosition position => { s with nextFilePosition := position }
  | _ => s

/-- The statements that it guards. -/
def Stmt.guards (s : SdState) : Stmt → List Stmt
  | .resetIfFile => if s.currentFile.isSome then [.doPause, .closeFile, .setFile none] else []
  | .cancelIfFile => if s.currentFile.isSome then [.doPause, .closeFile, .setFile none, .noteCancel] else []
  | .doPause => if s.workTimer then [.setMustPauseWork true, .waitWork] else []
  | _ => []

/-- **What a statement can do**: it goes on, or it waits for the handler, or it raises. -/
theorem exec_next {now : Now} {s s' : SdState} {stmt : Stmt} {guarded : List Stmt}
    (h : exec now s stmt = .next s' guarded) :
    s' = stmt.effect now s ∧ guarded = stmt.guards s ∧ (stmt = .closeFile → s.currentFile.isSome) := by
  cases stmt with
  | waitWork =>
    simp only [exec] at h
    split_ifs at h
    rw [Result.next.injEq] at h
    exact ⟨h.1.symm, h.2.symm, nofun⟩
  | closeFile =>
    simp only [exec] at h
    split at h
    · cases h
    · rename_i f hf
      rw [Result.next.injEq] at h
      refine ⟨?_, h.2.symm, fun _ => by rw [hf]; rfl⟩
      rw [← h.1, Stmt.effect, hf]
      rfl
  | raiseIfBusy =>
    simp only [exec] at h
    split_ifs at h
    rw [Result.next.injEq] at h
    exact ⟨h.1.symm, h.2.symm, nofun⟩
  | raiseIfFromSd =>
    simp only [exec] at h
    split_ifs at h
    rw [Result.next.injEq] at h
    exact ⟨h.1.symm, h.2.symm, nofun⟩
  | raise failure => cases h
  | _ =>
    rw [exec, Result.next.injEq] at h
    exact ⟨h.1.symm, h.2.symm, nofun⟩

end Statements

/-! ## The greenlets and the threads -/

section System

/-- What a statement of the handler comes to: whether it pauses, whether a print was completed, and whether the script
of a line has loaded a file. -/
structure Turn where
  sd : SdState
  pauses : Bool
  completes : Bool
  loads : Bool

/-- The handler goes on at `pc`. -/
def goOn (s : SdState) (pc : Pc) : Turn := ⟨{ s with handler := some pc }, false, false, false⟩

/-- The handler returns. -/
def finish (s : SdState) : Turn := ⟨{ s with handler := none }, false, false, false⟩

/-- `except self.gcode.error` and `except`, both of which leave the loop. -/
def leave (s : SdState) : Failure → Turn
  | .error message => goOn s (.exit (some message))
  | .exception => goOn s (.exit none)

/-- One statement of `work_handler`.  `pending` is the lock of the G-code class; `ran` are the commands that a line
runs, and what goes wrong with it otherwise. -/
def handlerStep (pending : Bool) (now : Now) (ran : List Command × Option Failure) (s : SdState) : Pc → Turn
  | .seek =>
    match s.currentFile with
    | none => goOn s .abort
    | some f =>
      if f.closed then goOn s .abort
      else goOn { s with currentFile := some { f with file := { f.file with pos := s.filePosition } } } .noteStart
  | .abort => finish { s with workTimer := false }
  | .noteStart => goOn { s with printStats := s.printStats.noteStart now } (.loop [] [])
  | .loop lines partialInput => goOn s (if s.mustPauseWork then .exit none else .body lines partialInput)
  | .body [] partialInput =>
    match s.currentFile with
    | none => goOn s (.exit none)
    | some f =>
      if f.closed then goOn s (.exit none)
      else if f.file.data = [] then goOn s .eofClose
      else
        let pieces := (f.file.data.splitOn '\n').modifyHead (partialInput ++ ·)
        { goOn { s with
            currentFile := some { f with file := { f.file with pos := f.file.pos + f.file.data.length } } }
            (.loop pieces.dropLast (pieces.getLastD [])) with
          pauses := true }
  | .body (line :: lines) partialInput =>
    if pending then { goOn s (.loop (line :: lines) partialInput) with pauses := true }
    else goOn { s with cmdFromSd := true } (.nextPosition line lines partialInput)
  | .eofClose =>
    match s.currentFile with
    | none => goOn s .crashed
    | some f => goOn { s with currentFile := some { f with closed := true } } .eofNone
  | .eofNone => goOn { s with currentFile := none } (.exit none)
  | .nextPosition line lines partialInput =>
    let next := s.filePosition + line.length + 1
    goOn { s with nextFilePosition := next } (.script (ran.1.flatMap Command.stmts) ran.2 next lines partialInput)
  | .script [] none next lines partialInput => goOn s (.scriptDone next lines partialInput)
  | .script [] (some failure) _ _ _ => leave s failure
  | .script (stmt :: stmts) failure next lines partialInput =>
    match exec now s stmt with
    | .next s guarded =>
      { goOn s (.script (guarded ++ stmts) failure next lines partialInput) with loads := stmt.loads }
    | .wait => { goOn s (.script (stmt :: stmts) failure next lines partialInput) with pauses := true }
    | .raised failure => leave s failure
  | .scriptDone next lines partialInput => goOn { s with cmdFromSd := false } (.advance next lines partialInput)
  | .advance next lines partialInput =>
    goOn { s with filePosition := s.nextFilePosition } (.skip next lines partialInput)
  | .skip next lines partialInput =>
    if s.nextFilePosition = next then goOn s (.loop lines partialInput)
    else
      match s.currentFile with
      | none => goOn s .abort
      | some f =>
        if f.closed then goOn s .abort
        else goOn { s with currentFile := some { f with file := { f.file with pos := s.filePosition } } } (.loop [] [])
  | .exit errorMessage => goOn { s with workTimer := false } (.exited errorMessage)
  | .exited errorMessage => goOn { s with cmdFromSd := false } (.ended errorMessage)
  | .ended (some message) => finish { s with printStats := s.printStats.noteFinish .error message now }
  | .ended none => goOn s (if s.currentFile.isSome then .notePause else .noteComplete)
  | .notePause => finish { s with printStats := s.printStats.notePause now }
  | .noteComplete =>
    { finish { s with printStats := s.printStats.noteFinish .complete [] now } with completes := true }
  | .crashed => goOn s .crashed

/-- The greenlets of the main thread. -/
inductive Greenlet where
  | handler
  | command
  deriving DecidableEq

/-- The main thread: the command that holds the lock, which greenlet runs if none has paused, and how many files have
been loaded. -/
structure Main where
  sd : SdState
  command : Option (List Stmt)
  active : Option Greenlet
  loads : ℕ

/-- A reset thread, with the number of files loaded before its print was completed. -/
structure Thread where
  stmts : List Stmt
  loads : ℕ

structure System where
  main : Main
  threads : List Thread

/-- What happens next. -/
inductive Label where
  | start (command : Command)
  | run (greenlet : Greenlet) (now : Now) (ran : List Command × Option Failure)
  | thread (i : ℕ) (now : Now)

/-- One statement of the command. -/
def commandStep (now : Now) (m : Main) : Main :=
  match m.command with
  | none => m
  | some [] => { m with command := none, active := none }
  | some (stmt :: stmts) =>
    match exec now m.sd stmt with
    | .next sd guarded =>
      { sd
        command := some (guarded ++ stmts)
        active := some .command
        loads := m.loads + if stmt.loads then 1 else 0 }
    | .wait => { m with active := none }
    | .raised _ => { m with command := none, active := none }

/-- One statement of the main thread, and whether a print was completed.  A command starts where no other holds the
lock, and a greenlet runs until it pauses. -/
def mainStep (m : Main) : Label → Main × Bool
  | .start command =>
    (if m.active = none ∧ m.command = none then { m with command := some command.stmts } else m, false)
  | .run .command now _ => (if m.active = some .handler then m else commandStep now m, false)
  | .run .handler now ran =>
    if m.active = some .command then (m, false)
    else
      match m.sd.handler with
      | none => (m, false)
      | some pc =>
        let turn := handlerStep m.command.isSome now ran m.sd pc
        ({ m with
          sd := turn.sd
          active := if turn.pauses || turn.sd.handler.isNone then none else some .handler
          loads := m.loads + if turn.loads then 1 else 0 }, turn.completes)
  | .thread _ _ => (m, false)

/-- One statement of a reset thread.  `reactor.pause` raises an error there: no greenlet switches to another thread. -/
def threadStep (now : Now) (m : Main) (t : Thread) : Main × Thread :=
  match t.stmts with
  | [] => (m, t)
  | stmt :: stmts =>
    match exec now m.sd stmt with
    | .next sd guarded => ({ m with sd }, { t with stmts := guarded ++ stmts })
    | .wait => (m, { t with stmts := [] })
    | .raised _ => (m, { t with stmts := [] })

def step (s : System) : Label → System
  | .thread i now =>
    match s.threads[i]? with
    | none => s
    | some t => ⟨(threadStep now s.main t).1, s.threads.set i (threadStep now s.main t).2⟩
  | label =>
    let r := mainStep s.main label
    ⟨r.1, if r.2 then s.threads ++ [⟨resetFile, r.1.loads⟩] else s.threads⟩

/-- Nothing is loaded. -/
def initSystem : System :=
  ⟨⟨⟨none, 0, 0, false, false, 0, false, .standby, none⟩, none, none, 0⟩, []⟩

def run (labels : List Label) : System := labels.foldl step initSystem

/-- The steps of the other threads, and of the main thread. -/
def Label.notThread (i : ℕ) : Label → Bool
  | .thread j _ => j != i
  | _ => true

/-- The job of a file that was loaded after the print of thread `i` was completed is the same in `t`. -/
def LaterJobSame (i : ℕ) (s t : System) : Prop :=
  ∀ thread ∈ s.threads[i]?, thread.loads ≠ s.main.loads → s.main.sd = t.main.sd

/-- A statement of a reset thread finds what it writes, or only tests. -/
def Stmt.Idle (s : SdState) : Stmt → Prop
  | .setMustPauseWork value => s.mustPauseWork = value
  | .closeFile => ∀ f ∈ s.currentFile, f.closed = true
  | .setFile file => s.currentFile = file
  | .setFilePosition position => s.filePosition = position
  | .setFileSize size => s.fileSize = size
  | .resetStats part => s.printStats.resetPart part = s.printStats
  | _ => True

/-- Once a file was loaded, thread `i` writes only what is there. -/
def Harmless (i : ℕ) (s : System) : Prop :=
  ∀ thread ∈ s.threads[i]?, thread.loads ≠ s.main.loads → ∀ stmt ∈ thread.stmts.head?, stmt.Idle s.main.sd

end System

/-! ## What a command resets before it loads -/

section Fine

/-- The attributes of a job that a reset assigns. -/
inductive Attribute where
  | filePosition
  | fileSize
  | printStats (part : Part)
  deriving DecidableEq

def Attribute.IsReset (s : SdState) : Attribute → Prop
  | .filePosition => s.filePosition = 0
  | .fileSize => s.fileSize = 0
  | .printStats part => s.printStats.resetPart part = s.printStats

/-- Whether the attribute is known to be reset after a statement.  Nothing is known where the greenlet may pause. -/
def Stmt.after (a : Attribute) (known : Bool) : Stmt → Bool
  | .resetIfFile => false
  | .cancelIfFile => false
  | .doPause => false
  | .waitWork => false
  | .setFilePosition position => if a = .filePosition then position = 0 else known
  | .setFileSize size => if a = .fileSize then size = 0 else known
  | .resetStats part => a = .printStats part || known
  | .setFilename _ =>
    match a with
    | .printStats _ => false
    | _ => known
  | .noteCancel =>
    match a with
    | .printStats _ => false
    | _ => known
  | _ => known

/-- Where the statements load a file the attribute is reset. -/
def fine (a : Attribute) : Bool → List Stmt → Bool
  | _, [] => true
  | known, stmt :: stmts => (!stmt.loads || known) && fine a (stmt.after a known) stmts

theorem fine_stmts (a : Attribute) (command : Command) : fine a false command.stmts = true := by
  cases command with
  | sdcardPrintFile opened =>
    cases opened with
    | none => cases a <;> rfl
    | some opened =>
      cases a with
      | printStats part => cases part <;> rfl
      | _ => rfl
  | m23 opened =>
    cases opened with
    | none => cases a <;> rfl
    | some opened =>
      cases a with
      | printStats part => cases part <;> rfl
      | _ => rfl
  | m26 position => cases a <;> rfl
  | _ => cases a <;> rfl

theorem exec_fine {now : Now} {s s' : SdState} {stmt : Stmt} {guarded stmts : List Stmt} {a : Attribute} {known : Bool}
    (h : exec now s stmt = .next s' guarded) (hfine : fine a known (stmt :: stmts) = true) :
    fine a (stmt.after a known) (guarded ++ stmts) = true := by
  rw [(exec_next h).2.1]
  rw [fine, Bool.and_eq_true] at hfine
  cases stmt with
  | resetIfFile =>
    rw [Stmt.guards]
    split_ifs
    · exact hfine.2
    · exact hfine.2
  | cancelIfFile =>
    rw [Stmt.guards]
    split_ifs
    · cases a <;> exact hfine.2
    · exact hfine.2
  | doPause =>
    rw [Stmt.guards]
    split_ifs
    · exact hfine.2
    · exact hfine.2
  | _ => exact hfine.2

/-- A reset assignment of another part leaves a part as it is. -/
theorem isReset_resetPart {s : SdState} {a : Attribute} (part : Part) (h : a.IsReset s ∨ a = .printStats part) :
    a.IsReset { s with printStats := s.printStats.resetPart part } := by
  cases a with
  | filePosition => exact h.resolve_right nofun
  | fileSize => exact h.resolve_right nofun
  | printStats part' =>
    obtain h | h := h
    · show (s.printStats.resetPart part).resetPart part' = s.printStats.resetPart part
      rw [PrintStats.resetPart_resetPart, show s.printStats.resetPart part' = s.printStats from h]
    · cases h
      exact s.printStats.resetPart_self part

theorem exec_isReset {now : Now} {s s' : SdState} {stmt : Stmt} {guarded : List Stmt} {a : Attribute} {known : Bool}
    (h : exec now s stmt = .next s' guarded) (hs : known = true → a.IsReset s) (hknown : stmt.after a known = true) :
    a.IsReset s' := by
  rw [(exec_next h).1]
  cases stmt with
  | resetIfFile => cases hknown
  | cancelIfFile => cases hknown
  | doPause => cases hknown
  | waitWork => cases hknown
  | setFilePosition position =>
    cases a with
    | filePosition =>
      show position = 0
      simpa [Stmt.after] using hknown
    | fileSize => exact hs hknown
    | printStats part => exact hs hknown
  | setFileSize size =>
    cases a with
    | filePosition => exact hs hknown
    | fileSize =>
      show size = 0
      simpa [Stmt.after] using hknown
    | printStats part => exact hs hknown
  | resetStats part =>
    simp only [Stmt.after, Bool.or_eq_true, decide_eq_true_eq] at hknown
    exact isReset_resetPart part (hknown.symm.imp_left hs)
  | setFilename filename =>
    cases a with
    | printStats part => cases hknown
    | _ => exact hs hknown
  | noteCancel =>
    cases a with
    | printStats part => cases hknown
    | _ => exact hs hknown
  | _ => cases a <;> exact hs hknown

end Fine

/-! ## What every run keeps -/

section Invariant

/-- The statements of a reset thread. -/
def Stmt.ofThread : Stmt → Bool
  | .resetIfFile => true
  | .doPause => true
  | .setMustPauseWork value => value
  | .waitWork => true
  | .closeFile => true
  | .setFile file => file.isNone
  | .setFilePosition position => position = 0
  | .setFileSize size => size = 0
  | .resetStats _ => true
  | _ => false

/-- What a statement of a reset thread does. -/
structure ThreadEffect (s s' : SdState) (stmt : Stmt) (guarded : List Stmt) : Prop where
  guarded : ∀ g ∈ guarded, g.ofThread = true
  handler : s'.handler = s.handler
  noFile : s.currentFile = none → s'.currentFile = none
  isReset : ∀ a : Attribute, a.IsReset s → a.IsReset s'
  idle : s' = s ↔ stmt.Idle s

theorem exec_ofThread {now : Now} {s s' : SdState} {stmt : Stmt} {guarded : List Stmt} (hstmt : stmt.ofThread = true)
    (h : exec now s stmt = .next s' guarded) : ThreadEffect s s' stmt guarded := by
  obtain ⟨rfl, rfl, hclose⟩ := exec_next h
  cases stmt with
  | resetIfFile =>
    refine ⟨?_, rfl, id, fun _ => id, iff_of_true rfl trivial⟩
    rw [Stmt.guards]
    split_ifs <;> simp [Stmt.ofThread]
  | doPause =>
    refine ⟨?_, rfl, id, fun _ => id, iff_of_true rfl trivial⟩
    rw [Stmt.guards]
    split_ifs <;> simp [Stmt.ofThread]
  | setMustPauseWork value =>
    exact ⟨nofun, rfl, id, fun a ha => by cases a <;> exact ha,
      fun h => (congrArg SdState.mustPauseWork h).symm, fun h => by cases h; rfl⟩
  | waitWork => exact ⟨nofun, rfl, id, fun _ => id, iff_of_true rfl trivial⟩
  | closeFile =>
    obtain ⟨f, hf⟩ := Option.isSome_iff_exists.mp (hclose rfl)
    refine ⟨nofun, rfl, fun hnone => absurd (hnone.symm.trans hf) nofun, fun a ha => by cases a <;> exact ha, ?_, ?_⟩
    · intro h g hg
      have hsame := congrArg SdState.currentFile h
      rw [← hsame, Stmt.effect, hf] at hg
      cases hg
      rfl
    · intro h
      have hclosed : { f with closed := true } = f := by
        rw [← h f hf]
      rw [Stmt.effect, hf, Option.map_some, hclosed, ← hf]
  | setFile file =>
    exact ⟨nofun, rfl, fun _ => Option.isNone_iff_eq_none.mp hstmt, fun a ha => by cases a <;> exact ha,
      fun h => (congrArg SdState.currentFile h).symm, fun h => by cases h; rfl⟩
  | setFilePosition position =>
    refine ⟨nofun, rfl, id, fun a ha => ?_, fun h => (congrArg SdState.filePosition h).symm,
      fun h => by cases h; rfl⟩
    cases a with
    | filePosition =>
      show position = 0
      exact of_decide_eq_true hstmt
    | _ => exact ha
  | setFileSize size =>
    refine ⟨nofun, rfl, id, fun a ha => ?_, fun h => (congrArg SdState.fileSize h).symm, fun h => by cases h; rfl⟩
    cases a with
    | fileSize =>
      show size = 0
      exact of_decide_eq_true hstmt
    | _ => exact ha
  | resetStats part =>
    exact ⟨nofun, rfl, id, fun a ha => isReset_resetPart part (Or.inl ha), fun h => congrArg SdState.printStats h,
      fun h => by rw [Stmt.effect, show s.printStats.resetPart part = s.printStats from h]⟩
  | _ => cases hstmt

theorem exec_wait {now : Now} {s : SdState} {stmt : Stmt} (h : exec now s stmt = .wait) : stmt = .waitWork := by
  cases stmt with
  | waitWork => rfl
  | closeFile =>
    simp only [exec] at h
    split at h <;> cases h
  | raiseIfBusy =>
    simp only [exec] at h
    split_ifs at h
  | raiseIfFromSd =>
    simp only [exec] at h
    split_ifs at h
  | _ => cases h

/-- What is known of an attribute covers what the command still loads, also after a pause. -/
def CommandOk (a : Attribute) (m : Main) : Prop :=
  ∀ stmts ∈ m.command,
    (m.active = some .command → ∃ known, (known = true → a.IsReset m.sd) ∧ fine a known stmts = true) ∧
    (m.active ≠ some .command → fine a false stmts = true)

theorem CommandOk.known {m : Main} {a : Attribute} (h : CommandOk a m) {stmts : List Stmt}
    (hstmts : stmts ∈ m.command) : ∃ known, (known = true → a.IsReset m.sd) ∧ fine a known stmts = true := by
  by_cases hactive : m.active = some .command
  · exact (h stmts hstmts).1 hactive
  · exact ⟨false, nofun, (h stmts hstmts).2 hactive⟩

/-- A statement of the command keeps what is known. -/
theorem commandStep_ok {now : Now} {m : Main} {a : Attribute} (h : CommandOk a m) :
    CommandOk a (commandStep now m) := by
  unfold commandStep
  split
  · exact h
  · exact nofun
  · rename_i stmt stmts hcommand
    obtain ⟨known, hreset, hfine⟩ := h.known hcommand
    split
    · rename_i s' guarded hexec
      intro stmts' hstmts'
      cases hstmts'
      exact ⟨fun _ => ⟨_, exec_isReset hexec hreset, exec_fine hexec hfine⟩, fun hne => absurd rfl hne⟩
    · rename_i hexec
      intro stmts' hstmts'
      refine ⟨nofun, fun _ => ?_⟩
      have heq : stmt :: stmts = stmts' := Option.some.inj (hcommand.symm.trans hstmts')
      rw [exec_wait hexec] at hfine heq
      rw [← heq]
      exact hfine
    · exact nofun

/-- The handler is about to complete a print only where no file is open. -/
theorem handlerStep_complete {pending : Bool} {now : Now} {ran : List Command × Option Failure} {s : SdState} {pc : Pc}
    (hpc : pc ≠ .noteComplete) :
    ((handlerStep pending now ran s pc).sd.handler = some .noteComplete →
      (handlerStep pending now ran s pc).sd.currentFile = none ∧ (handlerStep pending now ran s pc).pauses = false) ∧
      (handlerStep pending now ran s pc).completes = false := by
  have hleave : ∀ failure, ((leave s failure).sd.handler = some .noteComplete →
      (leave s failure).sd.currentFile = none ∧ (leave s failure).pauses = false) ∧
        (leave s failure).completes = false := by
    intro failure
    cases failure <;> exact ⟨nofun, rfl⟩
  fun_cases handlerStep pending now ran s pc <;>
    first | exact absurd rfl hpc | exact hleave _ | (refine ⟨fun h => ?_, rfl⟩; cases h) | skip
  case case6 lines partialInput =>
    refine ⟨fun h => ?_, rfl⟩
    cases hmust : s.mustPauseWork <;> simp [goOn, hmust] at h
  case case31 =>
    refine ⟨fun h => ⟨?_, rfl⟩, rfl⟩
    cases hfile : s.currentFile with
    | none => exact hfile
    | some f => simp [goOn, hfile] at h

/-- A statement of a command changes the handler only where it registers the timer. -/
theorem exec_handler {now : Now} {s s' : SdState} {stmt : Stmt} {guarded : List Stmt}
    (h : exec now s stmt = .next s' guarded) : s'.handler = s.handler ∨ s'.handler = some .seek := by
  rw [(exec_next h).1]
  cases stmt with
  | registerTimer => exact Or.inr rfl
  | _ => exact Or.inl rfl

/-- What the main thread keeps of the invariant. -/
def MainOk (m : Main) : Prop :=
  (∀ a, CommandOk a m) ∧ (m.sd.handler = some .noteComplete → m.sd.currentFile = none ∧ m.active = some .handler)

theorem commandStep_handler {now : Now} {m : Main} (h : (commandStep now m).sd.handler = some .noteComplete) :
    m.sd.handler = some .noteComplete := by
  unfold commandStep at h
  split at h
  · exact h
  · exact h
  · split at h
    · rename_i hexec
      obtain heq | heq := exec_handler hexec
      · exact heq.symm.trans h
      · cases heq.symm.trans h
    · exact h
    · exact h

/-- **A statement of the main thread** keeps it; files are counted; and a print is completed where no file is open. -/
theorem mainStep_ok {m : Main} (label : Label) (h : MainOk m) :
    MainOk (mainStep m label).1 ∧ m.loads ≤ (mainStep m label).1.loads ∧ ((mainStep m label).2 = true →
      (mainStep m label).1.sd.currentFile = none ∧ (mainStep m label).1.sd.handler = none) := by
  cases label with
  | start command =>
    unfold mainStep
    dsimp only
    split_ifs with hidle
    · refine ⟨⟨fun a stmts hstmts => ?_, fun hcomplete => ?_⟩, le_rfl, nofun⟩
      · cases hstmts
        refine ⟨fun hactive => ?_, fun _ => fine_stmts a command⟩
        cases hidle.1.symm.trans hactive
      · cases hidle.1.symm.trans (h.2 hcomplete).2
    · exact ⟨h, le_rfl, nofun⟩
  | run greenlet now ran =>
    cases greenlet with
    | command =>
      unfold mainStep
      dsimp only
      split_ifs with hactive
      · exact ⟨h, le_rfl, nofun⟩
      · refine ⟨⟨fun a => commandStep_ok (h.1 a), fun hcomplete => ?_⟩, ?_, nofun⟩
        · exact absurd (h.2 (commandStep_handler hcomplete)).2 hactive
        · unfold commandStep
          split
          · exact le_rfl
          · exact le_rfl
          · split
            · exact Nat.le_add_right _ _
            · exact le_rfl
            · exact le_rfl
    | handler =>
      unfold mainStep
      dsimp only
      split_ifs with hactive
      · exact ⟨h, le_rfl, nofun⟩
      · split
        · exact ⟨h, le_rfl, nofun⟩
        · rename_i pc hpc
          refine ⟨⟨fun a stmts hstmts => ⟨fun hact => ?_, fun _ => (h.1 a stmts hstmts).2 hactive⟩,
            fun hcomplete => ?_⟩, Nat.le_add_right _ _, fun hcompletes => ?_⟩
          · dsimp only at hact
            split_ifs at hact
            cases hact
          · by_cases hlast : pc = .noteComplete
            · rw [hlast] at hcomplete
              cases hcomplete
            · dsimp only at hcomplete ⊢
              obtain ⟨hfile, hpauses⟩ := (handlerStep_complete hlast).1 hcomplete
              refine ⟨hfile, ?_⟩
              rw [hpauses, hcomplete]
              rfl
          · by_cases hlast : pc = .noteComplete
            · subst hlast
              exact ⟨(h.2 hpc).1, rfl⟩
            · dsimp only at hcompletes
              rw [(handlerStep_complete hlast).2] at hcompletes
              cases hcompletes
  | thread i now => exact ⟨h, le_rfl, nofun⟩

/-- **A statement of a reset thread** keeps it too. -/
theorem threadStep_ok (now : Now) {m : Main} {t : Thread} (h : MainOk m) (ht : ∀ stmt ∈ t.stmts, stmt.ofThread = true) :
    MainOk (threadStep now m t).1 ∧ (threadStep now m t).1.loads = m.loads ∧
      (∀ stmt ∈ (threadStep now m t).2.stmts, stmt.ofThread = true) ∧ (threadStep now m t).2.loads = t.loads := by
  unfold threadStep
  split
  · exact ⟨h, rfl, ht, rfl⟩
  · rename_i stmt stmts hstmts
    rw [hstmts] at ht
    split
    · rename_i sd guarded hexec
      have heffect := exec_ofThread (ht stmt List.mem_cons_self) hexec
      refine ⟨⟨fun a stmts' hstmts' => ⟨fun hactive => ?_, (h.1 a stmts' hstmts').2⟩, fun hcomplete => ?_⟩, rfl,
        fun g hg => ?_, rfl⟩
      · obtain ⟨known, hknown, hfine⟩ := (h.1 a stmts' hstmts').1 hactive
        exact ⟨known, fun hk => heffect.isReset a (hknown hk), hfine⟩
      · obtain ⟨hfile, hactive⟩ := h.2 (heffect.handler.symm.trans hcomplete)
        exact ⟨heffect.noFile hfile, hactive⟩
      · obtain hg | hg := List.mem_append.mp hg
        · exact heffect.guarded g hg
        · exact ht g (List.mem_cons_of_mem stmt hg)
    · exact ⟨h, rfl, nofun, rfl⟩
    · exact ⟨h, rfl, nofun, rfl⟩

/-- **The invariant.** -/
structure Inv (s : System) : Prop where
  main : MainOk s.main
  threads : ∀ t ∈ s.threads, ∀ stmt ∈ t.stmts, stmt.ofThread = true
  loads : ∀ t ∈ s.threads, t.loads ≤ s.main.loads

theorem inv_init : Inv initSystem := ⟨⟨nofun, nofun⟩, nofun, nofun⟩

theorem step_main {s : System} {label : Label} (h : ∀ i now, label ≠ .thread i now) :
    step s label = ⟨(mainStep s.main label).1,
      if (mainStep s.main label).2 then s.threads ++ [⟨resetFile, (mainStep s.main label).1.loads⟩]
      else s.threads⟩ := by
  cases label with
  | thread i now => exact absurd rfl (h i now)
  | _ => rfl

/-- **Every step** keeps the invariant. -/
theorem inv_step {s : System} (label : Label) (h : Inv s) : Inv (step s label) := by
  by_cases hthread : ∃ i now, label = .thread i now
  · obtain ⟨i, now, rfl⟩ := hthread
    unfold step
    dsimp only
    split
    · exact h
    · rename_i t hi
      have hmem := List.mem_of_getElem? hi
      obtain ⟨hmain, hloads, hstmts, hcount⟩ := threadStep_ok now h.main (h.threads t hmem)
      refine ⟨hmain, fun u hu => ?_, fun u hu => ?_⟩
      · obtain hu | rfl := List.mem_or_eq_of_mem_set hu
        · exact h.threads u hu
        · exact hstmts
      · show u.loads ≤ (threadStep now s.main t).1.loads
        rw [hloads]
        obtain hu | rfl := List.mem_or_eq_of_mem_set hu
        · exact h.loads u hu
        · rw [hcount]
          exact h.loads t hmem
  · rw [step_main fun i now heq => hthread ⟨i, now, heq⟩]
    obtain ⟨hmain, hloads, -⟩ := mainStep_ok label h.main
    refine ⟨hmain, fun u hu => ?_, fun u hu => ?_⟩
    · dsimp only at hu
      split_ifs at hu
      · obtain hu | hu := List.mem_append.mp hu
        · exact h.threads u hu
        · rw [List.mem_singleton] at hu
          rw [hu]
          exact List.all_eq_true.mp (show resetFile.all Stmt.ofThread = true by decide)
      · exact h.threads u hu
    · dsimp only at hu ⊢
      split_ifs at hu
      · obtain hu | hu := List.mem_append.mp hu
        · exact (h.loads u hu).trans hloads
        · rw [List.mem_singleton] at hu
          rw [hu]
      · exact (h.loads u hu).trans hloads

theorem inv_run (labels : List Label) : Inv (run labels) := by
  induction labels using List.reverseRecOn with
  | nil => exact inv_init
  | append_singleton labels label ih =>
    rw [run, List.foldl_append]
    exact inv_step label ih

end Invariant

/-! ## A run and the run without the thread -/

section Erased

variable {i : ℕ}

/-- All attributes agree but those of the job. -/
def Agree (s t : SdState) : Prop :=
  ∃ filePosition fileSize printStats, t = { s with filePosition, fileSize, printStats }

/-- The handler is not at work on a file. -/
def Waiting (handler : Option Pc) : Prop := handler = none ∨ handler = some .seek ∨ handler = some .abort

/-- The statements of the thread where no file is open. -/
def Stmt.ofJob : Stmt → Bool
  | .resetIfFile => true
  | .setFilePosition _ => true
  | .setFileSize _ => true
  | .resetStats _ => true
  | _ => false

/-- The threads other than `i` are the same. -/
def OthersSame (i : ℕ) (s t : System) : Prop :=
  s.threads.length = t.threads.length ∧ ∀ j, j ≠ i → s.threads[j]? = t.threads[j]?

/-- The main threads of the two runs while no file has been loaded. -/
structure MainBetween (m n : Main) : Prop where
  command : m.command = n.command
  active : m.active = n.active
  loads : m.loads = n.loads
  agree : Agree m.sd n.sd
  noFile : m.sd.currentFile = none
  waiting : Waiting m.sd.handler

/-- The print of thread `i` was completed, and no file has been loaded since. -/
structure Between (i : ℕ) (s t : System) : Prop where
  thread : ∃ thread, s.threads[i]? = some thread ∧ thread.loads = s.main.loads ∧
    ∀ stmt ∈ thread.stmts, stmt.ofJob = true
  others : OthersSame i s t
  main : MainBetween s.main t.main

/-- **A run next to the run without thread `i`**: the same until the print is completed; up to the job's attributes
until the next file is loaded; and the same again. -/
inductive Related (i : ℕ) (s t : System) : Prop
  | before (hlen : s.threads.length ≤ i) (heq : s = t)
  | between (h : Between i s t)
  | later (hothers : OthersSame i s t) (hmain : s.main = t.main)
    (hthread : ∃ thread, s.threads[i]? = some thread ∧ thread.loads < s.main.loads)

theorem related_init (i : ℕ) : Related i initSystem initSystem := .before (Nat.zero_le i) rfl

theorem Agree.refl (s : SdState) : Agree s s := ⟨_, _, _, rfl⟩

theorem Agree.common {s t u : SdState} (h : Agree s t) (h' : Agree s u) : Agree t u := by
  obtain ⟨_, _, _, rfl⟩ := h
  obtain ⟨_, _, _, rfl⟩ := h'
  exact ⟨_, _, _, rfl⟩

/-- Where everything is reset nothing is left to differ. -/
theorem Agree.eq {s t : SdState} (h : Agree s t) (hs : ∀ a : Attribute, a.IsReset s)
    (ht : ∀ a : Attribute, a.IsReset t) : s = t := by
  have hposition : s.filePosition = t.filePosition := (hs .filePosition).trans (ht .filePosition).symm
  have hsize : s.fileSize = t.fileSize := (hs .fileSize).trans (ht .fileSize).symm
  have hstats : s.printStats = t.printStats :=
    (PrintStats.eq_standby fun part => hs (.printStats part)).trans
      (PrintStats.eq_standby fun part => ht (.printStats part)).symm
  obtain ⟨position, size, stats, rfl⟩ := h
  dsimp only at hposition hsize hstats
  rw [← hposition, ← hsize, ← hstats]

/-- The results of a statement agree. -/
def Result.Agree : Result → Result → Prop
  | .next s guarded, .next t guarded' => ResetThread.Agree s t ∧ guarded = guarded'
  | .wait, .wait => True
  | .raised failure, .raised failure' => failure = failure'
  | _, _ => False

theorem Result.Agree.cases {r r' : Result} (h : r.Agree r') :
    (∃ s t guarded, r = .next s guarded ∧ r' = .next t guarded ∧ ResetThread.Agree s t) ∨
      (r = .wait ∧ r' = .wait) ∨ ∃ failure, r = .raised failure ∧ r' = .raised failure := by
  cases r with
  | next s guarded =>
    cases r' with
    | next t guarded' =>
      obtain ⟨hagree, rfl⟩ := h
      exact Or.inl ⟨s, t, guarded, rfl, rfl, hagree⟩
    | wait => exact False.elim h
    | raised failure' => exact False.elim h
  | wait =>
    cases r' with
    | next t guarded' => exact False.elim h
    | wait => exact Or.inr (Or.inl ⟨rfl, rfl⟩)
    | raised failure' => exact False.elim h
  | raised failure =>
    cases r' with
    | next t guarded' => exact False.elim h
    | wait => exact False.elim h
    | raised failure' =>
      obtain rfl : failure = failure' := h
      exact Or.inr (Or.inr ⟨failure, rfl, rfl⟩)

theorem exec_agree {s t : SdState} (h : Agree s t) (now : Now) (stmt : Stmt) :
    (exec now s stmt).Agree (exec now t stmt) := by
  obtain ⟨position, size, stats, rfl⟩ := h
  cases stmt with
  | closeFile =>
    simp only [exec]
    split
    · rename_i hfile
      simp [Result.Agree]
    · exact ⟨⟨_, _, _, rfl⟩, rfl⟩
  | waitWork =>
    simp only [exec]
    split_ifs
    · trivial
    · exact ⟨⟨_, _, _, rfl⟩, rfl⟩
  | raiseIfBusy =>
    simp only [exec]
    split_ifs
    · rfl
    · exact ⟨⟨_, _, _, rfl⟩, rfl⟩
  | raiseIfFromSd =>
    simp only [exec]
    split_ifs
    · rfl
    · exact ⟨⟨_, _, _, rfl⟩, rfl⟩
  | raise failure => rfl
  | _ => exact ⟨⟨_, _, _, rfl⟩, rfl⟩

theorem exec_noFile {now : Now} {s s' : SdState} {stmt : Stmt} {guarded : List Stmt}
    (h : exec now s stmt = .next s' guarded) (hloads : stmt.loads = false) (hfile : s.currentFile = none) :
    s'.currentFile = none := by
  rw [(exec_next h).1]
  cases stmt with
  | setFile file =>
    cases file with
    | none => rfl
    | some f => cases hloads
  | closeFile =>
    rw [Stmt.effect, hfile]
    rfl
  | _ => exact hfile

/-- What is left of the thread's statements where no file is open. -/
theorem threadStep_ofJob (now : Now) {m : Main} {t : Thread} (hfile : m.sd.currentFile = none)
    (ht : ∀ stmt ∈ t.stmts, stmt.ofJob = true) :
    (∃ sd, (threadStep now m t).1 = { m with sd } ∧ Agree m.sd sd ∧ sd.currentFile = none ∧ sd.handler = m.sd.handler) ∧
      (∀ stmt ∈ (threadStep now m t).2.stmts, stmt.ofJob = true) ∧ (threadStep now m t).2.loads = t.loads := by
  unfold threadStep
  split
  · exact ⟨⟨m.sd, rfl, .refl _, hfile, rfl⟩, ht, rfl⟩
  · rename_i stmt stmts hstmts
    rw [hstmts] at ht
    have hstmt := ht stmt List.mem_cons_self
    split
    · rename_i sd guarded hexec
      obtain ⟨rfl, rfl, -⟩ := exec_next hexec
      have hguards : stmt.guards m.sd = [] := by
        cases stmt with
        | resetIfFile =>
          rw [Stmt.guards, hfile]
          rfl
        | setFilePosition position => rfl
        | setFileSize size => rfl
        | resetStats part => rfl
        | _ => cases hstmt
      refine ⟨⟨_, rfl, ?_, ?_, ?_⟩, ?_, rfl⟩
      · cases stmt <;> first | exact ⟨_, _, _, rfl⟩ | cases hstmt
      · cases stmt <;> first | exact hfile | cases hstmt
      · cases stmt <;> first | rfl | cases hstmt
      · rw [hguards]
        exact fun g hg => ht g (List.mem_cons_of_mem stmt hg)
    · exact ⟨⟨m.sd, rfl, .refl _, hfile, rfl⟩, nofun, rfl⟩
    · exact ⟨⟨m.sd, rfl, .refl _, hfile, rfl⟩, nofun, rfl⟩

theorem MainOk.isReset {m : Main} (h : MainOk m) {stmt : Stmt} {stmts : List Stmt}
    (hcommand : m.command = some (stmt :: stmts)) (hloads : stmt.loads = true) (a : Attribute) : a.IsReset m.sd := by
  obtain ⟨known, hreset, hfine⟩ := (h.1 a).known hcommand
  rw [fine, hloads, Bool.and_eq_true] at hfine
  exact hreset hfine.1

/-- A statement of the command: a file that it loads brings the runs together. -/
theorem MainBetween.commandStep {m n : Main} (h : MainBetween m n) (hm : MainOk m) (hn : MainOk n) (now : Now) :
    MainBetween (commandStep now m) (commandStep now n) ∧ (commandStep now m).loads = m.loads ∨
      commandStep now m = commandStep now n ∧ m.loads < (commandStep now m).loads := by
  cases hcommand : m.command with
  | none =>
    have hcommand' : n.command = none := h.command.symm.trans hcommand
    refine Or.inl ?_
    simp only [ResetThread.commandStep, hcommand, hcommand']
    exact ⟨h, trivial⟩
  | some stmts =>
    have hcommand' : n.command = some stmts := h.command.symm.trans hcommand
    cases stmts with
    | nil =>
      refine Or.inl ?_
      simp only [ResetThread.commandStep, hcommand, hcommand']
      exact ⟨⟨rfl, rfl, h.loads, h.agree, h.noFile, h.waiting⟩, trivial⟩
    | cons stmt stmts =>
      cases hloads : stmt.loads with
      | true =>
        have hsd : m.sd = n.sd := h.agree.eq (hm.isReset hcommand hloads) (hn.isReset hcommand' hloads)
        have hmain : m = n := by
          cases m
          cases n
          exact congr (congr (congr (congrArg Main.mk hsd) h.command) h.active) h.loads
        refine Or.inr ⟨by rw [hmain], ?_⟩
        cases stmt with
        | setFile file =>
          simp only [ResetThread.commandStep, hcommand, exec, hloads, if_true]
          exact Nat.lt_succ_self _
        | _ => cases hloads
      | false =>
        refine Or.inl ?_
        simp only [ResetThread.commandStep, hcommand, hcommand', hloads]
        obtain ⟨sd, sd', guarded, hexec, hexec', hagree⟩ | ⟨hexec, hexec'⟩ | ⟨failure, hexec, hexec'⟩ :=
          (exec_agree h.agree now stmt).cases
        · rw [hexec, hexec']
          refine ⟨⟨rfl, rfl, by rw [h.loads], hagree, exec_noFile hexec hloads h.noFile, ?_⟩, rfl⟩
          obtain heq | heq := exec_handler hexec
          · show Waiting sd.handler
            rw [heq]
            exact h.waiting
          · exact Or.inr (Or.inl heq)
        · rw [hexec, hexec']
          exact ⟨⟨rfl, rfl, h.loads, h.agree, h.noFile, h.waiting⟩, rfl⟩
        · rw [hexec, hexec']
          exact ⟨⟨rfl, rfl, h.loads, h.agree, h.noFile, h.waiting⟩, rfl⟩

/-- **A statement of the main threads** while no file has been loaded: neither completes a print, and the first file
brings them together. -/
theorem MainBetween.mainStep {m n : Main} (h : MainBetween m n) (hm : MainOk m) (hn : MainOk n) (label : Label) :
    (MainBetween (mainStep m label).1 (mainStep n label).1 ∧ (mainStep m label).1.loads = m.loads ∨
      (mainStep m label).1 = (mainStep n label).1 ∧ m.loads < (mainStep m label).1.loads) ∧
      (mainStep m label).2 = false ∧ (mainStep n label).2 = false := by
  cases label with
  | start command =>
    simp only [ResetThread.mainStep, ← h.active, ← h.command]
    split_ifs
    · exact ⟨Or.inl ⟨⟨rfl, rfl, h.loads, h.agree, h.noFile, h.waiting⟩, rfl⟩, trivial, trivial⟩
    · exact ⟨Or.inl ⟨h, rfl⟩, trivial, trivial⟩
  | run greenlet now ran =>
    cases greenlet with
    | command =>
      simp only [ResetThread.mainStep, ← h.active]
      split_ifs
      · exact ⟨Or.inl ⟨h, rfl⟩, trivial, trivial⟩
      · exact ⟨h.commandStep hm hn now, trivial, trivial⟩
    | handler =>
      obtain ⟨position, size, stats, hsd⟩ := h.agree
      have hhandler : n.sd.handler = m.sd.handler := by rw [hsd]
      have hfile : n.sd.currentFile = none := by rw [hsd]; exact h.noFile
      simp only [ResetThread.mainStep, ← h.active, hhandler]
      split_ifs
      · exact ⟨Or.inl ⟨h, rfl⟩, rfl, rfl⟩
      · obtain hnone | hseek | habort := h.waiting
        · rw [hnone]
          exact ⟨Or.inl ⟨h, rfl⟩, rfl, rfl⟩
        · rw [hseek]
          simp only [handlerStep, h.noFile, hfile]
          refine ⟨Or.inl ⟨⟨h.command, rfl, h.loads, ⟨position, size, stats, ?_⟩, h.noFile, Or.inr (Or.inr rfl)⟩, rfl⟩,
            rfl, rfl⟩
          simp only [goOn, hsd]
        · rw [habort]
          simp only [handlerStep]
          refine ⟨Or.inl ⟨⟨h.command, rfl, h.loads, ⟨position, size, stats, ?_⟩, h.noFile, Or.inl rfl⟩, rfl⟩, rfl, rfl⟩
          simp only [finish, hsd]
  | thread j now => exact ⟨Or.inl ⟨h, rfl⟩, rfl, rfl⟩

theorem MainBetween.threadStep {m n : Main} (h : MainBetween m n) (now : Now) {t : Thread}
    (ht : ∀ stmt ∈ t.stmts, stmt.ofThread = true) :
    MainBetween (threadStep now m t).1 (threadStep now n t).1 ∧ (threadStep now m t).2 = (threadStep now n t).2 := by
  cases hstmts : t.stmts with
  | nil =>
    simp only [ResetThread.threadStep, hstmts]
    exact ⟨h, trivial⟩
  | cons stmt stmts =>
    rw [hstmts] at ht
    simp only [ResetThread.threadStep, hstmts]
    obtain ⟨sd, sd', guarded, hexec, hexec', hagree⟩ | ⟨hexec, hexec'⟩ | ⟨failure, hexec, hexec'⟩ :=
      (exec_agree h.agree now stmt).cases
    · have heffect := exec_ofThread (ht stmt List.mem_cons_self) hexec
      rw [hexec, hexec']
      refine ⟨⟨h.command, h.active, h.loads, hagree, heffect.noFile h.noFile, ?_⟩, rfl⟩
      show Waiting sd.handler
      rw [heffect.handler]
      exact h.waiting
    · rw [hexec, hexec']
      exact ⟨h, rfl⟩
    · rw [hexec, hexec']
      exact ⟨h, rfl⟩

theorem OthersSame.refl (i : ℕ) (s : System) : OthersSame i s s := ⟨rfl, fun _ _ => rfl⟩

theorem OthersSame.set {s t : System} (h : OthersSame i s t) (m n : Main) (j : ℕ) (thread : Thread) :
    OthersSame i ⟨m, s.threads.set j thread⟩ ⟨n, t.threads.set j thread⟩ := by
  refine ⟨by simp [h.1], fun k hk => ?_⟩
  simp only [List.getElem?_set, h.1, h.2 k hk]

theorem OthersSame.setOwn {s t : System} (h : OthersSame i s t) (m : Main) (thread : Thread) :
    OthersSame i ⟨m, s.threads.set i thread⟩ t := by
  refine ⟨by simp [h.1], fun k hk => ?_⟩
  simp only [List.getElem?_set_ne hk.symm]
  exact h.2 k hk

theorem OthersSame.append {s t : System} (h : OthersSame i s t) (m n : Main) (threads : List Thread) :
    OthersSame i ⟨m, s.threads ++ threads⟩ ⟨n, t.threads ++ threads⟩ := by
  refine ⟨by simp [h.1], fun k hk => ?_⟩
  simp only [List.getElem?_append, h.1, h.2 k hk]

/-- The runs stay related when the main thread goes on. -/
theorem Related.main {s t : System} (h : Related i s t) (hs : Inv s) (ht : Inv t) {label : Label}
    (hlabel : ∀ j now, label ≠ .thread j now) : Related i (step s label) (step t label) := by
  obtain ⟨hok, hloads, hcompletes⟩ := mainStep_ok label hs.main
  rw [step_main hlabel, step_main hlabel]
  cases h with
  | before hlen heq =>
    subst heq
    by_cases hcomplete : (mainStep s.main label).2 = true
    · rw [if_pos hcomplete]
      obtain ⟨hfile, hhandler⟩ := hcompletes hcomplete
      obtain hlt | rfl := lt_or_eq_of_le hlen
      · refine .before ?_ rfl
        rw [List.length_append]
        exact hlt
      · refine .between ⟨⟨_, List.getElem?_concat_length, rfl, ?_⟩, .refl _ _,
          ⟨rfl, rfl, rfl, .refl _, hfile, Or.inl hhandler⟩⟩
        exact List.all_eq_true.mp (show resetFile.all Stmt.ofJob = true by decide)
    · rw [if_neg hcomplete]
      exact .before hlen rfl
  | between h =>
    obtain ⟨thread, hthread, hcount, hstmts⟩ := h.thread
    obtain ⟨hstep, hs2, ht2⟩ := h.main.mainStep hs.main ht.main label
    rw [hs2, ht2]
    obtain ⟨hbetween, hsame⟩ | ⟨heq, hlt⟩ := hstep
    · exact .between ⟨⟨thread, hthread, hcount.trans hsame.symm, hstmts⟩, h.others, hbetween⟩
    · exact .later h.others heq ⟨thread, hthread, hcount.trans_lt hlt⟩
  | later hothers hmain hthread =>
    obtain ⟨thread, hthread, hlt⟩ := hthread
    rw [← hmain]
    by_cases hcomplete : (mainStep s.main label).2 = true
    · rw [if_pos hcomplete, if_pos hcomplete]
      refine .later (hothers.append _ _ _) rfl ⟨thread, ?_, hlt.trans_le hloads⟩
      exact List.getElem?_append_left (List.getElem?_eq_some_iff.mp hthread).1 ▸ hthread
    · rw [if_neg hcomplete, if_neg hcomplete]
      exact .later hothers rfl ⟨thread, hthread, hlt.trans_le hloads⟩

theorem Related.other {s t : System} (h : Related i s t) (hs : Inv s) {j : ℕ} (hj : j ≠ i) (now : Now) :
    Related i (step s (.thread j now)) (step t (.thread j now)) := by
  cases h with
  | before hlen heq =>
    subst heq
    refine .before ?_ rfl
    unfold step
    dsimp only
    split
    · exact hlen
    · simpa using hlen
  | between h =>
    obtain ⟨thread, hthread, hcount, hstmts⟩ := h.thread
    have hsame := h.others.2 j hj
    cases hget : s.threads[j]? with
    | none =>
      simp only [step, ← hsame, hget]
      exact .between h
    | some u =>
      have hu := hs.threads u (List.mem_of_getElem? hget)
      obtain ⟨hmain, heq⟩ := h.main.threadStep now hu
      simp only [step, ← hsame, hget]
      rw [← heq]
      refine .between ⟨⟨thread, ?_, ?_, hstmts⟩, h.others.set _ _ _ _, hmain⟩
      · rw [List.getElem?_set_ne hj]
        exact hthread
      · exact hcount.trans (threadStep_ok now hs.main hu).2.1.symm
  | later hothers hmain hthread =>
    obtain ⟨thread, hthread, hlt⟩ := hthread
    have hsame := hothers.2 j hj
    cases hget : s.threads[j]? with
    | none =>
      simp only [step, ← hsame, hget]
      exact .later hothers hmain ⟨thread, hthread, hlt⟩
    | some u =>
      have hu := hs.threads u (List.mem_of_getElem? hget)
      simp only [step, ← hsame, hget]
      rw [← hmain]
      refine .later (hothers.set _ _ _ _) rfl ⟨thread, ?_, ?_⟩
      · rw [List.getElem?_set_ne hj]
        exact hthread
      · exact hlt.trans_eq (threadStep_ok now hs.main hu).2.1.symm

/-- And when the thread itself does, if it is harmless. -/
theorem Related.self {s t : System} (h : Related i s t) (hs : Inv s) (now : Now) (hharmless : Harmless i s) :
    Related i (step s (.thread i now)) t := by
  cases h with
  | before hlen heq =>
    subst heq
    simp only [step, List.getElem?_eq_none hlen]
    exact .before hlen rfl
  | between h =>
    obtain ⟨thread, hthread, hcount, hstmts⟩ := h.thread
    simp only [step, hthread]
    obtain ⟨⟨sd, hmain, hagree, hfile, hhandler⟩, hstmts', hcount'⟩ := threadStep_ofJob now h.main.noFile hstmts
    have hlt := (List.getElem?_eq_some_iff.mp hthread).1
    rw [hmain]
    refine .between ⟨⟨_, List.getElem?_set_self hlt, hcount'.trans hcount, hstmts'⟩, h.others.setOwn _ _,
      ⟨h.main.command, h.main.active, h.main.loads, ?_, hfile, ?_⟩⟩
    · exact hagree.common h.main.agree
    · show Waiting sd.handler
      rw [hhandler]
      exact h.main.waiting
  | later hothers hmain hthread =>
    obtain ⟨thread, hthread, hlt⟩ := hthread
    have hlen := (List.getElem?_eq_some_iff.mp hthread).1
    have hok := hs.threads thread (List.mem_of_getElem? hthread)
    have hidle := hharmless thread hthread hlt.ne
    have hkept : (threadStep now s.main thread).1 = s.main := by
      unfold threadStep
      split
      · rfl
      · rename_i stmt stmts hstmts
        rw [hstmts] at hok hidle
        split
        · rename_i hexec
          have heffect := exec_ofThread (hok stmt List.mem_cons_self) hexec
          rw [heffect.idle.mpr (hidle stmt rfl)]
        · rfl
        · rfl
    simp only [step, hthread]
    refine .later (hothers.setOwn _ _) (hkept.trans hmain) ⟨_, List.getElem?_set_self hlen, ?_⟩
    rw [hkept]
    exact (threadStep_ok now hs.main hok).2.2.2.trans_lt hlt

/-- The run in which thread `i` never wakes. -/
def runWithout (i : ℕ) (labels : List Label) : System := run (labels.filter (Label.notThread i))

theorem Related.same {s t : System} (h : Related i s t) : LaterJobSame i s t := by
  intro thread hthread hloads
  cases h with
  | before hlen heq => rw [heq]
  | between h =>
    obtain ⟨thread', hthread', hcount, -⟩ := h.thread
    have heq : thread = thread' := Option.some.inj (hthread.symm.trans hthread')
    exact absurd (heq ▸ hcount) hloads
  | later hothers hmain _ => rw [hmain]

/-- A statement that raises has found nothing to write. -/
theorem idle_of_raised {now : Now} {s : SdState} {stmt : Stmt} {failure : Failure} (hstmt : stmt.ofThread = true)
    (h : exec now s stmt = .raised failure) : stmt.Idle s := by
  cases stmt with
  | closeFile =>
    simp only [exec] at h
    split at h
    · rename_i hfile
      intro f hf
      cases hfile.symm.trans hf
    · cases h
  | waitWork => trivial
  | raiseIfBusy => cases hstmt
  | raiseIfFromSd => cases hstmt
  | raise failure => cases hstmt
  | _ => cases h

/-- If a step of the thread leaves the later job the same, it was harmless. -/
theorem Related.harmless {s t : System} (h : Related i s t) (hs : Inv s) (now : Now)
    (hsame : LaterJobSame i (step s (.thread i now)) t) : Harmless i s := by
  intro thread hthread hloads stmt hstmt
  have hlen := (List.getElem?_eq_some_iff.mp hthread).1
  have hok := hs.threads thread (List.mem_of_getElem? hthread)
  obtain ⟨-, hmain, -, hcount⟩ := threadStep_ok now hs.main hok
  have hafter := hsame (threadStep now s.main thread).2
  simp only [step, show s.threads[i]? = some thread from hthread] at hafter
  have hsd := (hafter (List.getElem?_set_self hlen) (by rw [hcount, hmain]; exact hloads)).trans
    (h.same thread hthread hloads).symm
  -- a statement that waits or raises only tests
  cases hstmts : thread.stmts with
  | nil =>
    rw [hstmts] at hstmt
    cases hstmt
  | cons stmt' stmts =>
    rw [hstmts] at hstmt hok
    cases hstmt
    simp only [threadStep, hstmts] at hsd
    cases hexec : exec now s.main.sd stmt with
    | next sd guarded =>
      rw [hexec] at hsd
      exact (exec_ofThread (hok stmt List.mem_cons_self) hexec).idle.mp hsd
    | wait =>
      rw [exec_wait hexec]
      trivial
    | raised failure => exact idle_of_raised (hok stmt List.mem_cons_self) hexec

theorem run_concat (labels : List Label) (label : Label) : run (labels ++ [label]) = step (run labels) label := by
  rw [run, List.foldl_append]
  rfl

theorem runWithout_own (i : ℕ) (labels : List Label) (now : Now) :
    runWithout i (labels ++ [.thread i now]) = runWithout i labels := by
  simp [runWithout, List.filter_append, Label.notThread]

theorem runWithout_concat {labels : List Label} {label : Label} (h : label.notThread i = true) :
    runWithout i (labels ++ [label]) = step (runWithout i labels) label := by
  rw [runWithout, List.filter_append, List.filter_singleton, h]
  exact run_concat _ _

/-- **One more step** keeps the runs related, if it is not a harmful one of the thread. -/
theorem Related.concat {labels : List Label} {label : Label} (h : Related i (run labels) (runWithout i labels))
    (hharmless : ∀ now, label = .thread i now → Harmless i (run labels)) :
    Related i (run (labels ++ [label])) (runWithout i (labels ++ [label])) := by
  have hs := inv_run labels
  have ht := inv_run (labels.filter (Label.notThread i))
  rw [run_concat]
  cases label with
  | thread j now =>
    by_cases hj : j = i
    · subst hj
      rw [runWithout_own]
      exact h.self hs now (hharmless now rfl)
    · rw [runWithout_concat (by simpa [Label.notThread] using hj)]
      exact h.other hs hj now
  | start command =>
    rw [runWithout_concat rfl]
    exact h.main hs ht nofun
  | run greenlet now ran =>
    rw [runWithout_concat rfl]
    exact h.main hs ht nofun

/-- **The reset thread and later jobs**: after every step the job of a file that was loaded after the print was
completed is as if the thread had never woken, exactly when all that the thread writes from the load on is there
already. -/
theorem reset_thread_iff (i : ℕ) (labels : List Label) :
    (∀ pre, pre <+: labels → LaterJobSame i (run pre) (runWithout i pre)) ↔
      ∀ pre now, pre ++ [.thread i now] <+: labels → Harmless i (run pre) := by
  constructor
  · intro hsame
    have hharmless : ∀ pre now, pre ++ [.thread i now] <+: labels → Related i (run pre) (runWithout i pre) →
        Harmless i (run pre) := by
      intro pre now hp hrelated
      have hafter := hsame _ hp
      rw [run_concat, runWithout_own] at hafter
      exact hrelated.harmless (inv_run pre) now hafter
    have hrelated : ∀ pre, pre <+: labels → Related i (run pre) (runWithout i pre) := by
      intro pre
      induction pre using List.reverseRecOn with
      | nil => exact fun _ => related_init i
      | append_singleton pre label ih =>
        intro hp
        have hpre := ih ((List.prefix_append _ _).trans hp)
        refine hpre.concat ?_
        rintro now rfl
        exact hharmless pre now hp hpre
    intro pre now hp
    exact hharmless pre now hp (hrelated pre ((List.prefix_append _ _).trans hp))
  · intro hharmless pre
    have hrelated : pre <+: labels → Related i (run pre) (runWithout i pre) := by
      induction pre using List.reverseRecOn with
      | nil => exact fun _ => related_init i
      | append_singleton pre label ih =>
        intro hp
        refine (ih ((List.prefix_append _ _).trans hp)).concat ?_
        rintro now rfl
        exact hharmless pre now hp
    exact fun hp => (hrelated hp).same

/-- What is read of the clock where no print statistics are kept. -/
def noon : Now := ⟨0, 0, 1⟩

/-- An empty file is printed to its end. -/
def firstPrint : List Label :=
  .start (.sdcardPrintFile (some ("a.gcode".toList, []))) :: List.replicate 24 (.run .command noon ([], none)) ++
    List.replicate 10 (.run .handler noon ([], none))

/-- Then the next file is selected. -/
def nextFile : List Label :=
  .start (.m23 (some ("b.gcode".toList, "G28\n".toList))) :: List.replicate 21 (.run .command noon ([], none))

/-- And its print is started. -/
def nextPrint : List Label :=
  nextFile ++ .start .m24 :: List.replicate 4 (.run .command noon ([], none)) ++
    List.replicate 3 (.run .handler noon ([], none))

/-- The thread wakes. -/
def wakes (statements : ℕ) : List Label := List.replicate statements (.thread 0 noon)

/-- **A reset of the next file**: the file that was selected after the first print is closed and forgotten; and a print
that has begun is told to pause. -/
theorem reset_forgets_next_file :
    (run (firstPrint ++ nextFile ++ wakes 13)).main.sd.currentFile = none ∧
      (runWithout 0 (firstPrint ++ nextFile ++ wakes 13)).main.sd.currentFile =
        some ⟨"b.gcode".toList, ⟨"G28\n".toList, 0⟩, false⟩ ∧
      (run (firstPrint ++ nextPrint ++ wakes 3)).main.sd.mustPauseWork = true ∧
      (runWithout 0 (firstPrint ++ nextPrint ++ wakes 3)).main.sd.mustPauseWork = false ∧
      ¬∀ i labels pre, pre <+: labels → LaterJobSame i (run pre) (runWithout i pre) := by
  have hwith : (run (firstPrint ++ nextFile ++ wakes 13)).main.sd.currentFile = none := by decide +kernel
  have hwithout : (runWithout 0 (firstPrint ++ nextFile ++ wakes 13)).main.sd.currentFile =
      some ⟨"b.gcode".toList, ⟨"G28\n".toList, 0⟩, false⟩ := by decide +kernel
  have hcount : (run (firstPrint ++ nextFile ++ wakes 13)).threads[0]?.map Thread.loads = some 1 := by decide +kernel
  have hloads : (run (firstPrint ++ nextFile ++ wakes 13)).main.loads = 2 := by decide +kernel
  refine ⟨hwith, hwithout, by decide +kernel, by decide +kernel, fun h => ?_⟩
  obtain ⟨thread, hthread, hone⟩ := Option.map_eq_some_iff.mp hcount
  have hlater : thread.loads ≠ (run (firstPrint ++ nextFile ++ wakes 13)).main.loads := by
    rw [hone, hloads]
    decide
  have hsame := congrArg SdState.currentFile (h 0 _ _ List.prefix_rfl thread hthread hlater)
  rw [hwith, hwithout] at hsame
  cases hsame

end Erased

end Cxsw.ResetThread
