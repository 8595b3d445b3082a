import Cxsw.CrModel.CrPrinter
import Cxsw.CrModel.PauseTemper

/-!
# Cxsw.CrModel.PrintThread — the print thread and the messages to it (`CrModel/CrPrinter.cpp`)

`CrPrinter::ThreadHandle` reads the print file and puts its commands into the command ring; `PrintCmdMsgHandle` runs in
the main thread, when a message of the screen is there, and `GcodeM24Exec` in the thread that executes commands.  They
share `Status`, `ManualPrintAction`, `StartPrintTime` and `PrintTime`.  A step of the model is one statement of the
print thread or of the handler.  `FileFd` is what is left of the open file (`TEST_DEMO` reads a fixed one).

* `ThreadPc`, `threadStep`: the loop of the print thread, statement by statement.
* `HandlerStmt`, `handlerBody`: the branches of `PrintCmdMsgHandle`.
* `PrintEvent.apply`: the events of an interleaving.
* `iteration`: the thread from the head of the loop to the head of the loop, alone.
-/

namespace Cxsw.Print

open CString Heater

/-! ## The file -/

section File

/-- Whether the loops of `ReadCmdFromFile` meet the end of the file, which they then close; they run as those of
`readLoop`. -/
def meetsEnd : Bool → ℕ → List UInt8 → List UInt8 → Bool
  | false, 0, _, _ => false
  | false, _ + 1, _, [] => true
  | false, maxLen + 1, cmd, byte :: file =>
    if isEnd byte then
      if cmd.length < 1 then meetsEnd false maxLen cmd file else false
    else if isNote byte then meetsEnd true (maxLen + 1) cmd file
    else meetsEnd false maxLen (cmd ++ [byte]) file
  | true, _, _, [] => true
  | true, maxLen, cmd, byte :: file =>
    if byte = ascii '\n' then
      if cmd.length ≥ 2 then false else meetsEnd false maxLen cmd file
    else meetsEnd true maxLen cmd file

/-- `ReadCmdFromFile` with the descriptor: `opens` tells whether `open` succeeds and `fails` whether a `read` reports
an error.  The first component is none for a result of -1, and else the command, which is empty for a result of 0. -/
def readPrintFile (file : List UInt8) (opens fails : Bool) (fileFd : Option (List UInt8)) :
    Option (List UInt8) × Option (List UInt8) :=
  match fileFd <|> if opens then some file else none with
  | none => (some [], none)
  | some rest =>
    if fails then (none, none)
    else if meetsEnd false queueMsgSize [] rest then (some [], none)
    else (some (readCmdFromFile queueMsgSize rest).1, some (readCmdFromFile queueMsgSize rest).2)

end File

/-! ## The code -/

section Defs

/-- `STOP_WAITING_HEATING_CMD`. -/
def stopWaitingHeatingCmd : List UInt8 := text "M108"

/-- The messages that ask for a command of their own. -/
inductive ManualAction
  | pause
  | resume
  | stop
  deriving DecidableEq

/-- `PAUSE_PRINT_CMD`, `RESUME_PRINT_CMD`, `STOP_PRINT_CMD`. -/
def ManualAction.cmd : ManualAction → List UInt8
  | .pause => text "M25"
  | .resume => text "M24"
  | .stop => text "M524"

/-- What `PauseOpt`, `ResumeOpt` and `StopOpt` set. -/
def ManualAction.status : ManualAction → PrintStatus
  | .pause => .pausePrint
  | .resume => .resumePrint
  | .stop => .stopPrint

/-- `CMD_START` and the others. -/
inductive PrintCmd
  | start
  | manual (a : ManualAction)
  deriving DecidableEq

/-- Where a command of the print thread comes from. -/
inductive Source
  | file
  | manual
  | uart
  deriving DecidableEq

/-- The record of a run: a message is taken up by the handler, a command is put into the ring, the file has come to
its end or cannot be read on. -/
inductive LogEntry
  | received (msg : PrintCmd)
  | put (source : Source) (cmd : List UInt8)
  | ended
  deriving DecidableEq

/-- Where the print thread is. -/
inductive ThreadPc
  | testPrinting
  | markStart
  | readCmd
  | readError
  | stopPrint
  | setStopped
  | clearTimes
  | inHand (cmd : List UInt8)
  | setTime
  | testStatus (a : ManualAction)
  | clearQueue
  | testManual (a : ManualAction)
  | putManual (a : ManualAction)
  | finishManual (a : ManualAction)
  | noteParse (a : ManualAction)
  | testTimeOut
  | uart
  deriving DecidableEq

/-- Statements of `PrintCmdMsgHandle`. -/
inductive HandlerStmt
  | addPrintTime
  | setStatus (status : PrintStatus)
  | setStartPrintTime
  | clearStartPrintTime
  | clearPrintTime
  | setManual
  | stopWaiting
  deriving DecidableEq

/-- The branches of `PrintCmdMsgHandle`. -/
def handlerBody : PrintCmd → List HandlerStmt
  | .manual .pause => [.addPrintTime, .setStatus .pausePrint, .setManual, .stopWaiting]
  | .manual .stop => [.setStatus .stopPrint, .clearStartPrintTime, .clearPrintTime, .setManual, .stopWaiting]
  | .manual .resume => [.setStartPrintTime, .setStatus .resumePrint, .setManual, .stopWaiting]
  | .start => [.setStatus .printing, .setStartPrintTime, .clearPrintTime, .stopWaiting]

/-- The printer, with `m` fans, and the threads: the statements of the handler that are left of a message.  The `S32`
times are kept as words, as all arithmetic on them is unsigned.  `waiting` is the flag of `StartWaiting`. -/
structure Printer (n m : ℕ) extends PausedPrinter n where
  manualPrintAction : Bool
  usedTime : ℕ
  fileFd : Option (List UInt8)
  startPrintTime : BitVec 32
  printTime : BitVec 32
  lastCmdParse : ℕ
  keepActive : Bool
  needClearCmdQueue : Bool
  pwmFan : Fin m → ℤ
  waiting : Bool
  pc : ThreadPc
  handler : List HandlerStmt
  log : List LogEntry

/-- What a statement finds: `rt_tick_get()`, `CrGetSystemTimeMilSecs()`, the results of `open` and `read`, and the
verified command of the serial port. -/
structure Env where
  tick : ℕ
  now : ℕ
  opens : Bool
  fails : Bool
  uartCmd : Option (List UInt8)

/-- `KEEP_ACTIVE_TIME`. -/
def keepActiveTime : ℕ := 600000

variable {n m : ℕ}

/-- `PutGcodeCmd`, which returns when the ring has taken the command. -/
def putGcodeCmd (p : Printer n m) (source : Source) (cmd : List UInt8) : Printer n m :=
  { p with log := p.log ++ [.put source cmd] }

attribute [-instance] instNeZeroNatHAdd_1

/-- `StopPrint`. -/
def stopPrint (p : Printer n m) : Printer n m :=
  { p with
    bed := setTarget p.bed 0
    hotEndArr := Function.update p.hotEndArr 0 (setTarget (p.hotEndArr 0) 0)
    usedTime := 0 }

/-- What the time-out turns off; the motors are released as well. -/
def shutOff (p : Printer n m) : Printer n m :=
  { p with
    pwmFan := fun _ => 0
    bed := setTarget p.bed 0
    hotEndArr := fun i => setTarget (p.hotEndArr i) 0
    keepActive := false }

/-- `(rt_tick_get() - StartPrintTime + PrintTime) / 1000`. -/
def elapsedTime (p : Printer n m) (tick : ℕ) : ℕ :=
  (BitVec.ofNat 32 tick - p.startPrintTime + p.printTime).toNat / 1000

/-- The statements of `ThreadHandle`, on the print file `file`. -/
def threadStmt (file : List UInt8) (env : Env) (p : Printer n m) : ThreadPc → Printer n m
  | .testPrinting => { p with pc := if p.status = .printing then .markStart else .testStatus .pause }
  | .markStart =>
    { p with
      startPrintTime := if p.startPrintTime = 0 then BitVec.ofNat 32 env.tick else p.startPrintTime
      needClearCmdQueue := true
      pc := .readCmd }
  | .readCmd =>
    let read := readPrintFile file env.opens env.fails p.fileFd
    match read.1 with
    | none => { p with fileFd := read.2, log := p.log ++ [.ended], pc := .readError }
    | some [] => { p with fileFd := read.2, log := p.log ++ [.ended], pc := .stopPrint }
    | some (c :: cmd) => { p with fileFd := read.2, pc := .inHand (c :: cmd) }
  | .readError => { p with status := .stopPrint, pc := .testTimeOut }
  | .stopPrint => { stopPrint p with pc := .setStopped }
  | .setStopped => { p with status := .stopPrint, pc := .clearTimes }
  | .clearTimes => { p with printTime := 0, startPrintTime := 0, pc := .testTimeOut }
  | .inHand cmd =>
    if cmd = stopWaitingHeatingCmd then { p with waiting := false, pc := .testTimeOut }
    else { putGcodeCmd p .file cmd with pc := .setTime }
  | .setTime =>
    { p with usedTime := elapsedTime p env.tick, keepActive := true, lastCmdParse := env.now, pc := .testTimeOut }
  | .testStatus a =>
    if p.status = a.status then { p with pc := if a = .stop then .clearQueue else .testManual a }
    else
      match a with
      | .pause => { p with pc := .testStatus .resume }
      | .resume => { p with pc := .testStatus .stop }
      | .stop => { p with pc := .testTimeOut }
  | .clearQueue => { p with needClearCmdQueue := false, startPrintTime := 0, printTime := 0, pc := .testManual .stop }
  | .testManual a => { p with pc := if p.manualPrintAction then .putManual a else .testTimeOut }
  | .putManual a => { putGcodeCmd p .manual a.cmd with pc := .finishManual a }
  | .finishManual a => { p with manualPrintAction := false, pc := .noteParse a }
  | .noteParse a =>
    -- the branch of the pause leaves `KeepActive` as it is
    { p with
      lastCmdParse := env.now
      keepActive := if a = .pause then p.keepActive else true
      pc := .testTimeOut }
  | .testTimeOut =>
    { (if p.lastCmdParse + keepActiveTime < env.now ∧ p.keepActive = true then shutOff p else p) with pc := .uart }
  | .uart =>
    match env.uartCmd with
    | none => { p with pc := .testPrinting }
    | some cmd =>
      { putGcodeCmd p .uart cmd with lastCmdParse := env.now, keepActive := true, pc := .testPrinting }

/-- **The next statement of the print thread.** -/
def threadStep (file : List UInt8) (env : Env) (p : Printer n m) : Printer n m := threadStmt file env p p.pc

/-- The statements of `PrintCmdMsgHandle`. -/
def handlerStmt (tick : ℕ) (p : Printer n m) : HandlerStmt → Printer n m
  | .addPrintTime => { p with printTime := p.printTime + (BitVec.ofNat 32 tick - p.startPrintTime) }
  | .setStatus status => { p with status := status }
  | .setStartPrintTime => { p with startPrintTime := BitVec.ofNat 32 tick }
  | .clearStartPrintTime => { p with startPrintTime := 0 }
  | .clearPrintTime => { p with printTime := 0 }
  | .setManual => { p with manualPrintAction := true }
  | .stopWaiting => { p with waiting := false }

/-- The handler takes up a message. -/
def receive (p : Printer n m) (msg : PrintCmd) : Printer n m :=
  { p with handler := handlerBody msg, log := p.log ++ [.received msg] }

/-- The next statement of the handler. -/
def handlerStep (tick : ℕ) (p : Printer n m) : Printer n m :=
  match p.handler with
  | [] => p
  | stmt :: rest => { handlerStmt tick p stmt with handler := rest }

/-- A command of the other threads is executed: M24 or M25. -/
def execCmd (p : Printer n m) (cmd : PauseCmd) : Printer n m :=
  { p with toPausedPrinter := execPauseCmd p.toPausedPrinter cmd }

/-- The events of an interleaving. -/
inductive PrintEvent
  | thread (env : Env)
  | message (msg : PrintCmd)
  | handler (tick : ℕ)
  | exec (cmd : PauseCmd)

/-- The effect of an event, on the print file `file`. -/
def PrintEvent.apply (file : List UInt8) (p : Printer n m) : PrintEvent → Printer n m
  | .thread env => threadStep file env p
  | .message msg => receive p msg
  | .handler tick => handlerStep tick p
  | .exec cmd => execCmd p cmd

/-- A message is taken up when the one before has been handled. -/
def PrintEvent.Enabled (p : Printer n m) : PrintEvent → Prop
  | .message _ => p.handler = []
  | _ => True

instance (p : Printer n m) : (e : PrintEvent) → Decidable (e.Enabled p)
  | .message _ => inferInstanceAs (Decidable (p.handler = []))
  | .thread _ => isTrue trivial
  | .handler _ => isTrue trivial
  | .exec _ => isTrue trivial

/-- The printer after events. -/
def afterPrint (file : List UInt8) (p : Printer n m) (es : List PrintEvent) : Printer n m :=
  es.foldl (PrintEvent.apply file) p

/-- The printer as constructed, with heaters and fans in any state. -/
def constructedPrinter (bed : HeaterManager) (hotEndArr : Fin (n + 1) → HeaterManager) (pwmFan : Fin m → ℤ) :
    Printer n m where
  status := .stopPrint
  bed := bed
  hotEndArr := hotEndArr
  nozzleTemp := 0
  bedTemp := 0
  manualPrintAction := false
  usedTime := 0
  fileFd := none
  startPrintTime := 0
  printTime := 0
  lastCmdParse := 0
  keepActive := false
  needClearCmdQueue := false
  pwmFan := pwmFan
  waiting := false
  pc := .testPrinting
  handler := []
  log := []

/-- The print thread alone, for at most `k` statements, up to the head of the loop. -/
def threadLoop (file : List UInt8) (env : Env) : ℕ → Printer n m → Printer n m
  | 0, p => p
  | k + 1, p => if p.pc = .testPrinting then p else threadLoop file env k (threadStep file env p)

/-- **One iteration** of the loop, at one time and without the other threads; it has at most 11 statements. -/
def iteration (file : List UInt8) (env : Env) (p : Printer n m) : Printer n m :=
  threadLoop file env 10 (threadStep file env p)

/-- `PrintCmdMsgHandle`, without the other threads. -/
def printCmdMsgHandle (tick : ℕ) (p : Printer n m) (msg : PrintCmd) : Printer n m :=
  (handlerBody msg).foldl (handlerStmt tick) p

end Defs

/-! ## One iteration -/

section Iteration

variable {n m : ℕ} {file : List UInt8}

/-- What an iteration does in the branch of `PRINTING`. -/
def printingBranch (file : List UInt8) (env : Env) (p : Printer n m) : Printer n m :=
  let read := readPrintFile file env.opens env.fails p.fileFd
  let q :=
    { p with
      startPrintTime := if p.startPrintTime = 0 then BitVec.ofNat 32 env.tick else p.startPrintTime
      needClearCmdQueue := true
      fileFd := read.2 }
  match read.1 with
  | none => { q with log := q.log ++ [.ended], status := .stopPrint }
  | some [] =>
    { stopPrint q with log := q.log ++ [.ended], status := .stopPrint, printTime := 0, startPrintTime := 0 }
  | some (c :: cmd) =>
    if c :: cmd = stopWaitingHeatingCmd then { q with waiting := false }
    else
      { putGcodeCmd q .file (c :: cmd) with
        usedTime := elapsedTime q env.tick
        keepActive := true
        lastCmdParse := env.now }

/-- What it does where the flag is tested: the branch of `a`. -/
def manualBranch (env : Env) (a : ManualAction) (p : Printer n m) : Printer n m :=
  if p.manualPrintAction then
    { putGcodeCmd p .manual a.cmd with
      manualPrintAction := false
      lastCmdParse := env.now
      keepActive := if a = .pause then p.keepActive else true }
  else p

/-- What it does up to the test for the time-out. -/
def branchPart (file : List UInt8) (env : Env) (p : Printer n m) : Printer n m :=
  match p.status with
  | .printing => printingBranch file env p
  | .pausePrint => manualBranch env .pause p
  | .resumePrint => manualBranch env .resume p
  | .stopPrint => manualBranch env .stop { p with needClearCmdQueue := false, startPrintTime := 0, printTime := 0 }

/-- The test for the time-out. -/
def timeOutPart (env : Env) (p : Printer n m) : Printer n m :=
  if p.lastCmdParse + keepActiveTime < env.now ∧ p.keepActive = true then shutOff p else p

/-- The serial port. -/
def uartPart (env : Env) (p : Printer n m) : Printer n m :=
  match env.uartCmd with
  | none => p
  | some cmd => { putGcodeCmd p .uart cmd with lastCmdParse := env.now, keepActive := true }

/-- The statement that tests for the time-out.  It is rewritten as a whole: a comparison of its fields one by one would
compute with the milliseconds of `keepActiveTime`. -/
theorem threadStmt_testTimeOut (file : List UInt8) (env : Env) (p : Printer n m) :
    threadStmt file env p .testTimeOut = { timeOutPart env p with pc := .uart } := by
  simp only [threadStmt, timeOutPart]

theorem threadStmt_uart (file : List UInt8) (env : Env) (p : Printer n m) :
    threadStmt file env p .uart = { uartPart env p with pc := .testPrinting } := by
  simp only [threadStmt]
  rcases hu : env.uartCmd with _ | cmd <;> simp [uartPart, hu, putGcodeCmd]

theorem timeOutPart_cases (env : Env) (p : Printer n m) : timeOutPart env p = p ∨ timeOutPart env p = shutOff p := by
  unfold timeOutPart
  split_ifs <;> simp

theorem threadLoop_succ (env : Env) (k : ℕ) (p : Printer n m) (h : p.pc ≠ .testPrinting) :
    threadLoop file env (k + 1) p = threadLoop file env k (threadStep file env p) := if_neg h

theorem threadLoop_done (env : Env) (k : ℕ) (p : Printer n m) (h : p.pc = .testPrinting) :
    threadLoop file env k p = p := by
  rcases k with _ | k
  · rfl
  · exact if_pos h

theorem threadLoop_timeOut (env : Env) {k : ℕ} (hk : 2 ≤ k) (p : Printer n m) (h : p.pc = .testTimeOut) :
    threadLoop file env k p = { uartPart env (timeOutPart env p) with pc := .testPrinting } := by
  obtain ⟨k, rfl⟩ := Nat.exists_eq_add_of_le' hk
  rw [threadLoop_succ env _ p (by simp [h])]
  have hstep : threadStep file env p = { timeOutPart env p with pc := .uart } := by
    rw [threadStep, h, threadStmt_testTimeOut]
  have hpc : ∀ q : Printer n m, uartPart env { q with pc := .uart } = { uartPart env q with pc := .uart } := by
    intro q
    unfold uartPart
    rcases env.uartCmd with _ | cmd <;> simp [putGcodeCmd]
  rw [hstep, threadLoop_succ env _ _ (by simp), threadStep, threadStmt_uart, hpc]
  exact threadLoop_done env _ _ rfl

/-- The place does not matter for what is behind the branches. -/
theorem ending_pc (env : Env) (p : Printer n m) (pc : ThreadPc) :
    ({ uartPart env (timeOutPart env { p with pc := pc }) with pc := .testPrinting } : Printer n m) =
      { uartPart env (timeOutPart env p) with pc := .testPrinting } := by
  unfold timeOutPart
  dsimp only
  split_ifs <;> rcases hu : env.uartCmd with _ | cmd <;> simp [uartPart, hu, shutOff, putGcodeCmd]

/-- The end of an iteration whose branch has come to `q`. -/
theorem threadLoop_ending (env : Env) {k : ℕ} (hk : 2 ≤ k) {p q : Printer n m} (h : p.pc = .testTimeOut)
    (hq : ({ p with pc := .testPrinting } : Printer n m) = { q with pc := .testPrinting }) :
    threadLoop file env k p = { uartPart env (timeOutPart env q) with pc := .testPrinting } := by
  rw [threadLoop_timeOut env hk p h, ← ending_pc env p .testPrinting, hq, ending_pc]

theorem threadLoop_manual (env : Env) {k : ℕ} (hk : 6 ≤ k) (a : ManualAction) {p q : Printer n m}
    (h : p.pc = .testManual a) (hq : ({ p with pc := .testPrinting } : Printer n m) = { q with pc := .testPrinting }) :
    threadLoop file env k p = { uartPart env (timeOutPart env (manualBranch env a q)) with pc := .testPrinting } := by
  have hbranch : ({ manualBranch env a p with pc := .testPrinting } : Printer n m) =
      { manualBranch env a q with pc := .testPrinting } := by
    have hpq : manualBranch env a { p with pc := .testPrinting } =
        manualBranch env a { q with pc := .testPrinting } := by
      rw [hq]
    unfold manualBranch putGcodeCmd at hpq ⊢
    dsimp only at hpq ⊢
    split_ifs at hpq ⊢ <;> simp_all
  obtain ⟨k, rfl⟩ := Nat.exists_eq_add_of_le' hk
  rw [threadLoop_succ env _ p (by simp [h])]
  simp only [threadStep, h, threadStmt]
  by_cases hm : p.manualPrintAction = true
  · rw [if_pos hm, threadLoop_succ env _ _ (by simp), threadLoop_succ env _ _ (by simp [threadStep, threadStmt]),
      threadLoop_succ env _ _ (by simp [threadStep, threadStmt])]
    refine threadLoop_ending env (by omega) rfl ?_
    rw [← hbranch, manualBranch, if_pos hm]
    rfl
  · rw [if_neg hm]
    refine threadLoop_ending env (by omega) rfl ?_
    rw [← hbranch, manualBranch, if_neg hm]

/-- **An iteration** is its branch, the test for the time-out and the serial port. -/
theorem iteration_eq (env : Env) (p : Printer n m) (h : p.pc = .testPrinting) :
    iteration file env p =
      { uartPart env (timeOutPart env (branchPart file env p)) with pc := .testPrinting } := by
  unfold iteration branchPart
  simp only [threadStep, h, threadStmt]
  rcases hst : p.status with _ | _ | _ | _
  case stopPrint =>
    rw [if_neg (by simp), threadLoop_succ env _ _ (by simp)]
    simp only [threadStep, threadStmt, hst, ManualAction.status, reduceCtorEq, if_false]
    rw [threadLoop_succ env _ _ (by simp)]
    simp only [threadStep, threadStmt, hst, ManualAction.status, reduceCtorEq, if_false]
    rw [threadLoop_succ env _ _ (by simp)]
    simp only [threadStep, threadStmt, hst, ManualAction.status, if_true]
    rw [threadLoop_succ env _ _ (by simp)]
    exact threadLoop_manual env (by omega) .stop rfl rfl
  case pausePrint =>
    rw [if_neg (by simp), threadLoop_succ env _ _ (by simp)]
    simp only [threadStep, threadStmt, hst, ManualAction.status, if_true, reduceCtorEq, if_false]
    exact threadLoop_manual env (by omega) .pause rfl rfl
  case resumePrint =>
    rw [if_neg (by simp), threadLoop_succ env _ _ (by simp)]
    simp only [threadStep, threadStmt, hst, ManualAction.status, reduceCtorEq, if_false]
    rw [threadLoop_succ env _ _ (by simp)]
    simp only [threadStep, threadStmt, hst, ManualAction.status, if_true, reduceCtorEq, if_false]
    exact threadLoop_manual env (by omega) .resume rfl rfl
  case printing =>
    rw [if_pos rfl, threadLoop_succ env _ _ (by simp), threadLoop_succ env _ _ (by simp [threadStep, threadStmt])]
    simp only [threadStep, threadStmt, printingBranch]
    rcases hread : (readPrintFile file env.opens env.fails p.fileFd).1 with _ | _ | ⟨c, cmd⟩
    · rw [threadLoop_succ env _ _ (by simp)]
      exact threadLoop_ending env (by omega) rfl rfl
    · rw [threadLoop_succ env _ _ (by simp), threadLoop_succ env _ _ (by simp [threadStep, threadStmt]),
        threadLoop_succ env _ _ (by simp [threadStep, threadStmt])]
      exact threadLoop_ending env (by omega) rfl rfl
    · rw [threadLoop_succ env _ _ (by simp)]
      simp only [threadStep, threadStmt]
      by_cases hm : c :: cmd = stopWaitingHeatingCmd
      · rw [if_pos hm, if_pos hm]
        exact threadLoop_ending env (by omega) rfl rfl
      · rw [if_neg hm, if_neg hm, threadLoop_succ env _ _ (by simp)]
        exact threadLoop_ending env (by omega) rfl rfl

end Iteration

end Cxsw.Print
