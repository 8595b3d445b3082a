import Mathlib.Data.BitVec
import Mathlib.Tactic.Ring
import Cxsw.Lib.Run
import Cxsw.CrModel.PrintThread

/-!
# Cxsw.CrModel.PrintTime — the print time (`CrModel/CrPrinter.cpp`)

The time of a print is kept in two words: `PrintTime` is what earlier stretches of it have taken, and `StartPrintTime`
the tick at which the present one has begun, or zero when none has.  The handler and the print thread change them on
every message, whatever the status is.  Messages and iterations are at times here, and a ghost counts the ticks in the
status `PRINTING`.

* `Clocked`: the printer, the clock and the count.
* `TimeInv`: what the two words are in each status.
* `TimeInv.apply`: every event keeps that, if it counts nothing twice (`CountsOnce`).
* `print_time`: so every time that is stored is the count in seconds.
* `pause_twice`: a pause that is repeated.
-/

namespace Cxsw.Print

open CString

/-! ## Events at times -/

section Defs

variable {n m : ℕ}

/-- A message is handled, the print thread makes an iteration, or M24 or M25 is executed. -/
inductive TimedEvent
  | message (msg : PrintCmd) (tick : ℕ)
  | iteration (env : Env)
  | exec (cmd : PauseCmd) (tick : ℕ)

/-- When an event is. -/
def TimedEvent.tick : TimedEvent → ℕ
  | .message _ tick => tick
  | .iteration env => env.tick
  | .exec _ tick => tick

/-- The effect of an event. -/
def TimedEvent.apply (file : List UInt8) (p : Printer n m) : TimedEvent → Printer n m
  | .message msg tick => printCmdMsgHandle tick p msg
  | .iteration env => Print.iteration file env p
  | .exec cmd _ => execCmd p cmd

/-- The printer, the time of the last event, and the ticks in the status `PRINTING` since the last start. -/
structure Clocked (n m : ℕ) where
  printer : Printer n m
  tick : ℕ
  printed : ℕ

/-- Time passes. -/
def Clocked.pass (c : Clocked n m) (tick : ℕ) : Clocked n m :=
  { c with tick := tick, printed := c.printed + if c.printer.status = .printing then tick - c.tick else 0 }

/-- A new print starts from zero. -/
def Clocked.apply (file : List UInt8) (c : Clocked n m) (e : TimedEvent) : Clocked n m :=
  let c := c.pass e.tick
  { c with
    printer := e.apply file c.printer
    printed :=
      match e with
      | .message .start _ => 0
      | _ => c.printed }

/-- An iteration reads a command to put, and so calls `SetPrintTime`. -/
def StoresTime (file : List UInt8) (env : Env) (p : Printer n m) : Prop :=
  p.status = .printing ∧ ((readPrintFile file env.opens env.fails p.fileFd).1.getD []) ≠ [] ∧
    ((readPrintFile file env.opens env.fails p.fileFd).1.getD []) ≠ stopWaitingHeatingCmd

/-- **The time that is stored** is the time printed, in seconds. -/
def TimeStored (file : List UInt8) (c : Clocked n m) : TimedEvent → Prop
  | .iteration env => StoresTime file env c.printer →
      (c.apply file (.iteration env)).printer.usedTime = (c.pass env.tick).printed / 1000
  | _ => True

/-- The present stretch begins now. -/
def BeginsAt (p : Printer n m) (tick : ℕ) : Prop := p.status ≠ .stopPrint ∧ p.startPrintTime = BitVec.ofNat 32 tick

/-- **An event that counts nothing twice**, and leaves out nothing: a start and a resume are at a tick that is not the
mark of a print that is not begun; a pause comes while printing, a resume while paused or resuming, and M24 at the tick
of the resume, unless it finds the print going on; and a time that is stored fits into a word. -/
def CountsOnce (file : List UInt8) (c : Clocked n m) : TimedEvent → Prop
  | .message .start tick => BitVec.ofNat 32 tick ≠ 0
  | .message (.manual .pause) tick => c.printer.status = .printing ∨ BeginsAt c.printer tick
  | .message (.manual .resume) tick => BitVec.ofNat 32 tick ≠ 0 ∧
      (c.printer.status = .pausePrint ∨ c.printer.status = .resumePrint ∨ BeginsAt c.printer tick)
  | .message (.manual .stop) _ => True
  | .iteration env => StoresTime file env c.printer → (c.pass env.tick).printed < 2 ^ 32
  | .exec .m24 tick => c.printer.status = .printing ∨ BeginsAt c.printer tick
  | .exec .m25 _ => True

instance (file : List UInt8) (env : Env) (p : Printer n m) : Decidable (StoresTime file env p) :=
  inferInstanceAs (Decidable (_ ∧ _ ∧ _))

instance (p : Printer n m) (tick : ℕ) : Decidable (BeginsAt p tick) := inferInstanceAs (Decidable (_ ∧ _))

instance (file : List UInt8) (c : Clocked n m) : (e : TimedEvent) → Decidable (TimeStored file c e)
  | .iteration _ => inferInstanceAs (Decidable (_ → _))
  | .message _ _ => isTrue trivial
  | .exec _ _ => isTrue trivial

instance (file : List UInt8) (c : Clocked n m) : (e : TimedEvent) → Decidable (CountsOnce file c e)
  | .message .start _ => inferInstanceAs (Decidable (_ ≠ _))
  | .message (.manual .pause) _ => inferInstanceAs (Decidable (_ ∨ _))
  | .message (.manual .resume) _ => inferInstanceAs (Decidable (_ ∧ _))
  | .message (.manual .stop) _ => isTrue trivial
  | .iteration _ => inferInstanceAs (Decidable (_ → _))
  | .exec .m24 _ => inferInstanceAs (Decidable (_ ∨ _))
  | .exec .m25 _ => isTrue trivial

end Defs

/-! ## What an iteration does to the times -/

section Iteration

variable {n m : ℕ} {file : List UInt8}

theorem iteration_times (file : List UInt8) (env : Env) {p : Printer n m} (h : p.pc = .testPrinting) :
    (iteration file env p).pc = .testPrinting ∧ (iteration file env p).status = (branchPart file env p).status ∧
      (iteration file env p).startPrintTime = (branchPart file env p).startPrintTime ∧
      (iteration file env p).printTime = (branchPart file env p).printTime ∧
      (iteration file env p).usedTime = (branchPart file env p).usedTime := by
  rw [iteration_eq env p h]
  generalize branchPart file env p = q
  unfold timeOutPart
  split_ifs <;> rcases hu : env.uartCmd with _ | cmd <;> simp [uartPart, hu, shutOff, putGcodeCmd]

/-- **What an iteration does to the times**: outside of a print it leaves them, or resets them; in a print that has
begun it leaves them as well, unless the print ends, and stores what has elapsed. -/
theorem branchPart_times (file : List UInt8) (env : Env) {p : Printer n m}
    (hbegun : p.status = .printing → p.startPrintTime ≠ 0) :
    ((branchPart file env p).status = .stopPrint ∨
        (branchPart file env p).status = p.status ∧
          (branchPart file env p).startPrintTime = p.startPrintTime ∧
          (branchPart file env p).printTime = p.printTime) ∧
      (StoresTime file env p → (branchPart file env p).usedTime = elapsedTime p env.tick) := by
  unfold branchPart StoresTime
  rcases hst : p.status with _ | _ | _ | _
  case printing =>
    have hbegun' := hbegun hst
    simp only [printingBranch, if_neg hbegun']
    rcases hread : (readPrintFile file env.opens env.fails p.fileFd).1 with _ | _ | ⟨c, cmd⟩
    · simp
    · simp
    · simp only [Option.getD_some]
      split_ifs with hm
      · simp [hst, hm]
      · simp [hst, putGcodeCmd, elapsedTime]
  all_goals
    unfold manualBranch
    dsimp only
    split_ifs <;> simp [hst, putGcodeCmd]

end Iteration

/-! ## The invariant -/

section Inv

variable {n m : ℕ} {file : List UInt8}

/-- **What the two words are**: unless the print is stopped it has begun; while printing, both together are the time
printed, and while it is paused or resuming, the first one is. -/
structure TimeInv (c : Clocked n m) : Prop where
  pc : c.printer.pc = .testPrinting
  begun : c.printer.status ≠ .stopPrint → c.printer.startPrintTime ≠ 0
  printing : c.printer.status = .printing →
    c.printer.printTime + (BitVec.ofNat 32 c.tick - c.printer.startPrintTime) = BitVec.ofNat 32 c.printed
  waiting : c.printer.status = .pausePrint ∨ c.printer.status = .resumePrint →
    c.printer.printTime = BitVec.ofNat 32 c.printed

theorem TimeInv.pass {c : Clocked n m} (h : TimeInv c) {tick : ℕ} (ht : c.tick ≤ tick) : TimeInv (c.pass tick) := by
  refine ⟨h.pc, h.begun, ?_, ?_⟩
  · intro (hst : c.printer.status = .printing)
    have hp := h.printing hst
    obtain ⟨d, rfl⟩ := Nat.exists_eq_add_of_le ht
    show c.printer.printTime + (BitVec.ofNat 32 (c.tick + d) - c.printer.startPrintTime) =
      BitVec.ofNat 32 (c.printed + if c.printer.status = .printing then c.tick + d - c.tick else 0)
    rw [if_pos hst, Nat.add_sub_cancel_left, BitVec.ofNat_add, BitVec.ofNat_add, ← hp]
    ring
  · intro (hst : c.printer.status = .pausePrint ∨ c.printer.status = .resumePrint)
    have hne : c.printer.status ≠ .printing := by
      intro h0
      simp [h0] at hst
    show c.printer.printTime = BitVec.ofNat 32 (c.printed + if c.printer.status = .printing then tick - c.tick else 0)
    rw [if_neg hne, Nat.add_zero]
    exact h.waiting hst

theorem TimeInv.beginsAt {c : Clocked n m} (h : TimeInv c) {tick : ℕ} (htick : c.tick = tick)
    (hb : BeginsAt c.printer tick) : c.printer.printTime = BitVec.ofNat 32 c.printed := by
  obtain ⟨hne, hstart⟩ := hb
  rcases hst : c.printer.status with _ | _ | _ | _
  · exact absurd hst hne
  · have hp := h.printing hst
    rw [hstart, htick] at hp
    simpa using hp
  · exact h.waiting (Or.inl hst)
  · exact h.waiting (Or.inr hst)

theorem TimeInv.begun_of {c : Clocked n m} (h : TimeInv c) {tick : ℕ}
    (hok : c.printer.status = .printing ∨ BeginsAt c.printer tick) : c.printer.startPrintTime ≠ 0 := by
  rcases hok with hst | ⟨hne, -⟩
  · exact h.begun (by simp [hst])
  · exact h.begun hne

theorem TimeInv.counted {c : Clocked n m} (h : TimeInv c) {tick : ℕ} (ht : c.tick ≤ tick)
    (hok : c.printer.status = .printing ∨ BeginsAt c.printer tick) :
    c.printer.printTime + (BitVec.ofNat 32 tick - c.printer.startPrintTime) =
      BitVec.ofNat 32 (c.pass tick).printed := by
  have hp := h.pass ht
  rcases hok with hst | hb
  · exact hp.printing hst
  · rw [hb.2, sub_self, add_zero]
    exact hp.beginsAt rfl hb

/-- **Every event keeps the invariant**, if it counts nothing twice, and an iteration stores the time printed. -/
theorem TimeInv.apply {c : Clocked n m} (h : TimeInv c) {e : TimedEvent} (ht : c.tick ≤ e.tick)
    (hok : CountsOnce file c e) : TimeInv (c.apply file e) ∧ TimeStored file c e := by
  have hp := h.pass ht
  rcases e with ⟨_ | _ | _ | _, tick⟩ | env | ⟨_ | _, tick⟩
  · -- a start
    refine ⟨⟨hp.pc, fun _ => hok, fun _ => ?_, by simp [Clocked.apply, TimedEvent.apply, printCmdMsgHandle,
      handlerBody, handlerStmt]⟩, trivial⟩
    show (0 : BitVec 32) + (BitVec.ofNat 32 tick - BitVec.ofNat 32 tick) = BitVec.ofNat 32 0
    simp
  · -- a pause
    refine ⟨⟨hp.pc, fun _ => h.begun_of hok, fun hst => ?_, fun _ => h.counted ht hok⟩, trivial⟩
    cases hst
  · -- a resume
    refine ⟨⟨hp.pc, fun _ => hok.1, fun hst => ?_, fun _ => ?_⟩, trivial⟩
    · cases hst
    · show c.printer.printTime = BitVec.ofNat 32 (c.pass tick).printed
      rcases hok.2 with hst | hst | hb
      · exact hp.waiting (Or.inl hst)
      · exact hp.waiting (Or.inr hst)
      · exact hp.beginsAt rfl hb
  · -- a stop
    refine ⟨⟨hp.pc, fun hst => ?_, fun hst => ?_, fun hst => ?_⟩, trivial⟩
    · exact absurd rfl hst
    · cases hst
    · simp [Clocked.apply, TimedEvent.apply, printCmdMsgHandle, handlerBody, handlerStmt] at hst
  · -- an iteration
    obtain ⟨hpc, hstatus, hstart, hprint, hused⟩ := iteration_times file env h.pc
    obtain ⟨hbranch, hstores⟩ := branchPart_times file env (p := c.printer)
      fun hst => h.begun (by simp [hst])
    have htimes : (iteration file env c.printer).status = .stopPrint ∨
        (iteration file env c.printer).status = c.printer.status ∧
          (iteration file env c.printer).startPrintTime = c.printer.startPrintTime ∧
          (iteration file env c.printer).printTime = c.printer.printTime := by
      rw [hstatus, hstart, hprint]
      exact hbranch
    refine ⟨⟨hpc, ?_, ?_, ?_⟩, ?_⟩
    · intro (hne : (iteration file env c.printer).status ≠ .stopPrint)
      obtain ⟨h1, h2, -⟩ := htimes.resolve_left hne
      show (iteration file env c.printer).startPrintTime ≠ 0
      rw [h2]
      exact h.begun (h1 ▸ hne)
    · intro (hst : (iteration file env c.printer).status = .printing)
      obtain ⟨h1, h2, h3⟩ := htimes.resolve_left (by simp [hst])
      show (iteration file env c.printer).printTime +
        (BitVec.ofNat 32 env.tick - (iteration file env c.printer).startPrintTime) = _
      rw [h2, h3]
      exact hp.printing (h1 ▸ hst)
    · intro (hst : (iteration file env c.printer).status = .pausePrint ∨
        (iteration file env c.printer).status = .resumePrint)
      obtain ⟨h1, -, h3⟩ := htimes.resolve_left (by rcases hst with hst | hst <;> simp [hst])
      show (iteration file env c.printer).printTime = _
      rw [h3]
      exact hp.waiting (h1 ▸ hst)
    · intro hs
      have hfits := hok hs
      have hprinting : c.printer.printTime + (BitVec.ofNat 32 env.tick - c.printer.startPrintTime) =
          BitVec.ofNat 32 (c.pass env.tick).printed := hp.printing hs.1
      show (iteration file env c.printer).usedTime = (c.pass env.tick).printed / 1000
      rw [hused, hstores hs, elapsedTime, add_comm, hprinting, BitVec.toNat_ofNat, Nat.mod_eq_of_lt hfits]
  · -- M24
    refine ⟨⟨hp.pc, fun _ => h.begun_of hok, fun _ => h.counted ht hok, fun hst => ?_⟩, trivial⟩
    have hst' : (execCmd c.printer .m24).status = .pausePrint ∨ (execCmd c.printer .m24).status = .resumePrint := hst
    have hprinting : (execCmd c.printer .m24).status = .printing := by
      simp only [execCmd, execPauseCmd, waitTemperatureRecover, resumeHandle]
      split_ifs <;> rfl
    simp [hprinting] at hst'
  · exact ⟨⟨hp.pc, hp.begun, hp.printing, hp.waiting⟩, trivial⟩

end Inv

/-! ## Runs -/

section TimedRuns

variable {n m : ℕ}

/-- The printer as constructed, at time zero. -/
def constructedClock (bed : Heater.HeaterManager) (hotEndArr : Fin (n + 1) → Heater.HeaterManager)
    (pwmFan : Fin m → ℤ) : Clocked n m := ⟨constructedPrinter bed hotEndArr pwmFan, 0, 0⟩

theorem constructedClock_timeInv (bed : Heater.HeaterManager) (hotEndArr : Fin (n + 1) → Heater.HeaterManager)
    (pwmFan : Fin m → ℤ) : TimeInv (constructedClock bed hotEndArr pwmFan) := by
  refine ⟨rfl, ?_, ?_, ?_⟩
  · intro h
    exact absurd rfl h
  · intro h
    simp [constructedClock, constructedPrinter] at h
  · intro h
    simp [constructedClock, constructedPrinter] at h

/-- **Every time that is stored is the time printed**, in every run of which no event counts anything twice. -/
theorem print_time (file : List UInt8) (bed : Heater.HeaterManager) (hotEndArr : Fin (n + 1) → Heater.HeaterManager)
    (pwmFan : Fin m → ℤ) (es : List TimedEvent)
    (h : AllSteps (Clocked.apply file) (fun c e => c.tick ≤ e.tick ∧ CountsOnce file c e)
      (constructedClock bed hotEndArr pwmFan) es) :
    AllSteps (Clocked.apply file) (TimeStored file) (constructedClock bed hotEndArr pwmFan) es :=
  AllSteps.of_invariant (fun _ _ hinv hok => hinv.apply hok.1 hok.2)
    (constructedClock_timeInv bed hotEndArr pwmFan) h

/-- An iteration at a tick. -/
def iterationAt (tick : ℕ) : TimedEvent := .iteration ⟨tick, tick, true, false, none⟩

/-- A print that is paused for five seconds. -/
def pausedPrint : List TimedEvent :=
  [.message .start 1000, iterationAt 3500, .message (.manual .pause) 4000, iterationAt 4000, .exec .m25 4000,
    .message (.manual .resume) 9000, iterationAt 9000, .exec .m24 9000, iterationAt 9600]

/-- A print of three commands, with a hot end and a fan, that has not begun. -/
def coldClock : Clocked 0 1 :=
  constructedClock (Heater.constructed 0 .idle ⟨0, 0⟩ 0 0) (fun _ => Heater.constructed 0 .idle ⟨0, 0⟩ 0 0) fun _ => 0

theorem print_time_paused :
    (pausedPrint.foldl (Clocked.apply (text "G28\nG1 X1\nG1 X2\n")) coldClock).printer.usedTime = 3 ∧
      AllSteps (Clocked.apply (text "G28\nG1 X1\nG1 X2\n")) (TimeStored (text "G28\nG1 X1\nG1 X2\n"))
        coldClock pausedPrint :=
  ⟨by decide +kernel, print_time _ _ _ _ pausedPrint (by decide +kernel)⟩

/-- A print that is paused twice. -/
def pausedTwice : List TimedEvent :=
  [.message .start 1000, .message (.manual .pause) 2000, .message (.manual .pause) 3000,
    .message (.manual .resume) 4000, .exec .m24 4000, iterationAt 4000]

/-- **A pause that is repeated counts twice**, and the pause itself is counted: three seconds are stored for one. -/
theorem pause_twice :
    AllSteps (Clocked.apply (text "G28\nG1 X1\n")) (fun c e => c.tick ≤ e.tick) coldClock pausedTwice ∧
      (pausedTwice.foldl (Clocked.apply (text "G28\nG1 X1\n")) coldClock).printer.usedTime = 3 ∧
      (pausedTwice.foldl (Clocked.apply (text "G28\nG1 X1\n")) coldClock).printed = 1000 ∧
      ¬ AllSteps (Clocked.apply (text "G28\nG1 X1\n")) (TimeStored (text "G28\nG1 X1\n")) coldClock pausedTwice :=
  ⟨by decide +kernel, by decide +kernel, by decide +kernel, by decide +kernel⟩

end TimedRuns

end Cxsw.Print
