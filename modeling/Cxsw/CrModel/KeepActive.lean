import Cxsw.CrModel.PrintTime

/-!
# Cxsw.CrModel.KeepActive — the shut-off of an idle printer (`CrModel/CrPrinter.cpp`)

An iteration of the print thread turns heaters, fans and motors off when `KeepActiveTime` has passed since
`LastCmdParse`, once: `KeepActive` tells that a command has been put since the last time.  Only commands set the two.
The screen sets the target of a heater by a message to its manager, and commands set targets when they are executed,
some time after they were put.

* `Watched`: the printer, with the times of the last activity and of the last change of each target.
* `KeepOk`: what is asked of an iteration.
* `KeepInv.apply`: what every event keeps, if targets change only while the shut-off is armed (`Watchful`).
* `keep_active`: so every iteration of such a run does what is asked of it.
* `heater_left_on`: a heater set on the screen stays on for ever, and one set after an old command is turned off early.
-/

namespace Cxsw.Print

open CString Heater

/-! ## Heaters, activity and targets -/

section Defs

variable {n m : ℕ}

/-- The bed and the hot ends. -/
inductive HeaterId (n : ℕ)
  | bed
  | hotEnd (i : Fin (n + 1))
  deriving DecidableEq

instance decidableForallHeater {n : ℕ} (q : HeaterId n → Prop) [∀ id, Decidable (q id)] : Decidable (∀ id, q id) :=
  decidable_of_iff (q .bed ∧ ∀ i, q (.hotEnd i))
    ⟨fun h id => match id with
      | .bed => h.1
      | .hotEnd i => h.2 i, fun h => ⟨h .bed, fun i => h (.hotEnd i)⟩⟩

/-- The manager of a heater. -/
def Printer.heater (p : Printer n m) : HeaterId n → HeaterManager
  | .bed => p.bed
  | .hotEnd i => p.hotEndArr i

/-- The printer with another state of that manager. -/
def Printer.withHeater (p : Printer n m) : HeaterId n → HeaterManager → Printer n m
  | .bed, h => { p with bed := h }
  | .hotEnd i, h => { p with hotEndArr := Function.update p.hotEndArr i h }

/-- An iteration of the print thread; a message of the screen about the print, or one with a target; and what commands
do when they are executed: set a target, set a fan, M24 and M25, and `StopHandle`. -/
inductive KeepEvent (n m : ℕ)
  | iteration (env : Env)
  | message (msg : PrintCmd) (tick now : ℕ)
  | temperMsg (id : HeaterId n) (t : ℚ) (now : ℕ)
  | target (id : HeaterId n) (t : ℚ) (now : ℕ)
  | fan (i : Fin m) (duty : ℤ) (now : ℕ)
  | exec (cmd : PauseCmd) (now : ℕ)
  | stopHandle (now : ℕ)

/-- When an event is, in milliseconds. -/
def KeepEvent.now : KeepEvent n m → ℕ
  | .iteration env => env.now
  | .message _ _ now => now
  | .temperMsg _ _ now => now
  | .target _ _ now => now
  | .fan _ _ now => now
  | .exec _ now => now
  | .stopHandle now => now

/-- The effect of an event. -/
def KeepEvent.apply (file : List UInt8) (p : Printer n m) : KeepEvent n m → Printer n m
  | .iteration env => Print.iteration file env p
  | .message msg tick _ => printCmdMsgHandle tick p msg
  | .temperMsg id t _ => p.withHeater id (handleTemperMsg (p.heater id) (some t))
  | .target id t _ => p.withHeater id (setTarget (p.heater id) t)
  | .fan i duty _ => { p with pwmFan := Function.update p.pwmFan i duty }
  | .exec cmd _ => execCmd p cmd
  | .stopHandle _ => stopPrint p

/-- An iteration puts a command of the file or of a message before it tests for the time-out. -/
def PutsCmd (file : List UInt8) (env : Env) (p : Printer n m) : Prop :=
  StoresTime file env p ∨ p.status ≠ .printing ∧ p.manualPrintAction = true

/-- An iteration comes to the end of the print. -/
def EndsPrint (file : List UInt8) (env : Env) (p : Printer n m) : Prop :=
  p.status = .printing ∧ (readPrintFile file env.opens env.fails p.fileFd).1 = some []

instance (file : List UInt8) (env : Env) (p : Printer n m) : Decidable (PutsCmd file env p) :=
  inferInstanceAs (Decidable (_ ∨ _))

instance (file : List UInt8) (env : Env) (p : Printer n m) : Decidable (EndsPrint file env p) :=
  inferInstanceAs (Decidable (_ ∧ _))

/-- The printer, with the times of the last event, of the last command that was put or target that the screen has set,
and of the last change of each target. -/
structure Watched (n m : ℕ) where
  printer : Printer n m
  now : ℕ
  lastActivity : ℕ
  targetSet : HeaterId n → ℕ

attribute [-instance] instNeZeroNatHAdd_1

/-- The heaters whose targets an event sets. -/
def KeepEvent.Sets : KeepEvent n m → HeaterId n → Prop
  | .temperMsg id _ _, id' => id' = id
  | .target id _ _, id' => id' = id
  | .exec _ _, id' => id' = .bed ∨ id' = .hotEnd 0
  | _, _ => False

instance : (e : KeepEvent n m) → (id : HeaterId n) → Decidable (e.Sets id)
  | .temperMsg id _ _, id' => inferInstanceAs (Decidable (id' = id))
  | .target id _ _, id' => inferInstanceAs (Decidable (id' = id))
  | .exec _ _, id' => inferInstanceAs (Decidable (id' = .bed ∨ id' = .hotEnd 0))
  | .iteration _, _ => isFalse id
  | .message _ _ _, _ => isFalse id
  | .fan _ _ _, _ => isFalse id
  | .stopHandle _, _ => isFalse id

/-- A command that is put, and a target of the screen. -/
def KeepEvent.IsActivity (file : List UInt8) (p : Printer n m) : KeepEvent n m → Prop
  | .iteration env => PutsCmd file env p ∨ env.uartCmd.isSome
  | .temperMsg _ _ _ => True
  | _ => False

instance (file : List UInt8) (p : Printer n m) : (e : KeepEvent n m) → Decidable (e.IsActivity file p)
  | .iteration _ => inferInstanceAs (Decidable (_ ∨ _))
  | .temperMsg _ _ _ => isTrue trivial
  | .message _ _ _ => isFalse id
  | .target _ _ _ => isFalse id
  | .fan _ _ _ => isFalse id
  | .exec _ _ => isFalse id
  | .stopHandle _ => isFalse id

/-- The effect of an event, with the times. -/
def Watched.apply (file : List UInt8) (c : Watched n m) (e : KeepEvent n m) : Watched n m where
  printer := e.apply file c.printer
  now := e.now
  lastActivity := if e.IsActivity file c.printer then e.now else c.lastActivity
  targetSet := fun id => if e.Sets id then e.now else c.targetSet id

/-- All heaters and fans are off. -/
def AllOff (p : Printer n m) : Prop := (∀ id, (p.heater id).targetTemper = 0) ∧ ∀ i, p.pwmFan i = 0

/-- **What is asked of an iteration**: when more than `KeepActiveTime` has passed since the last activity, and it puts
no command itself, it leaves all heaters and fans off; and it turns no heater off whose target has been set less than
`KeepActiveTime` ago. -/
def KeepOk (file : List UInt8) (c : Watched n m) : KeepEvent n m → Prop
  | .iteration env =>
    (¬ PutsCmd file env c.printer → c.lastActivity + keepActiveTime < env.now →
        AllOff (iteration file env c.printer)) ∧
      ∀ id, (c.printer.heater id).targetTemper ≠ 0 → ((iteration file env c.printer).heater id).targetTemper = 0 →
        c.targetSet id + keepActiveTime ≤ env.now
  | _ => True

/-- **An event that the shut-off watches**: a target or a fan is turned on while the shut-off is armed; no target is
newer than the last command when the time-out has passed; and a print ends when the targets are old. -/
def Watchful (file : List UInt8) (c : Watched n m) : KeepEvent n m → Prop
  | .iteration env =>
    (¬ PutsCmd file env c.printer → c.printer.lastCmdParse + keepActiveTime < env.now →
        ∀ id, (c.printer.heater id).targetTemper ≠ 0 → c.targetSet id ≤ c.printer.lastCmdParse) ∧
      (EndsPrint file env c.printer →
        ∀ id, (c.printer.heater id).targetTemper ≠ 0 → c.targetSet id + keepActiveTime ≤ env.now)
  | .temperMsg _ t _ => t = 0 ∨ c.printer.keepActive = true
  | .target _ t _ => t = 0 ∨ c.printer.keepActive = true
  | .fan _ duty _ => duty = 0 ∨ c.printer.keepActive = true
  | .exec cmd _ => cmd = .m25 ∨ c.printer.keepActive = true
  | .message _ _ _ => True
  | .stopHandle _ => True

instance (p : Printer n m) : Decidable (AllOff p) := inferInstanceAs (Decidable (_ ∧ _))

instance (file : List UInt8) (c : Watched n m) : (e : KeepEvent n m) → Decidable (KeepOk file c e)
  | .iteration _ => inferInstanceAs (Decidable (_ ∧ _))
  | .message _ _ _ => isTrue trivial
  | .temperMsg _ _ _ => isTrue trivial
  | .target _ _ _ => isTrue trivial
  | .fan _ _ _ => isTrue trivial
  | .exec _ _ => isTrue trivial
  | .stopHandle _ => isTrue trivial

instance (file : List UInt8) (c : Watched n m) : (e : KeepEvent n m) → Decidable (Watchful file c e)
  | .iteration _ => inferInstanceAs (Decidable (_ ∧ _))
  | .message _ _ _ => isTrue trivial
  | .temperMsg _ _ _ => inferInstanceAs (Decidable (_ ∨ _))
  | .target _ _ _ => inferInstanceAs (Decidable (_ ∨ _))
  | .fan _ _ _ => inferInstanceAs (Decidable (_ ∨ _))
  | .exec _ _ => inferInstanceAs (Decidable (_ ∨ _))
  | .stopHandle _ => isTrue trivial

end Defs

/-! ## What the parts of an iteration do -/

section Parts

variable {n m : ℕ} {file : List UInt8}

theorem stopPrint_heater (p : Printer n m) (id : HeaterId n) :
    ((stopPrint p).heater id).targetTemper = 0 ∨ (stopPrint p).heater id = p.heater id := by
  rcases id with _ | i
  · left
    simp [Printer.heater, stopPrint]
  · by_cases hi : i = 0
    · subst hi
      left
      simp [Printer.heater, stopPrint]
    · right
      exact Function.update_of_ne hi _ _

/-- **The branch of an iteration**: it takes note of a command that it puts, it never disarms the shut-off, and it
changes targets at the end of the print only. -/
theorem branchPart_spec (file : List UInt8) (env : Env) (p : Printer n m) :
    (PutsCmd file env p → (branchPart file env p).lastCmdParse = env.now) ∧
      (¬ PutsCmd file env p → (branchPart file env p).lastCmdParse = p.lastCmdParse) ∧
      ((branchPart file env p).keepActive = false → p.keepActive = false) ∧
      (branchPart file env p).pwmFan = p.pwmFan ∧
      ∀ id, (EndsPrint file env p ∧ ((branchPart file env p).heater id).targetTemper = 0) ∨
        (branchPart file env p).heater id = p.heater id := by
  unfold branchPart PutsCmd StoresTime EndsPrint
  rcases hst : p.status with _ | _ | _ | _
  case printing =>
    simp only [printingBranch]
    rcases hread : (readPrintFile file env.opens env.fails p.fileFd).1 with _ | _ | ⟨c, cmd⟩
    · refine ⟨by simp, by simp, by simp, rfl, fun id => Or.inr ?_⟩
      rcases id with _ | i <;> rfl
    · refine ⟨by simp, by simp [stopPrint], by simp [stopPrint], rfl, fun id => ?_⟩
      rcases stopPrint_heater p id with h0 | h0
      · refine Or.inl ⟨by simp, ?_⟩
        rw [← h0]
        rcases id with _ | i <;> rfl
      · right
        rw [← h0]
        rcases id with _ | i <;> rfl
    · dsimp only
      by_cases hm : c :: cmd = stopWaitingHeatingCmd
      · rw [if_pos hm]
        refine ⟨by simp [hm], by simp, by simp, rfl, fun id => Or.inr ?_⟩
        rcases id with _ | i <;> rfl
      · rw [if_neg hm]
        refine ⟨by simp, by simp [hm], by simp, rfl, fun id => Or.inr ?_⟩
        rcases id with _ | i <;> rfl
  all_goals
    unfold manualBranch
    by_cases hm : p.manualPrintAction = true
    · simp only [hm, if_true]
      refine ⟨by simp, by simp, by simp, rfl, fun id => Or.inr ?_⟩
      rcases id with _ | i <;> rfl
    · simp only [hm]
      refine ⟨by simp, by simp, by simp, rfl, fun id => Or.inr ?_⟩
      rcases id with _ | i <;> rfl

/-- **The test for the time-out** turns everything off or nothing. -/
theorem timeOutPart_spec (env : Env) (p : Printer n m) :
    (p.lastCmdParse + keepActiveTime < env.now ∧ p.keepActive = true ∧ AllOff (timeOutPart env p) ∧
        (timeOutPart env p).keepActive = false ∧ (timeOutPart env p).lastCmdParse = p.lastCmdParse) ∨
      ¬ (p.lastCmdParse + keepActiveTime < env.now ∧ p.keepActive = true) ∧ timeOutPart env p = p := by
  unfold timeOutPart
  by_cases h : p.lastCmdParse + keepActiveTime < env.now ∧ p.keepActive = true
  · left
    rw [if_pos h]
    refine ⟨h.1, h.2, ⟨fun id => ?_, fun i => rfl⟩, rfl, rfl⟩
    rcases id with _ | i <;> simp [Printer.heater, shutOff]
  · right
    rw [if_neg h]
    exact ⟨h, rfl⟩

/-- **The serial port** arms the shut-off with every command, and leaves heaters and fans alone. -/
theorem uartPart_spec (env : Env) (p : Printer n m) :
    (∀ id, (uartPart env p).heater id = p.heater id) ∧ (uartPart env p).pwmFan = p.pwmFan ∧
      ((uartPart env p).keepActive = false → p.keepActive = false) ∧
      ((env.uartCmd.isSome ∧ (uartPart env p).lastCmdParse = env.now) ∨
        ¬ env.uartCmd.isSome ∧ (uartPart env p).lastCmdParse = p.lastCmdParse) := by
  unfold uartPart
  rcases env.uartCmd with _ | cmd
  · exact ⟨fun _ => rfl, rfl, id, Or.inr ⟨by simp, rfl⟩⟩
  · refine ⟨fun id => ?_, rfl, by simp, Or.inl ⟨rfl, rfl⟩⟩
    rcases id with _ | i <;> rfl

end Parts

/-! ## The invariant -/

section Inv

variable {n m : ℕ} {file : List UInt8}

/-- **The shut-off that is not armed has nothing to turn off**, and the last command is not newer than the last
activity, nor that than the clock. -/
structure KeepInv (c : Watched n m) : Prop where
  pc : c.printer.pc = .testPrinting
  noted : c.printer.lastCmdParse ≤ c.lastActivity
  recent : c.lastActivity ≤ c.now
  disarmed : c.printer.keepActive = false → AllOff c.printer

theorem iteration_parts (file : List UInt8) (env : Env) {p : Printer n m} (h : p.pc = .testPrinting) :
    (∀ id, (iteration file env p).heater id = (timeOutPart env (branchPart file env p)).heater id) ∧
      (iteration file env p).pwmFan = (timeOutPart env (branchPart file env p)).pwmFan ∧
      (iteration file env p).keepActive = (uartPart env (timeOutPart env (branchPart file env p))).keepActive ∧
      (iteration file env p).lastCmdParse = (uartPart env (timeOutPart env (branchPart file env p))).lastCmdParse := by
  obtain ⟨hheater, hfan, -⟩ := uartPart_spec env (timeOutPart env (branchPart file env p))
  rw [iteration_eq env p h]
  refine ⟨fun id => ?_, hfan, rfl, rfl⟩
  rw [← hheater id]
  rcases id with _ | i <;> rfl

theorem AllOff.branchPart {p : Printer n m} (h : AllOff p) (env : Env) : AllOff (branchPart file env p) := by
  obtain ⟨-, -, -, hfan, hheater⟩ := branchPart_spec file env p
  refine ⟨fun id => ?_, fun i => ?_⟩
  · rcases hheater id with ⟨-, h0⟩ | h0
    · exact h0
    · rw [h0]
      exact h.1 id
  · rw [hfan]
    exact h.2 i

theorem KeepInv.recent_apply (file : List UInt8) {c : Watched n m} (h : KeepInv c) {e : KeepEvent n m}
    (ht : c.now ≤ e.now) :
    (c.apply file e).lastActivity ≤ (c.apply file e).now := by
  have hrecent := h.recent
  show (if e.IsActivity file c.printer then e.now else c.lastActivity) ≤ e.now
  split_ifs <;> omega

theorem KeepInv.off {c : Watched n m} (h : KeepInv c) {env : Env}
    (hk : (timeOutPart env (branchPart file env c.printer)).keepActive = false) :
    AllOff (Print.iteration file env c.printer) := by
  obtain ⟨hheater, hfan, -⟩ := iteration_parts file env h.pc
  obtain ⟨-, -, harmed, -⟩ := branchPart_spec file env c.printer
  have hoff : AllOff (timeOutPart env (branchPart file env c.printer)) := by
    rcases timeOutPart_spec env (branchPart file env c.printer) with ⟨-, -, hall, -⟩ | ⟨-, heq⟩
    · exact hall
    · rw [heq] at hk ⊢
      exact (h.disarmed (harmed hk)).branchPart env
  refine ⟨fun id => ?_, fun i => ?_⟩
  · rw [hheater id]
    exact hoff.1 id
  · rw [hfan]
    exact hoff.2 i

theorem KeepInv.noted_iteration {c : Watched n m} (h : KeepInv c) (env : Env) :
    (Print.iteration file env c.printer).lastCmdParse ≤
      if PutsCmd file env c.printer ∨ env.uartCmd.isSome then env.now else c.lastActivity := by
  obtain ⟨-, -, -, hlast⟩ := iteration_parts file env h.pc
  obtain ⟨hputs, hnot, -⟩ := branchPart_spec file env c.printer
  obtain ⟨-, -, -, huart⟩ := uartPart_spec env (timeOutPart env (branchPart file env c.printer))
  have hkept : (timeOutPart env (branchPart file env c.printer)).lastCmdParse =
      (branchPart file env c.printer).lastCmdParse := by
    rcases timeOutPart_spec env (branchPart file env c.printer) with ⟨-, -, -, -, h0⟩ | ⟨-, h0⟩
    · exact h0
    · rw [h0]
  rw [hlast]
  rcases huart with ⟨hsome, hu⟩ | ⟨hnone, hu⟩
  · rw [hu, if_pos (Or.inr hsome)]
  · rw [hu, hkept]
    by_cases hp : PutsCmd file env c.printer
    · rw [hputs hp, if_pos (Or.inl hp)]
    · rw [hnot hp, if_neg (by simp [hp, hnone])]
      exact h.noted

/-- **An iteration of a watched printer does what is asked of it.** -/
theorem KeepInv.keepOk {c : Watched n m} (h : KeepInv c) {env : Env} (hok : Watchful file c (.iteration env)) :
    KeepOk file c (.iteration env) := by
  obtain ⟨hheater, -⟩ := iteration_parts file env h.pc
  obtain ⟨hputs, hnot, -, -, htargets⟩ := branchPart_spec file env c.printer
  have htime := timeOutPart_spec env (branchPart file env c.printer)
  constructor
  · intro hp hidle
    have hnoted := h.noted
    refine h.off ?_
    rcases htime with ⟨-, -, -, hk, -⟩ | ⟨hno, heq⟩
    · exact hk
    · -- the time has passed, so the shut-off is not armed
      rw [hnot hp, not_and] at hno
      rw [heq]
      exact Bool.eq_false_iff.mpr (hno (by omega))
  · intro id hon hturned
    rw [hheater id] at hturned
    rcases htargets id with ⟨hend, -⟩ | hsame
    · exact hok.2 hend id hon
    · rcases htime with ⟨hpast, -⟩ | ⟨-, heq⟩
      · by_cases hp : PutsCmd file env c.printer
        · rw [hputs hp] at hpast
          omega
        · rw [hnot hp] at hpast
          have hset := hok.1 hp hpast id hon
          omega
      · rw [heq, hsame] at hturned
        exact absurd hturned hon

theorem KeepInv.iteration {c : Watched n m} (h : KeepInv c) {env : Env} (ht : c.now ≤ env.now) :
    KeepInv (c.apply file (.iteration env)) := by
  obtain ⟨-, -, hkeep, -⟩ := iteration_parts file env h.pc
  obtain ⟨-, -, huart, -⟩ := uartPart_spec env (timeOutPart env (branchPart file env c.printer))
  refine ⟨(iteration_times file env h.pc).1, h.noted_iteration env, h.recent_apply file ht, fun hk => h.off (huart ?_)⟩
  rw [← hkeep]
  exact hk

theorem withHeater_heater (p : Printer n m) (id id' : HeaterId n) (h : HeaterManager) :
    (p.withHeater id h).heater id' = if id' = id then h else p.heater id' := by
  rcases id with _ | i <;> rcases id' with _ | j
  · simp [Printer.withHeater, Printer.heater]
  · simp [Printer.withHeater, Printer.heater]
  · simp [Printer.withHeater, Printer.heater]
  · by_cases hij : j = i
    · simp [Printer.withHeater, Printer.heater, hij]
    · simp [Printer.withHeater, Printer.heater, hij]

theorem KeepInv.withHeater {c : Watched n m} (h : KeepInv c) {id : HeaterId n} {hm : HeaterManager}
    (hok : hm.targetTemper = 0 ∨ c.printer.keepActive = true) :
    (c.printer.withHeater id hm).keepActive = false → AllOff (c.printer.withHeater id hm) := by
  intro hk
  have hk' : c.printer.keepActive = false := by
    rcases id with _ | i <;> exact hk
  obtain ⟨htargets, hfans⟩ := h.disarmed hk'
  refine ⟨fun id' => ?_, ?_⟩
  · rw [withHeater_heater]
    split_ifs
    · exact hok.resolve_right (by simp [hk'])
    · exact htargets id'
  · rcases id with _ | i <;> exact hfans

theorem printCmdMsgHandle_frame (tick : ℕ) (p : Printer n m) (msg : PrintCmd) :
    (printCmdMsgHandle tick p msg).pc = p.pc ∧ (printCmdMsgHandle tick p msg).lastCmdParse = p.lastCmdParse ∧
      (printCmdMsgHandle tick p msg).keepActive = p.keepActive ∧
      (∀ id, (printCmdMsgHandle tick p msg).heater id = p.heater id) ∧
      (printCmdMsgHandle tick p msg).pwmFan = p.pwmFan := by
  rcases msg with _ | _ | _ | _
  all_goals
    refine ⟨rfl, rfl, rfl, fun id => ?_, rfl⟩
    rcases id with _ | i <;> rfl

/-- **Every event keeps the invariant** under its condition, and every iteration does what is asked of it. -/
theorem KeepInv.apply {c : Watched n m} (h : KeepInv c) {e : KeepEvent n m} (ht : c.now ≤ e.now)
    (hok : Watchful file c e) : KeepInv (c.apply file e) ∧ KeepOk file c e := by
  have hnoted := h.noted
  have hrecent := h.recent_apply file ht
  rcases e with env | ⟨msg, tick, now⟩ | ⟨id, t, now⟩ | ⟨id, t, now⟩ | ⟨i, duty, now⟩ | ⟨cmd, now⟩ | now
  · exact ⟨h.iteration ht, h.keepOk hok⟩
  · obtain ⟨hpc, hlast, hkeep, hheater, hfan⟩ := printCmdMsgHandle_frame tick c.printer msg
    refine ⟨⟨hpc.trans h.pc, ?_, hrecent, fun hk => ?_⟩, trivial⟩
    · exact hlast.trans_le hnoted
    · obtain ⟨h1, h2⟩ := h.disarmed (hkeep.symm.trans hk)
      refine ⟨fun id => ?_, fun i => ?_⟩
      · show ((printCmdMsgHandle tick c.printer msg).heater id).targetTemper = 0
        rw [hheater id]
        exact h1 id
      · show (printCmdMsgHandle tick c.printer msg).pwmFan i = 0
        rw [hfan]
        exact h2 i
  · -- the screen
    refine ⟨⟨?_, ?_, hrecent, h.withHeater hok⟩, trivial⟩
    · rcases id with _ | i <;> exact h.pc
    · have hold := h.recent
      have hlast : (KeepEvent.apply file c.printer (.temperMsg id t now)).lastCmdParse = c.printer.lastCmdParse := by
        rcases id with _ | i <;> rfl
      show (KeepEvent.apply file c.printer (.temperMsg id t now)).lastCmdParse ≤ now
      rw [hlast]
      exact hnoted.trans (hold.trans ht)
  · refine ⟨⟨?_, ?_, hrecent, h.withHeater ?_⟩, trivial⟩
    · rcases id with _ | i <;> exact h.pc
    · rcases id with _ | i <;> exact hnoted
    · rw [setTarget_targetTemper]
      exact hok
  · refine ⟨⟨h.pc, hnoted, hrecent, fun hk => ?_⟩, trivial⟩
    obtain ⟨htargets, hfans⟩ := h.disarmed hk
    refine ⟨fun id => ?_, fun j => ?_⟩
    · rw [← htargets id]
      rcases id with _ | i <;> rfl
    · show Function.update c.printer.pwmFan i duty j = 0
      by_cases hij : j = i
      · subst hij
        rw [Function.update_self]
        exact hok.resolve_right (by simp [show c.printer.keepActive = false from hk])
      · rw [Function.update_of_ne hij]
        exact hfans j
  · refine ⟨⟨?_, ?_, hrecent, fun hk => ?_⟩, trivial⟩
    · rcases cmd with _ | _ <;> exact h.pc
    · rcases cmd with _ | _ <;> exact hnoted
    · have hk' : c.printer.keepActive = false := hk
      obtain ⟨htargets, hfans⟩ := h.disarmed hk'
      obtain rfl : cmd = .m25 := hok.resolve_right (by simp [hk'])
      refine ⟨fun id => ?_, hfans⟩
      -- M25 sets the targets that it changes to zero
      rcases stopPrint_heater c.printer id with h0 | h0
      · rw [← h0]
        rcases id with _ | i <;> rfl
      · rw [← htargets id, ← h0]
        rcases id with _ | i <;> rfl
  · refine ⟨⟨h.pc, hnoted, hrecent, fun hk => ?_⟩, trivial⟩
    obtain ⟨htargets, hfans⟩ := h.disarmed hk
    refine ⟨fun id => ?_, hfans⟩
    rcases stopPrint_heater c.printer id with h0 | h0
    · exact h0
    · exact (congrArg HeaterManager.targetTemper h0).trans (htargets id)

end Inv

/-! ## Runs -/

section WatchedRuns

variable {n m : ℕ}

/-- The printer as constructed, with everything off. -/
def constructedWatch (bed : HeaterManager) (hotEndArr : Fin (n + 1) → HeaterManager) : Watched n m where
  printer := constructedPrinter (setTarget bed 0) (fun i => setTarget (hotEndArr i) 0) fun _ => 0
  now := 0
  lastActivity := 0
  targetSet := fun _ => 0

theorem constructedWatch_keepInv (bed : HeaterManager) (hotEndArr : Fin (n + 1) → HeaterManager) :
    KeepInv (constructedWatch bed hotEndArr : Watched n m) := by
  refine ⟨rfl, le_rfl, le_rfl, fun _ => ⟨fun id => ?_, fun _ => rfl⟩⟩
  rcases id with _ | i <;> simp [constructedWatch, constructedPrinter, Printer.heater]

/-- **Every iteration does what is asked of it** in every run that the shut-off watches. -/
theorem keep_active (file : List UInt8) (bed : HeaterManager) (hotEndArr : Fin (n + 1) → HeaterManager)
    (es : List (KeepEvent n m))
    (h : AllSteps (Watched.apply file) (fun c e => c.now ≤ e.now ∧ Watchful file c e)
      (constructedWatch bed hotEndArr) es) :
    AllSteps (Watched.apply file) (KeepOk file) (constructedWatch bed hotEndArr) es :=
  AllSteps.of_invariant (fun _ _ hinv hok => hinv.apply hok.1 hok.2) (constructedWatch_keepInv bed hotEndArr) h

/-- A printer with a hot end and a fan. -/
def idleWatch : Watched 0 1 :=
  constructedWatch (constructed 0 .idle ⟨0, 0⟩ 0 0) fun _ => constructed 0 .idle ⟨0, 0⟩ 0 0

/-- An iteration at a time, with a command of the serial port or without. -/
def watchAt (now : ℕ) (uartCmd : Option (List UInt8)) : KeepEvent 0 1 :=
  .iteration ⟨now, now, true, false, uartCmd⟩

/-- A command that heats the bed, and ten minutes without another one. -/
def heatedBed : List (KeepEvent 0 1) :=
  [watchAt 1000 (some (text "M140 S60")), .target .bed 60 1000, watchAt 601000 none, watchAt 601001 none]

theorem keep_active_heatedBed :
    ((heatedBed.foldl (Watched.apply []) idleWatch).printer.heater .bed).targetTemper = 0 ∧
      AllSteps (Watched.apply []) (KeepOk []) idleWatch heatedBed :=
  ⟨by decide +kernel, keep_active [] _ _ heatedBed (by decide +kernel)⟩

/-- The screen heats the nozzle, and nothing else happens for an hour. -/
def heatedByScreen : List (KeepEvent 0 1) :=
  [watchAt 0 none, .temperMsg (.hotEnd 0) 200 1000, watchAt 601001 none, watchAt 3600000 none]

/-- It does so a second before the time since the last command has passed. -/
def heatedLate : List (KeepEvent 0 1) :=
  [watchAt 1000 (some (text "G28")), .temperMsg (.hotEnd 0) 200 600000, watchAt 601001 none]

/-- **A heater that the screen turns on stays on**, and one that it turns on late is turned off after a second. -/
theorem heater_left_on :
    ((heatedByScreen.foldl (Watched.apply []) idleWatch).printer.heater (.hotEnd 0)).targetTemper = 200 ∧
      ((heatedLate.foldl (Watched.apply []) idleWatch).printer.heater (.hotEnd 0)).targetTemper = 0 ∧
      ¬ AllSteps (Watched.apply []) (KeepOk []) idleWatch heatedByScreen ∧
      ¬ AllSteps (Watched.apply []) (KeepOk []) idleWatch heatedLate :=
  ⟨by decide +kernel, by decide +kernel, by decide +kernel, by decide +kernel⟩

end WatchedRuns

end Cxsw.Print
