import Cxsw.CrModel.PrintJob

/-!
# Cxsw.CrModel.PrintAction — the commands of pause, resume and stop (`CrModel/CrPrinter.cpp`)

The handler tells the print thread of a pause, a resume or a stop by the status and the flag `ManualPrintAction`.  The
thread tests the status, tests the flag, puts the command of the branch it is in, and clears the flag.

* `ActionsInOrder`: the commands put are those of the messages, in order, up to the last one.
* `Phase`: no request, a request being made, a request made, a command put and the flag not yet cleared.
* `Phase.apply`: every step leads from phase to phase, if it is taken in turn (`InTurn`).
* `stepsTo_threadStmt`, `Near.threadSteps`: the print thread alone comes to the command of a request.
* `manual_actions`: so in every run of such steps no action is lost.
* `pause_overwritten`: a pause and a resume before the thread acts.
-/

namespace Cxsw.Print

open CString

/-! ## Actions and commands -/

section Actions

/-- The actions of the messages that have been taken up. -/
def takenActions (log : List LogEntry) : List ManualAction :=
  log.filterMap fun
    | .received (.manual a) => some a
    | _ => none

/-- The commands that have been put for them. -/
def manualPuts (log : List LogEntry) : List (List UInt8) :=
  log.filterMap fun
    | .put .manual cmd => some cmd
    | _ => none

/-- Every action taken up has had its command, each once, and in order. -/
def AllPut (log : List LogEntry) : Prop := manualPuts log = (takenActions log).map ManualAction.cmd

/-- All but the last one, `a`. -/
def AllPutBut (a : ManualAction) (log : List LogEntry) : Prop :=
  ∃ as, takenActions log = as ++ [a] ∧ manualPuts log = as.map ManualAction.cmd

/-- **No action is lost**: the commands put are those of the messages, in order, up to the last one. -/
def ActionsInOrder (log : List LogEntry) : Prop := AllPut log ∨ ∃ a, AllPutBut a log

variable {log : List LogEntry}

theorem manualPuts_snoc (e : LogEntry) : manualPuts (log ++ [e]) = manualPuts log ++ manualPuts [e] :=
  List.filterMap_append

theorem takenActions_snoc (e : LogEntry) : takenActions (log ++ [e]) = takenActions log ++ takenActions [e] :=
  List.filterMap_append

theorem AllPut.take (h : AllPut log) (a : ManualAction) : AllPutBut a (log ++ [.received (.manual a)]) := by
  refine ⟨takenActions log, takenActions_snoc _, ?_⟩
  rw [manualPuts_snoc, ← h]
  exact List.append_nil _

theorem AllPutBut.put {a : ManualAction} (h : AllPutBut a log) : AllPut (log ++ [.put .manual a.cmd]) := by
  obtain ⟨as, htaken, hputs⟩ := h
  unfold AllPut
  rw [takenActions_snoc, htaken, manualPuts_snoc, hputs]
  simp [takenActions, manualPuts]

theorem status_injective {a b : ManualAction} (h : a.status = b.status) : a = b := by
  rcases a with _ | _ | _ <;> rcases b with _ | _ | _ <;> first | rfl | cases h

end Actions

/-! ## Phases -/

section Phases

variable {n m : ℕ} {file : List UInt8} {p : Printer n m}

/-- Whether the print thread is between a put for a message and the end of its branch. -/
def ThreadPc.Acts : ThreadPc → Prop
  | .putManual _ => True
  | .finishManual _ => True
  | _ => False

/-- The action whose branch the print thread is in, before it tests the flag. -/
def ThreadPc.branch : ThreadPc → Option ManualAction
  | .clearQueue => some .stop
  | .testManual a => some a
  | _ => none

/-- The print thread is not on the way to the command of another action than `a`. -/
def ThreadPc.For (a : ManualAction) (pc : ThreadPc) : Prop :=
  (∀ b, pc.branch = some b → b = a) ∧ (∀ b, pc = .putManual b → b = a) ∧ ∀ b, pc ≠ .finishManual b

/-- The statements of the handler behind the flag. -/
def Flagged (handler : List HandlerStmt) : Prop := ∀ stmt ∈ handler, stmt = .stopWaiting

/-- What is left of the branch of `a` before the flag, in the status `status`. -/
def Asking (a : ManualAction) (status : PrintStatus) (handler : List HandlerStmt) : Prop :=
  ∃ before, handler = before ++ [.setManual, .stopWaiting] ∧
    (∀ stmt ∈ before, stmt ≠ .setManual ∧ ∀ st, stmt = .setStatus st → st = a.status) ∧
    (.setStatus a.status ∈ before ∨ status = a.status)

/-- **The phases of a request.** -/
inductive Phase (p : Printer n m) : Prop
  | none : p.manualPrintAction = false → ¬ p.pc.Acts → AllPut p.log → .setManual ∉ p.handler → Phase p
  | asking (a : ManualAction) : p.manualPrintAction = false → ¬ p.pc.Acts → AllPutBut a p.log →
      Asking a p.status p.handler → Phase p
  | requested (a : ManualAction) : p.manualPrintAction = true → p.pc.For a → AllPutBut a p.log → p.status = a.status →
      Flagged p.handler → Phase p
  | put (a : ManualAction) : p.manualPrintAction = true → p.pc = .finishManual a → AllPut p.log →
      Flagged p.handler → Phase p

/-- **A step in turn**: a message is taken up with the flag clear; the flag is not set while the print thread is behind
the test for another status; and nobody else writes the status while a message is handled or its flag is set. -/
def InTurn (p : Printer n m) : PrintEvent → Prop
  | .message _ => p.manualPrintAction = false
  | .handler _ => p.handler.head? = some .setManual → p.pc.branch.all (·.status = p.status) = true
  | .thread _ => p.pc = .readError ∨ p.pc = .setStopped → p.manualPrintAction = false ∧ p.handler = []
  | .exec cmd => cmd = .m24 → p.manualPrintAction = false ∧ p.handler = []

instance (p : Printer n m) : (e : PrintEvent) → Decidable (InTurn p e)
  | .message _ => inferInstanceAs (Decidable (_ = _))
  | .handler _ => inferInstanceAs (Decidable (_ → _))
  | .thread _ => inferInstanceAs (Decidable (_ → _))
  | .exec _ => inferInstanceAs (Decidable (_ → _))

/-! ### What the steps do -/

/-- The entries of the record that are no actions and no commands of actions. -/
theorem AllPut.other {log : List LogEntry} (h : AllPut log) {e : LogEntry} (ht : takenActions [e] = [])
    (hm : manualPuts [e] = []) : AllPut (log ++ [e]) := by
  unfold AllPut
  rw [manualPuts_snoc, takenActions_snoc, ht, hm, List.append_nil, List.append_nil]
  exact h

theorem AllPutBut.other {a : ManualAction} {log : List LogEntry} (h : AllPutBut a log) {e : LogEntry}
    (ht : takenActions [e] = []) (hm : manualPuts [e] = []) : AllPutBut a (log ++ [e]) := by
  obtain ⟨as, htaken, hputs⟩ := h
  refine ⟨as, ?_, ?_⟩
  · rw [takenActions_snoc, ht, List.append_nil, htaken]
  · rw [manualPuts_snoc, hm, List.append_nil, hputs]

/-- **What a statement of the print thread does** to the request, apart from those that put its command and clear the
flag: it may write an entry about the file, and it writes the status in two places only. -/
theorem threadStmt_request (file : List UInt8) (env : Env) (p : Printer n m) {pc : ThreadPc} (h : ¬ pc.Acts) :
    (threadStmt file env p pc).manualPrintAction = p.manualPrintAction ∧
      (threadStmt file env p pc).handler = p.handler ∧
      (pc ≠ .readError → pc ≠ .setStopped → (threadStmt file env p pc).status = p.status) ∧
      ((threadStmt file env p pc).log = p.log ∨ ∃ e, (threadStmt file env p pc).log = p.log ++ [e] ∧
        takenActions [e] = [] ∧ manualPuts [e] = []) := by
  rcases pc with _ | _ | _ | _ | _ | _ | _ | cmd | _ | a | _ | a | a | a | a | _ | _
  case readCmd =>
    unfold threadStmt
    dsimp only
    rcases (readPrintFile file env.opens env.fails p.fileFd).1 with _ | _ | ⟨c, cmd⟩
    · exact ⟨rfl, rfl, fun _ _ => rfl, Or.inr ⟨.ended, rfl, rfl, rfl⟩⟩
    · exact ⟨rfl, rfl, fun _ _ => rfl, Or.inr ⟨.ended, rfl, rfl, rfl⟩⟩
    · exact ⟨rfl, rfl, fun _ _ => rfl, Or.inl rfl⟩
  case inHand =>
    unfold threadStmt
    dsimp only
    split_ifs
    · exact ⟨rfl, rfl, fun _ _ => rfl, Or.inl rfl⟩
    · exact ⟨rfl, rfl, fun _ _ => rfl, Or.inr ⟨.put .file cmd, rfl, rfl, rfl⟩⟩
  case uart =>
    unfold threadStmt
    rcases env.uartCmd with _ | cmd
    · exact ⟨rfl, rfl, fun _ _ => rfl, Or.inl rfl⟩
    · exact ⟨rfl, rfl, fun _ _ => rfl, Or.inr ⟨.put .uart cmd, rfl, rfl, rfl⟩⟩
  case testStatus =>
    unfold threadStmt
    rcases a with _ | _ | _
    all_goals
      dsimp only
      split_ifs <;> exact ⟨rfl, rfl, fun _ _ => rfl, Or.inl rfl⟩
  case testTimeOut =>
    rw [threadStmt_testTimeOut]
    rcases timeOutPart_cases env p with hpart | hpart
    all_goals
      rw [hpart]
      exact ⟨rfl, rfl, fun _ _ => rfl, Or.inl rfl⟩
  case putManual => exact absurd trivial h
  case finishManual => exact absurd trivial h
  case readError => exact ⟨rfl, rfl, fun h0 => absurd rfl h0, Or.inl rfl⟩
  case setStopped => exact ⟨rfl, rfl, fun _ h0 => absurd rfl h0, Or.inl rfl⟩
  all_goals exact ⟨rfl, rfl, fun _ _ => rfl, Or.inl rfl⟩

/-- With the flag clear the print thread does not come to put a command of an action. -/
theorem threadStmt_acts (env : Env) (hm : p.manualPrintAction = false) {pc : ThreadPc}
    (h : ¬ pc.Acts) : ¬ (threadStmt file env p pc).pc.Acts := by
  rcases pc with _ | _ | _ | _ | _ | _ | _ | cmd | _ | a | _ | a | a | a | a | _ | _
  case testPrinting => simp only [threadStmt]; split_ifs <;> exact id
  case readCmd =>
    unfold threadStmt
    dsimp only
    rcases (readPrintFile file env.opens env.fails p.fileFd).1 with _ | _ | ⟨c, cmd⟩ <;> exact id
  case inHand => simp only [threadStmt]; split_ifs <;> exact id
  case testStatus =>
    rcases a with _ | _ | _
    all_goals simp only [threadStmt]; split_ifs <;> exact id
  case testManual =>
    simp only [threadStmt, hm]
    exact id
  case uart =>
    unfold threadStmt
    rcases env.uartCmd with _ | cmd <;> exact id
  case putManual => exact absurd trivial h
  case finishManual => exact absurd trivial h
  all_goals exact id

/-- A place outside the branches is on the way to any command. -/
theorem for_of_outside {a : ManualAction} {pc : ThreadPc} (hb : pc.branch = none) (ha : ¬ pc.Acts) : pc.For a := by
  refine ⟨?_, ?_, ?_⟩
  · intro b h
    rw [hb] at h
    cases h
  · rintro b rfl
    exact absurd trivial ha
  · rintro b rfl
    exact ha trivial

theorem for_testManual (a : ManualAction) : ThreadPc.For a (.testManual a) :=
  ⟨fun _ h => (Option.some.inj h).symm, by simp, by simp⟩

theorem for_clearQueue : ThreadPc.For .stop .clearQueue := ⟨fun _ h => (Option.some.inj h).symm, by simp, by simp⟩

/-- With the status of a request the print thread stays on the way to its command. -/
theorem threadStmt_for (env : Env) {a : ManualAction} (hst : p.status = a.status) {pc : ThreadPc}
    (hfor : pc.For a) (h : ¬ pc.Acts) : (threadStmt file env p pc).pc.For a := by
  have hout : ∀ {pc : ThreadPc}, pc.branch = none → ¬ pc.Acts → pc.For a := for_of_outside
  rcases pc with _ | _ | _ | _ | _ | _ | _ | cmd | _ | b | _ | b | b | b | b | _ | _
  case testPrinting => simp only [threadStmt]; split_ifs <;> exact hout rfl id
  case readCmd =>
    unfold threadStmt
    dsimp only
    rcases (readPrintFile file env.opens env.fails p.fileFd).1 with _ | _ | ⟨c, cmd⟩ <;> exact hout rfl id
  case inHand => simp only [threadStmt]; split_ifs <;> exact hout rfl id
  case testStatus =>
    by_cases hb : a = b
    · subst hb
      simp only [threadStmt, if_pos hst]
      split_ifs with hstop
      · rw [hstop]
        exact for_clearQueue
      · exact for_testManual a
    · have hne : p.status ≠ b.status := fun h0 => hb (status_injective (hst.symm.trans h0))
      rcases b with _ | _ | _
      all_goals simp only [threadStmt, if_neg hne]; exact hout rfl id
  case clearQueue =>
    rw [← hfor.1 .stop rfl]
    exact for_testManual .stop
  case testManual =>
    obtain rfl := hfor.1 b rfl
    simp only [threadStmt]
    split_ifs
    · exact ⟨by simp [ThreadPc.branch], fun c hc => (ThreadPc.putManual.inj hc).symm, by simp⟩
    · exact hout rfl id
  case uart =>
    unfold threadStmt
    rcases env.uartCmd with _ | cmd <;> exact hout rfl id
  case putManual => exact absurd trivial h
  case finishManual => exact absurd trivial h
  all_goals exact hout rfl id

/-! ### Every step leads from phase to phase -/

theorem Phase.threadStep (file : List UInt8) (h : Phase p) {env : Env}
    (hturn : InTurn p (.thread env)) :
    Phase (threadStep file env p) := by
  unfold Print.threadStep
  have hwrites : p.manualPrintAction = true ∨ p.handler ≠ [] → p.pc ≠ .readError ∧ p.pc ≠ .setStopped := by
    intro hbusy
    have hnot : ¬ (p.manualPrintAction = false ∧ p.handler = []) := by
      rintro ⟨h1, h2⟩
      rcases hbusy with hb | hb
      · simp [h1] at hb
      · exact hb h2
    exact ⟨fun hpc => hnot (hturn (Or.inl hpc)), fun hpc => hnot (hturn (Or.inr hpc))⟩
  rcases h with ⟨hm, hacts, hput, hh⟩ | ⟨a, hm, hacts, hbut, hask⟩ | ⟨a, hm, hfor, hbut, hst, hh⟩ | ⟨a, hm, hpc,
    hput, hh⟩
  · obtain ⟨hm', hh', -, hlog⟩ := threadStmt_request file env p hacts
    refine .none (hm'.trans hm) (threadStmt_acts env hm hacts) ?_ (by rw [hh']; exact hh)
    rcases hlog with hlog | ⟨e, hlog, ht, hp⟩
    · rw [hlog]
      exact hput
    · rw [hlog]
      exact hput.other ht hp
  · obtain ⟨hm', hh', hst', hlog⟩ := threadStmt_request file env p hacts
    have hbusy : p.handler ≠ [] := by
      obtain ⟨before, hb, -⟩ := hask
      rw [hb]
      simp
    obtain ⟨hr, hs⟩ := hwrites (Or.inr hbusy)
    refine .asking a (hm'.trans hm) (threadStmt_acts env hm hacts) ?_ (by rw [hst' hr hs, hh']; exact hask)
    rcases hlog with hlog | ⟨e, hlog, ht, hp⟩
    · rw [hlog]
      exact hbut
    · rw [hlog]
      exact hbut.other ht hp
  · obtain ⟨hr, hs⟩ := hwrites (Or.inl hm)
    by_cases hacts : p.pc.Acts
    · -- the command of the request is put
      rcases hpc : p.pc with _ | _ | _ | _ | _ | _ | _ | cmd | _ | b | _ | b | b | b | b | _ | _
      case putManual =>
        obtain rfl := hfor.2.1 b hpc
        exact .put b hm rfl hbut.put hh
      case finishManual => exact absurd hpc (hfor.2.2 b)
      all_goals simp [hpc, ThreadPc.Acts] at hacts
    · obtain ⟨hm', hh', hst', hlog⟩ := threadStmt_request file env p hacts
      refine .requested a (hm'.trans hm) (threadStmt_for env hst hfor hacts) ?_ ((hst' hr hs).trans hst)
        (by rw [hh']; exact hh)
      rcases hlog with hlog | ⟨e, hlog, ht, hp⟩
      · rw [hlog]
        exact hbut
      · rw [hlog]
        exact hbut.other ht hp
  · rw [hpc]
    refine .none rfl id hput fun hmem => ?_
    exact absurd (hh _ hmem) (by simp)

/-- A message is taken up. -/
theorem Phase.receive (h : Phase p) (hidle : p.handler = []) {msg : PrintCmd}
    (hturn : InTurn p (.message msg)) : Phase (receive p msg) := by
  have hm : p.manualPrintAction = false := hturn
  rcases h with ⟨-, hacts, hput, -⟩ | ⟨a, -, -, -, before, hb, -⟩ | ⟨a, hm', -⟩ | ⟨a, hm', -⟩
  · rcases msg with _ | a
    · exact .none hm hacts (hput.other rfl rfl) (by simp [Print.receive, handlerBody])
    · refine .asking a hm hacts (hput.take a) ?_
      rcases a with _ | _ | _
      · exact ⟨[.addPrintTime, .setStatus .pausePrint], rfl, by simp [ManualAction.status],
          by simp [ManualAction.status]⟩
      · exact ⟨[.setStartPrintTime, .setStatus .resumePrint], rfl, by simp [ManualAction.status],
          by simp [ManualAction.status]⟩
      · exact ⟨[.setStatus .stopPrint, .clearStartPrintTime, .clearPrintTime], rfl, by simp [ManualAction.status],
          by simp [ManualAction.status]⟩
  · rw [hidle] at hb
    simp at hb
  · simp [hm] at hm'
  · simp [hm] at hm'

/-- A statement of the handler that is not the one of the flag. -/
theorem handlerStmt_frame (tick : ℕ) (p : Printer n m) {stmt : HandlerStmt} (h : stmt ≠ .setManual) :
    (handlerStmt tick p stmt).manualPrintAction = p.manualPrintAction ∧ (handlerStmt tick p stmt).pc = p.pc ∧
      (handlerStmt tick p stmt).log = p.log ∧
      ((∃ st, stmt = .setStatus st ∧ (handlerStmt tick p stmt).status = st) ∨
        (∀ st, stmt ≠ .setStatus st) ∧ (handlerStmt tick p stmt).status = p.status) := by
  rcases stmt with _ | st | _ | _ | _ | _ | _
  case setManual => exact absurd rfl h
  case setStatus => exact ⟨rfl, rfl, rfl, Or.inl ⟨st, rfl, rfl⟩⟩
  all_goals exact ⟨rfl, rfl, rfl, Or.inr ⟨by simp, rfl⟩⟩

/-- A statement before the flag. -/
theorem Asking.step {a : ManualAction} {tick : ℕ} {stmt : HandlerStmt} {rest : List HandlerStmt}
    (h : Asking a p.status (stmt :: rest)) (hne : stmt ≠ .setManual) :
    Asking a (handlerStmt tick p stmt).status rest := by
  obtain ⟨before, hb, hall, hor⟩ := h
  obtain ⟨-, -, -, hst⟩ := handlerStmt_frame tick p hne
  rcases before with _ | ⟨s, before⟩
  · exact absurd (List.cons.inj hb).1 hne
  · obtain ⟨rfl, rfl⟩ := List.cons.inj hb
    refine ⟨before, rfl, fun s hs => hall s (List.mem_cons_of_mem _ hs), ?_⟩
    rcases hst with ⟨st, rfl, hst⟩ | ⟨hno, hst⟩
    · right
      rw [hst]
      exact (hall _ List.mem_cons_self).2 st rfl
    · rw [hst]
      rcases hor with hmem | heq
      · rcases List.mem_cons.mp hmem with h0 | h0
        · exact absurd h0.symm (hno _)
        · exact Or.inl h0
      · exact Or.inr heq

theorem Asking.flag {a : ManualAction} {status : PrintStatus} {rest : List HandlerStmt}
    (h : Asking a status (.setManual :: rest)) : status = a.status ∧ Flagged rest := by
  obtain ⟨before, hb, hall, hor⟩ := h
  rcases before with _ | ⟨s, before⟩
  · obtain ⟨-, rfl⟩ := List.cons.inj hb
    refine ⟨?_, by simp [Flagged]⟩
    rcases hor with hmem | heq
    · simp at hmem
    · exact heq
  · exact absurd (List.cons.inj hb).1.symm (hall s List.mem_cons_self).1

theorem Flagged.tail {stmt : HandlerStmt} {rest : List HandlerStmt} (h : Flagged (stmt :: rest)) :
    stmt = .stopWaiting ∧ Flagged rest :=
  ⟨h stmt List.mem_cons_self, fun s hs => h s (List.mem_cons_of_mem _ hs)⟩

theorem Phase.handlerStep (h : Phase p) {tick : ℕ} (hturn : InTurn p (.handler tick)) :
    Phase (handlerStep tick p) := by
  unfold Print.handlerStep
  rcases hh : p.handler with _ | ⟨stmt, rest⟩
  · exact h
  · rcases h with ⟨hm, hacts, hput, hno⟩ | ⟨a, hm, hacts, hbut, hask⟩ | ⟨a, hm, hfor, hbut, hst, hf⟩ |
      ⟨a, hm, hpc, hput, hf⟩
    · rw [hh, List.mem_cons, not_or] at hno
      obtain ⟨hm', hpc', hlog', -⟩ := handlerStmt_frame tick p (Ne.symm hno.1)
      exact .none (hm'.trans hm) (by simpa [hpc'] using hacts) (by simpa [hlog'] using hput) hno.2
    · rw [hh] at hask
      by_cases hne : stmt = .setManual
      · subst hne
        obtain ⟨hst, hf⟩ := hask.flag
        have hbranch := hturn (by rw [hh]; rfl)
        refine .requested a rfl ⟨?_, ?_, ?_⟩ hbut hst hf
        · intro b hb
          have hbpc : p.pc.branch = some b := hb
          rw [hbpc] at hbranch
          exact status_injective ((of_decide_eq_true hbranch).trans hst)
        · intro b hb
          have hbpc : p.pc = .putManual b := hb
          rw [hbpc] at hacts
          exact absurd trivial hacts
        · intro b hb
          have hbpc : p.pc = .finishManual b := hb
          rw [hbpc] at hacts
          exact hacts trivial
      · obtain ⟨hm', hpc', hlog', -⟩ := handlerStmt_frame tick p hne
        exact .asking a (hm'.trans hm) (by simpa [hpc'] using hacts) (by simpa [hlog'] using hbut) (hask.step hne)
    · rw [hh] at hf
      obtain ⟨rfl, hf'⟩ := hf.tail
      exact .requested a hm hfor hbut hst hf'
    · rw [hh] at hf
      obtain ⟨rfl, hf'⟩ := hf.tail
      exact .put a hm hpc hput hf'

/-- A command of another thread is executed. -/
theorem Phase.execCmd (h : Phase p) {cmd : PauseCmd} (hturn : InTurn p (.exec cmd)) :
    Phase (execCmd p cmd) := by
  rcases cmd with _ | _
  · obtain ⟨hm, hidle⟩ := hturn rfl
    rcases h with ⟨-, hacts, hput, hno⟩ | ⟨a, -, -, -, before, hb, -⟩ | ⟨a, hm', -⟩ | ⟨a, hm', -⟩
    · exact .none hm hacts hput hno
    · rw [hidle] at hb
      simp at hb
    · simp [hm] at hm'
    · simp [hm] at hm'
  · rcases h with ⟨hm, hacts, hput, hno⟩ | ⟨a, hm, hacts, hbut, hask⟩ | ⟨a, hm, hfor, hbut, hst, hf⟩ |
      ⟨a, hm, hpc, hput, hf⟩
    · exact .none hm hacts hput hno
    · exact .asking a hm hacts hbut hask
    · exact .requested a hm hfor hbut hst hf
    · exact .put a hm hpc hput hf

/-- **Every step that is taken in turn leads from phase to phase.** -/
theorem Phase.apply (h : Phase p) {e : PrintEvent} (he : e.Enabled p) (hturn : InTurn p e) :
    Phase (PrintEvent.apply file p e) := by
  rcases e with env | msg | tick | cmd
  · exact h.threadStep file hturn
  · exact h.receive he hturn
  · exact h.handlerStep hturn
  · exact h.execCmd hturn

theorem Phase.inOrder (h : Phase p) : ActionsInOrder p.log := by
  rcases h with ⟨-, -, hput, -⟩ | ⟨a, -, -, hbut, -⟩ | ⟨a, -, -, hbut, -, -⟩ | ⟨a, -, -, hput, -⟩
  · exact Or.inl hput
  · exact Or.inr ⟨a, hbut⟩
  · exact Or.inr ⟨a, hbut⟩
  · exact Or.inl hput

theorem constructedPrinter_phase (bed : Heater.HeaterManager) (hotEndArr : Fin (n + 1) → Heater.HeaterManager)
    (pwmFan : Fin m → ℤ) : Phase (constructedPrinter bed hotEndArr pwmFan) :=
  .none rfl id rfl (by simp [constructedPrinter])

end Phases

/-! ## The print thread alone -/

section Alone

variable {n m : ℕ} {file : List UInt8}

/-- How many statements of the print thread there are at most up to the command of `a`, in the status of `a`. -/
def stepsTo (a : ManualAction) : ThreadPc → ℕ
  | .putManual _ => 1
  | .testManual _ => 2
  | .clearQueue => 3
  | .testStatus b =>
    match a, b with
    | .pause, .pause => 3
    | .pause, .resume => 11
    | .pause, .stop => 10
    | .resume, .pause => 4
    | .resume, .resume => 3
    | .resume, .stop => 10
    | .stop, .pause => 6
    | .stop, .resume => 5
    | .stop, .stop => 4
  | .testPrinting => 7
  | .uart => 8
  | .testTimeOut => 9
  | .inHand _ => 11
  | .setStopped => 11
  | .stopPrint => 12
  | .readCmd => 13
  | .markStart => 14
  | _ => 10

theorem stepsTo_bounds (a : ManualAction) (pc : ThreadPc) : 0 < stepsTo a pc ∧ stepsTo a pc ≤ 14 := by
  rcases pc with _ | _ | _ | _ | _ | _ | _ | cmd | _ | b | _ | b | b | b | b | _ | _
  case testStatus => rcases a with _ | _ | _ <;> rcases b with _ | _ | _ <;> simp [stepsTo]
  all_goals simp [stepsTo]

/-- **The print thread comes closer** to the command of a request. -/
theorem stepsTo_threadStmt (file : List UInt8) (env : Env) {p : Printer n m} {a : ManualAction}
    (hm : p.manualPrintAction = true)
    (hst : p.status = a.status) {pc : ThreadPc} (hfor : pc.For a) (h : ¬ pc.Acts) :
    stepsTo a (threadStmt file env p pc).pc < stepsTo a pc := by
  have hprint : p.status ≠ .printing := by
    rw [hst]
    rcases a with _ | _ | _ <;> simp [ManualAction.status]
  rcases pc with _ | _ | _ | _ | _ | _ | _ | cmd | _ | b | _ | b | b | b | b | _ | _
  case testPrinting =>
    simp only [threadStmt, if_neg hprint]
    rcases a with _ | _ | _ <;> simp [stepsTo]
  case readCmd =>
    unfold threadStmt
    dsimp only
    rcases (readPrintFile file env.opens env.fails p.fileFd).1 with _ | _ | ⟨c, cmd⟩ <;> simp [stepsTo]
  case inHand => simp only [threadStmt]; split_ifs <;> simp [stepsTo]
  case testStatus =>
    by_cases hb : a = b
    · subst hb
      simp only [threadStmt, if_pos hst]
      rcases a with _ | _ | _ <;> simp [stepsTo]
    · have hne : p.status ≠ b.status := fun h0 => hb (status_injective (hst.symm.trans h0))
      rcases b with _ | _ | _
      all_goals
        simp only [threadStmt, if_neg hne]
        rcases a with _ | _ | _
        all_goals first | exact absurd rfl hb | simp [stepsTo]
  case testManual =>
    simp only [threadStmt, hm]
    simp [stepsTo]
  case uart =>
    unfold threadStmt
    rcases env.uartCmd with _ | cmd <;> simp [stepsTo]
  case putManual => exact absurd trivial h
  case finishManual => exact absurd trivial h
  all_goals simp [threadStmt, stepsTo]

theorem threadStep_handler (env : Env) (p : Printer n m) : (threadStep file env p).handler = p.handler := by
  unfold threadStep
  by_cases hacts : p.pc.Acts
  · rcases hpc : p.pc with _ | _ | _ | _ | _ | _ | _ | cmd | _ | a | _ | a | a | a | a | _ | _
    case putManual => rfl
    case finishManual => rfl
    all_goals simp [hpc, ThreadPc.Acts] at hacts
  · exact (threadStmt_request file env p hacts).2.1

theorem AllPutBut.unique {a b : ManualAction} {log : List LogEntry} (ha : AllPutBut a log) (hb : AllPutBut b log) :
    a = b := by
  obtain ⟨as, h1, -⟩ := ha
  obtain ⟨bs, h2, -⟩ := hb
  rw [h1] at h2
  exact List.singleton_inj.mp (List.append_inj' h2 rfl).2

theorem AllPut.not_but {a : ManualAction} {log : List LogEntry} (h : AllPut log) : ¬ AllPutBut a log := by
  rintro ⟨as, htaken, hputs⟩
  have hlen := congrArg List.length h
  rw [htaken, hputs] at hlen
  simp at hlen

/-- A request is no more than `k` statements from its command, and no message is being handled. -/
structure Near (k : ℕ) (p : Printer n m) : Prop where
  phase : Phase p
  idle : p.handler = []
  near : ∀ a, AllPutBut a p.log → stepsTo a p.pc ≤ k

theorem Near.threadStep {k : ℕ} {p : Printer n m} (h : Near (k + 1) p) {env : Env} (hturn : InTurn p (.thread env)) :
    Near k (threadStep file env p) := by
  have hphase := h.phase.threadStep file hturn
  refine ⟨hphase, (threadStep_handler env p).trans h.idle, ?_⟩
  intro b hb
  rcases h.phase with ⟨hm, hacts, hput, -⟩ | ⟨a, -, -, -, before, hbefore, -⟩ | ⟨a, hm, hfor, hbut, hst, -⟩ |
    ⟨a, -, hpc, hput, -⟩
  · obtain ⟨-, -, -, hlog⟩ := threadStmt_request file env p hacts
    refine absurd hb ?_
    rcases hlog with hlog | ⟨e, hlog, ht, hp⟩
    · exact (show AllPut (Print.threadStep file env p).log from hlog ▸ hput).not_but
    · exact (show AllPut (Print.threadStep file env p).log from hlog ▸ hput.other ht hp).not_but
  · rw [h.idle] at hbefore
    simp at hbefore
  · by_cases hacts : p.pc.Acts
    · rcases hpc : p.pc with _ | _ | _ | _ | _ | _ | _ | cmd | _ | c | _ | c | c | c | c | _ | _
      case putManual =>
        obtain rfl := hfor.2.1 c hpc
        have hput : AllPut (Print.threadStep file env p).log := by
          unfold Print.threadStep
          rw [hpc]
          exact hbut.put
        exact absurd hb hput.not_but
      case finishManual => exact absurd hpc (hfor.2.2 c)
      all_goals simp [hpc, ThreadPc.Acts] at hacts
    · have hbut' : AllPutBut a (Print.threadStep file env p).log := by
        obtain ⟨-, -, -, hlog⟩ := threadStmt_request file env p hacts
        rcases hlog with hlog | ⟨e, hlog, ht, hp⟩
        · exact hlog ▸ hbut
        · exact hlog ▸ hbut.other ht hp
      obtain rfl := hbut'.unique hb
      have hlt := stepsTo_threadStmt file env hm hst hfor hacts
      have hle := h.near a hbut
      exact Nat.le_of_lt_succ (lt_of_lt_of_le hlt hle)
  · have hlog : (Print.threadStep file env p).log = p.log := by
      unfold Print.threadStep
      rw [hpc]
      rfl
    exact absurd hb (show AllPut (Print.threadStep file env p).log from hlog ▸ hput).not_but

/-- The print thread alone brings the command of every request. -/
theorem Near.threadSteps {k : ℕ} {p : Printer n m} (h : Near k p) {es : List PrintEvent} (hlen : k ≤ es.length)
    (hes : ∀ e ∈ es, ∃ env, e = .thread env)
    (hturn : AllSteps (PrintEvent.apply file) (fun p e => e.Enabled p ∧ InTurn p e) p es) :
    AllPut (afterPrint file p es).log := by
  induction es generalizing k p with
  | nil =>
    obtain rfl : k = 0 := by simpa using hlen
    rcases h.phase.inOrder with hput | ⟨a, hbut⟩
    · exact hput
    · exact absurd (h.near a hbut) (by have := (stepsTo_bounds a p.pc).1; omega)
  | cons e es ih =>
    obtain ⟨env, rfl⟩ := hes e List.mem_cons_self
    have hnear : Near (k - 1 + 1) p := ⟨h.phase, h.idle, fun a ha => (h.near a ha).trans (by omega)⟩
    refine ih (hnear.threadStep hturn.1.2) ?_ (fun e he => hes e (List.mem_cons_of_mem _ he)) hturn.2
    simp only [List.length_cons] at hlen
    omega

end Alone

/-! ## Runs -/

section ActionRuns

variable {n m : ℕ}

/-- **No pause, resume or stop is lost** in a run whose steps are taken in turn, whatever their order: the commands put
are those of the messages, in order, up to the last one; and that one is put as well when no message is being handled
and the print thread runs on for 14 statements. -/
theorem manual_actions (file : List UInt8) (bed : Heater.HeaterManager)
    (hotEndArr : Fin (n + 1) → Heater.HeaterManager) (pwmFan : Fin m → ℤ) (es ts : List PrintEvent)
    (hturn : AllSteps (PrintEvent.apply file) (fun p e => e.Enabled p ∧ InTurn p e)
      (constructedPrinter bed hotEndArr pwmFan) (es ++ ts))
    (hts : ∀ e ∈ ts, ∃ env, e = .thread env) :
    let p := afterPrint file (constructedPrinter bed hotEndArr pwmFan) es
    ActionsInOrder p.log ∧ (p.handler = [] → 14 ≤ ts.length → AllPut (afterPrint file p ts).log) := by
  obtain ⟨hes, hrest⟩ := (allSteps_append _ _ _ es ts).mp hturn
  have hphase : Phase (afterPrint file (constructedPrinter bed hotEndArr pwmFan) es) := by
    refine (Run.of_allSteps hes).invariant (constructedPrinter_phase bed hotEndArr pwmFan) ?_
    rintro p e q hp ⟨rfl, he, hok⟩
    exact hp.apply he hok
  refine ⟨hphase.inOrder, fun hidle hlen => ?_⟩
  exact Near.threadSteps ⟨hphase, hidle, fun a _ => (stepsTo_bounds a _).2⟩ hlen hts hrest

theorem manual_actions_pause :
    AllPut (afterPrint threeCmds (afterPrint threeCmds coldPrinter (handled .start ++ handled (.manual .pause)))
      (threadSteps 14)).log :=
  (manual_actions threeCmds _ _ _ (handled .start ++ handled (.manual .pause)) (threadSteps 14) (by decide +kernel)
    (fun e he => ⟨_, List.eq_of_mem_replicate he⟩)).2 (by decide +kernel) (by decide)

/-- **A pause is overwritten** by a resume that comes before the print thread acts: only M24 is put. -/
theorem pause_overwritten :
    AllSteps (PrintEvent.apply threeCmds) (fun p e => e.Enabled p) coldPrinter
        (handled .start ++ handled (.manual .pause) ++ handled (.manual .resume) ++ threadSteps 30) ∧
      takenActions (afterPrint threeCmds coldPrinter
        (handled .start ++ handled (.manual .pause) ++ handled (.manual .resume) ++ threadSteps 30)).log =
          [.pause, .resume] ∧
      manualPuts (afterPrint threeCmds coldPrinter
        (handled .start ++ handled (.manual .pause) ++ handled (.manual .resume) ++ threadSteps 30)).log =
          [text "M24"] ∧
      ¬ ActionsInOrder (afterPrint threeCmds coldPrinter
        (handled .start ++ handled (.manual .pause) ++ handled (.manual .resume) ++ threadSteps 30)).log := by
  have htaken : takenActions (afterPrint threeCmds coldPrinter
      (handled .start ++ handled (.manual .pause) ++ handled (.manual .resume) ++ threadSteps 30)).log =
        [.pause, .resume] := by decide +kernel
  have hputs : manualPuts (afterPrint threeCmds coldPrinter
      (handled .start ++ handled (.manual .pause) ++ handled (.manual .resume) ++ threadSteps 30)).log =
        [text "M24"] := by decide +kernel
  refine ⟨by decide +kernel, htaken, hputs, ?_⟩
  rintro (hput | ⟨a, as, h1, h2⟩)
  · unfold AllPut at hput
    rw [htaken, hputs] at hput
    exact absurd hput (by decide)
  · -- all but the resume would be the command of the pause
    rw [htaken] at h1
    rw [hputs] at h2
    obtain ⟨rfl, -⟩ := List.append_inj' (show [.pause] ++ [.resume] = as ++ [a] from h1) rfl
    exact absurd h2 (by decide)

end ActionRuns

end Cxsw.Print
