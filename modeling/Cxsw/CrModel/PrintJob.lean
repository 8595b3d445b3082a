import Mathlib.Data.List.Infix
import Cxsw.Lib.Run
import Cxsw.CrModel.PrintThread

/-!
# Cxsw.CrModel.PrintJob — the command stream of a print job (`CrModel/CrPrinter.cpp`)

The position in the print file is the global descriptor `FileFd`, which the print thread opens when it reads with the
descriptor closed and closes at the end of the file.  No message touches it.

* `StreamsOk`: what is put between a start and the next stop, or the end of the file, is a prefix of the file's
  commands.
* `Streams`: what has been put of a job, the command in hand and the rest of the file are all of the file's commands.
* `StreamInv.apply`: every step keeps that, if a start finds the file closed.
* `job_stream`: so every run in which each start finds the file closed has its streams in order.
* `restart_mid_file`: a start after a stop.
-/

namespace Cxsw.Print

open CString

/-! ## Streams -/

section Streams

/-- The commands of a file that a print puts into the ring: it acts on M108 at once. -/
def ringCmds (file : List UInt8) : List (List UInt8) :=
  (print queueMsgSize file).1.filter (· ≠ stopWaitingHeatingCmd)

/-- The file commands among the entries of a record. -/
def filePuts (log : List LogEntry) : List (List UInt8) :=
  log.filterMap fun
    | .put .file cmd => some cmd
    | _ => none

/-- The entries behind which a job does not go on. -/
def LogEntry.EndsJob : LogEntry → Prop
  | .received (.manual .stop) => True
  | .ended => True
  | _ => False

/-- **The stream of every job**: what is put between a start and the next stop, or the end of the file, is a prefix of
the file's commands. -/
def StreamsOk (file : List UInt8) (log : List LogEntry) : Prop :=
  ∀ pre seg post, log = pre ++ .received .start :: seg ++ post → (∀ e ∈ seg, ¬ e.EndsJob) →
    filePuts seg <+: ringCmds file

/-- What is still to come, `coming`, completes every job that has not ended. -/
def Streams (file : List UInt8) (coming : List (List UInt8)) (log : List LogEntry) : Prop :=
  ∀ pre seg, log = pre ++ .received .start :: seg → (∀ e ∈ seg, ¬ e.EndsJob) → filePuts seg ++ coming = ringCmds file

variable {file : List UInt8} {coming : List (List UInt8)} {log : List LogEntry}

theorem filePuts_append (as bs : List LogEntry) : filePuts (as ++ bs) = filePuts as ++ filePuts bs :=
  List.filterMap_append

/-- A job of a longer record: it starts with the new entry, or the new entry continues it. -/
theorem snoc_eq_iff {e : LogEntry} {pre seg : List LogEntry} :
    log ++ [e] = pre ++ .received .start :: seg ↔
      (e = .received .start ∧ pre = log ∧ seg = []) ∨
        ∃ seg', seg = seg' ++ [e] ∧ log = pre ++ .received .start :: seg' := by
  constructor
  · intro h
    rcases List.eq_nil_or_concat seg with rfl | ⟨seg', e', rfl⟩
    · obtain ⟨h1, h2⟩ := List.append_inj' h rfl
      exact Or.inl ⟨(List.cons.inj h2).1, h1.symm, rfl⟩
    · rw [List.concat_eq_append, ← List.cons_append, ← List.append_assoc] at h
      obtain ⟨h1, h2⟩ := List.append_inj' h rfl
      obtain rfl := List.singleton_inj.mp h2
      exact Or.inr ⟨seg', List.concat_eq_append, h1⟩
  · rintro (⟨rfl, rfl, rfl⟩ | ⟨seg', rfl, rfl⟩)
    · rfl
    · simp

/-- An entry that is no command of the file and does not start a job. -/
theorem Streams.other {e : LogEntry} (h : Streams file coming log) (hs : e ≠ .received .start)
    (hp : filePuts [e] = []) : Streams file coming (log ++ [e]) := by
  intro pre seg hlog hseg
  rcases snoc_eq_iff.mp hlog with ⟨he, -⟩ | ⟨seg', rfl, hlog'⟩
  · exact absurd he hs
  · rw [filePuts_append, hp, List.append_nil]
    exact h pre seg' hlog' fun e' he' => hseg e' (List.mem_append_left _ he')

theorem Streams.put {cmd : List UInt8} (h : Streams file (cmd :: coming) log) :
    Streams file coming (log ++ [.put .file cmd]) := by
  intro pre seg hlog hseg
  rcases snoc_eq_iff.mp hlog with ⟨he, -⟩ | ⟨seg', rfl, hlog'⟩
  · exact absurd he (by simp)
  · rw [filePuts_append, List.append_assoc]
    exact h pre seg' hlog' fun e' he' => hseg e' (List.mem_append_left _ he')

theorem Streams.start (h : Streams file coming log) (hc : coming = ringCmds file) :
    Streams file coming (log ++ [.received .start]) := by
  intro pre seg hlog hseg
  rcases snoc_eq_iff.mp hlog with ⟨-, -, rfl⟩ | ⟨seg', rfl, hlog'⟩
  · exact hc
  · rw [filePuts_append]
    show filePuts seg' ++ [] ++ coming = _
    rw [List.append_nil]
    exact h pre seg' hlog' fun e' he' => hseg e' (List.mem_append_left _ he')

theorem Streams.ends {e : LogEntry} (he : e.EndsJob) : Streams file coming (log ++ [e]) := by
  intro pre seg hlog hseg
  rcases snoc_eq_iff.mp hlog with ⟨rfl, -⟩ | ⟨seg', rfl, -⟩
  · exact absurd he id
  · exact absurd he (hseg e (List.mem_append_right _ (List.mem_singleton_self e)))

theorem streamsOk_nil : StreamsOk file [] := by
  intro pre seg post h
  simp at h

theorem StreamsOk.snoc {e : LogEntry} (h : StreamsOk file log) (hs : Streams file coming (log ++ [e])) :
    StreamsOk file (log ++ [e]) := by
  intro pre seg post hlog hseg
  rcases List.eq_nil_or_concat post with rfl | ⟨post', e', rfl⟩
  · rw [List.append_nil] at hlog
    rw [← hs pre seg hlog hseg]
    exact List.prefix_append _ _
  · rw [List.concat_eq_append, ← List.append_assoc] at hlog
    exact h pre seg post' (List.append_inj' hlog rfl).1 hseg

end Streams

/-! ## The invariant -/

section Inv

variable {n m : ℕ} {file : List UInt8}

/-- The command in hand, unless it is acted on at once. -/
def inHand : ThreadPc → List (List UInt8)
  | .inHand cmd => if cmd = stopWaitingHeatingCmd then [] else [cmd]
  | _ => []

/-- What is still to come: the command in hand, and those of the rest of the file. -/
def coming (file : List UInt8) (p : Printer n m) : List (List UInt8) := inHand p.pc ++ ringCmds (p.fileFd.getD file)

/-- The streams are in order, what is to come completes them, and a command is in hand only while the file is open. -/
structure StreamInv (file : List UInt8) (p : Printer n m) : Prop where
  ok : StreamsOk file p.log
  streams : Streams file (coming file p) p.log
  hand : ∀ cmd, p.pc = .inHand cmd → p.fileFd.isSome

/-- A step that leaves the record, what is to come and the file as they are. -/
theorem StreamInv.same {p q : Printer n m} (h : StreamInv file p) (hlog : q.log = p.log)
    (hcoming : coming file q = coming file p) (hhand : ∀ cmd, q.pc ≠ .inHand cmd) : StreamInv file q := by
  refine ⟨?_, ?_, ?_⟩
  · rw [hlog]
    exact h.ok
  · rw [hlog, hcoming]
    exact h.streams
  · intro cmd hc
    exact absurd hc (hhand cmd)

theorem StreamInv.snoc {p q : Printer n m} (h : StreamInv file p) {e : LogEntry} (hlog : q.log = p.log ++ [e])
    (hs : Streams file (coming file q) (p.log ++ [e])) (hhand : ∀ cmd, q.pc = .inHand cmd → q.fileFd.isSome) :
    StreamInv file q := by
  refine ⟨?_, ?_, hhand⟩
  · rw [hlog]
    exact h.ok.snoc hs
  · rw [hlog]
    exact hs

theorem ringCmds_cons (rest : List UInt8) (h : (readCmdFromFile queueMsgSize rest).1 ≠ []) :
    ringCmds rest =
      inHand (.inHand (readCmdFromFile queueMsgSize rest).1) ++ ringCmds (readCmdFromFile queueMsgSize rest).2 := by
  unfold ringCmds
  rw [print_of_ne h, List.filter_cons]
  unfold inHand
  split_ifs with h1 <;> simp_all

/-- A call that returns a command has read it from the open file, and leaves it open. -/
theorem readPrintFile_cmd {opens fails : Bool} {fileFd : Option (List UInt8)} {c : UInt8} {cmd : List UInt8}
    (h : (readPrintFile file opens fails fileFd).1 = some (c :: cmd)) :
    (readCmdFromFile queueMsgSize (fileFd.getD file)).1 = c :: cmd ∧
      (readPrintFile file opens fails fileFd).2 = some (readCmdFromFile queueMsgSize (fileFd.getD file)).2 := by
  have hopen : ∀ rest, (fileFd <|> if opens then some file else none) = some rest → fileFd.getD file = rest := by
    intro rest hr
    rcases fileFd with _ | fd
    · rcases opens with _ | _
      · simp at hr
      · simpa using hr
    · simpa using hr
  unfold readPrintFile at h ⊢
  rcases hfd : (fileFd <|> if opens then some file else none) with _ | rest
  · simp [hfd] at h
  · rw [hopen rest hfd]
    simp only [hfd] at h ⊢
    split_ifs at h ⊢
    · simp at h
    · exact ⟨Option.some.inj h, rfl⟩

/-- The places whose statement neither reads the file nor puts a command. -/
def ThreadPc.Quiet : ThreadPc → Prop
  | .readCmd => False
  | .inHand _ => False
  | .putManual _ => False
  | .uart => False
  | _ => True

theorem threadStmt_quiet (file : List UInt8) (env : Env) (p : Printer n m) {pc : ThreadPc} (h : pc.Quiet) :
    (threadStmt file env p pc).log = p.log ∧ (threadStmt file env p pc).fileFd = p.fileFd ∧
      ∀ cmd, (threadStmt file env p pc).pc ≠ .inHand cmd := by
  rcases pc with _ | _ | _ | _ | _ | _ | _ | cmd | _ | a | _ | a | a | a | a | _ | _
  all_goals simp only [ThreadPc.Quiet] at h
  case testPrinting => simp only [threadStmt]; split_ifs <;> simp
  case testStatus =>
    rcases a with _ | _ | _
    all_goals simp only [threadStmt]; split_ifs <;> simp
  case testManual => simp only [threadStmt]; split_ifs <;> simp
  case testTimeOut =>
    rw [threadStmt_testTimeOut]
    rcases timeOutPart_cases env p with hpart | hpart
    all_goals
      rw [hpart]
      exact ⟨rfl, rfl, by simp⟩
  all_goals simp [threadStmt, stopPrint]

theorem inHand_of_ne {pc : ThreadPc} (h : ∀ cmd, pc ≠ .inHand cmd) : inHand pc = [] := by
  unfold inHand
  split
  · exact absurd rfl (h _)
  · rfl

/-- A read: the command goes from the rest of the file into the hand, or the job has come to its end. -/
theorem StreamInv.readCmd {p : Printer n m} (h : StreamInv file p) (hpc : p.pc = .readCmd) (env : Env) :
    StreamInv file (threadStmt file env p .readCmd) := by
  rcases hread : (readPrintFile file env.opens env.fails p.fileFd).1 with _ | _ | ⟨c, cmd⟩
  · refine h.snoc (e := .ended) ?_ (Streams.ends trivial) ?_ <;> simp [threadStmt, hread]
  · refine h.snoc (e := .ended) ?_ (Streams.ends trivial) ?_ <;> simp [threadStmt, hread]
  · obtain ⟨hcmd, hfd⟩ := readPrintFile_cmd hread
    have hstep : threadStmt file env p .readCmd =
        { p with
          fileFd := some (readCmdFromFile queueMsgSize (p.fileFd.getD file)).2
          pc := .inHand (c :: cmd) } := by
      simp [threadStmt, hread, hfd]
    have hcoming : coming file (threadStmt file env p .readCmd) = coming file p := by
      rw [hstep]
      unfold coming
      rw [hpc, ringCmds_cons (p.fileFd.getD file) (by rw [hcmd]; simp), hcmd]
      rfl
    refine ⟨?_, ?_, ?_⟩
    · rw [hstep]
      exact h.ok
    · rw [hcoming, hstep]
      exact h.streams
    · intro _ _
      rw [hstep]
      rfl

theorem StreamInv.putFile {p : Printer n m} (h : StreamInv file p) {cmd : List UInt8} (hpc : p.pc = .inHand cmd)
    (env : Env) : StreamInv file (threadStmt file env p (.inHand cmd)) := by
  have hs := h.streams
  unfold coming at hs
  rw [hpc] at hs
  unfold threadStmt
  dsimp only
  split_ifs with hm
  · refine h.same rfl ?_ (by simp)
    simp [coming, hpc, inHand, hm]
  · refine h.snoc (e := .put .file cmd) rfl (Streams.put ?_) (by simp)
    simpa [coming, inHand, hm, putGcodeCmd] using hs

theorem StreamInv.putOther {p q : Printer n m} (h : StreamInv file p) (source : Source) {cmd : List UInt8}
    (hsrc : source ≠ .file) (hlog : q.log = p.log ++ [.put source cmd]) (hfd : q.fileFd = p.fileFd)
    (hp : ∀ c, p.pc ≠ .inHand c) (hq : ∀ c, q.pc ≠ .inHand c) : StreamInv file q := by
  have hcoming : coming file q = coming file p := by
    unfold coming
    rw [inHand_of_ne hp, inHand_of_ne hq, hfd]
  refine h.snoc (e := .put source cmd) hlog ?_ fun c hc => absurd hc (hq c)
  rw [hcoming]
  refine h.streams.other (by simp) ?_
  rcases source with _ | _ | _
  · exact absurd rfl hsrc
  · rfl
  · rfl

/-- **A statement of the print thread.** -/
theorem StreamInv.threadStep {p : Printer n m} (h : StreamInv file p) (env : Env) :
    StreamInv file (threadStep file env p) := by
  unfold Print.threadStep
  rcases hpc : p.pc with _ | _ | _ | _ | _ | _ | _ | cmd | _ | a | _ | a | a | a | a | _ | _
  case readCmd => exact h.readCmd hpc env
  case inHand => exact h.putFile hpc env
  case putManual => exact h.putOther .manual (by simp) rfl rfl (by simp [hpc]) (by simp [threadStmt])
  case uart =>
    unfold threadStmt
    rcases env.uartCmd with _ | cmd
    · exact h.same rfl (by simp [coming, hpc, inHand]) (by simp)
    · exact h.putOther .uart (by simp) rfl rfl (by simp [hpc]) (by simp)
  all_goals
    obtain ⟨hlog, hfd, hhand⟩ := threadStmt_quiet file env p (show p.pc.Quiet by simp [hpc, ThreadPc.Quiet])
    rw [hpc] at hlog hfd hhand
    refine h.same hlog ?_ hhand
    unfold coming
    rw [inHand_of_ne hhand, hfd, hpc]
    rfl

/-- The handler and the executed commands touch neither the file nor what the print thread has in hand. -/
theorem handlerStep_frame (tick : ℕ) (p : Printer n m) :
    (handlerStep tick p).log = p.log ∧ (handlerStep tick p).fileFd = p.fileFd ∧ (handlerStep tick p).pc = p.pc := by
  unfold handlerStep
  rcases p.handler with _ | ⟨stmt, rest⟩
  · exact ⟨rfl, rfl, rfl⟩
  · cases stmt <;> exact ⟨rfl, rfl, rfl⟩

theorem StreamInv.frame {p q : Printer n m} (h : StreamInv file p)
    (hq : q.log = p.log ∧ q.fileFd = p.fileFd ∧ q.pc = p.pc) : StreamInv file q := by
  obtain ⟨hlog, hfd, hpc⟩ := hq
  refine ⟨?_, ?_, ?_⟩
  · rw [hlog]
    exact h.ok
  · unfold coming
    rw [hlog, hfd, hpc]
    exact h.streams
  · rw [hfd, hpc]
    exact h.hand

/-- A message is taken up: a start needs the file closed. -/
theorem StreamInv.receive {p : Printer n m} (h : StreamInv file p) {msg : PrintCmd}
    (hstart : msg = .start → p.fileFd = none) : StreamInv file (receive p msg) := by
  refine h.snoc (e := .received msg) rfl ?_ h.hand
  rcases msg with _ | a
  · refine Streams.start h.streams ?_
    have hclosed := hstart rfl
    have hnot : ∀ cmd, p.pc ≠ .inHand cmd := by
      intro cmd hc
      have hopen := h.hand cmd hc
      rw [hclosed] at hopen
      simp at hopen
    show inHand p.pc ++ ringCmds (p.fileFd.getD file) = _
    rw [inHand_of_ne hnot, hclosed]
    rfl
  · exact Streams.other h.streams (by simp) rfl

end Inv

/-! ## Runs -/

section Runs

variable {n m : ℕ} {file : List UInt8}

/-- The condition of a step: a start is taken up while the file is closed. -/
def StartsClosed (p : Printer n m) : PrintEvent → Prop
  | .message .start => p.fileFd = none
  | _ => True

instance (p : Printer n m) : (e : PrintEvent) → Decidable (StartsClosed p e)
  | .message .start => inferInstanceAs (Decidable (p.fileFd = none))
  | .message (.manual _) => isTrue trivial
  | .thread _ => isTrue trivial
  | .handler _ => isTrue trivial
  | .exec _ => isTrue trivial

theorem StreamInv.apply {p : Printer n m} (h : StreamInv file p) {e : PrintEvent} (hok : StartsClosed p e) :
    StreamInv file (PrintEvent.apply file p e) := by
  rcases e with env | msg | tick | cmd
  · exact h.threadStep env
  · refine h.receive fun hm => ?_
    rw [hm] at hok
    exact hok
  · exact h.frame (handlerStep_frame tick p)
  · exact h.frame ⟨rfl, rfl, rfl⟩

theorem constructedPrinter_streamInv (bed : Heater.HeaterManager) (hotEndArr : Fin (n + 1) → Heater.HeaterManager)
    (pwmFan : Fin m → ℤ) : StreamInv file (constructedPrinter bed hotEndArr pwmFan) := by
  refine ⟨streamsOk_nil, ?_, ?_⟩
  · intro pre seg h
    simp [constructedPrinter] at h
  · intro cmd h
    simp [constructedPrinter] at h

/-- **The command stream of every job is in order** in every run in which each start finds the file closed, whatever
the order of messages, statements and executed commands. -/
theorem job_stream (file : List UInt8) (bed : Heater.HeaterManager) (hotEndArr : Fin (n + 1) → Heater.HeaterManager)
    (pwmFan : Fin m → ℤ) (es : List PrintEvent)
    (h : AllSteps (PrintEvent.apply file) (fun p e => e.Enabled p ∧ StartsClosed p e)
      (constructedPrinter bed hotEndArr pwmFan) es) :
    StreamsOk file (afterPrint file (constructedPrinter bed hotEndArr pwmFan) es).log := by
  have hinv : StreamInv file (afterPrint file (constructedPrinter bed hotEndArr pwmFan) es) := by
    refine (Run.of_allSteps h).invariant (constructedPrinter_streamInv bed hotEndArr pwmFan) ?_
    rintro p e q hp ⟨rfl, -, hok⟩
    exact hp.apply hok
  exact hinv.ok

/-- A print file of three commands. -/
def threeCmds : List UInt8 := text "G28\nG1 X1\nG1 X2\n"

/-- A printer with one hot end and one fan, all off. -/
def coldPrinter : Printer 0 1 :=
  constructedPrinter (Heater.constructed 0 .idle ⟨0, 0⟩ 0 0) (fun _ => Heater.constructed 0 .idle ⟨0, 0⟩ 0 0) fun _ => 0

/-- `k` statements of the print thread. -/
def threadSteps (k : ℕ) : List PrintEvent := List.replicate k (.thread ⟨1000, 0, true, false, none⟩)

/-- A message is taken up and handled. -/
def handled (msg : PrintCmd) : List PrintEvent :=
  .message msg :: List.replicate (handlerBody msg).length (.handler 1000)

/-- A print of all of the file, with a pause. -/
def wholePrint : List PrintEvent :=
  handled .start ++ threadSteps 7 ++ handled (.manual .pause) ++ threadSteps 8 ++ handled (.manual .resume) ++
    threadSteps 9 ++ [.exec .m24] ++ threadSteps 14

theorem job_stream_wholePrint :
    filePuts (afterPrint threeCmds coldPrinter wholePrint).log = [text "G28", text "G1 X1", text "G1 X2"] ∧
      StreamsOk threeCmds (afterPrint threeCmds coldPrinter wholePrint).log :=
  ⟨by decide +kernel, job_stream threeCmds _ _ _ wholePrint (by decide +kernel)⟩

/-- A print that is stopped after its first command, and started again. -/
def restarted : List PrintEvent :=
  handled .start ++ threadSteps 7 ++ handled (.manual .stop) ++ threadSteps 11 ++ handled .start ++ threadSteps 4

/-- **A start after a stop goes on in the middle of the file**, as the stop leaves it open. -/
theorem restart_mid_file :
    AllSteps (PrintEvent.apply threeCmds) (fun p e => e.Enabled p) coldPrinter restarted ∧
      (afterPrint threeCmds coldPrinter restarted).log =
        [.received .start, .put .file (text "G28"), .received (.manual .stop), .put .manual (text "M524"),
          .received .start, .put .file (text "G1 X1")] ∧
      ¬ StreamsOk threeCmds (afterPrint threeCmds coldPrinter restarted).log := by
  have hlog : (afterPrint threeCmds coldPrinter restarted).log =
      [.received .start, .put .file (text "G28"), .received (.manual .stop), .put .manual (text "M524"),
        .received .start, .put .file (text "G1 X1")] := by decide +kernel
  refine ⟨by decide +kernel, hlog, fun hok => ?_⟩
  rw [hlog] at hok
  have hread : readCmdFromFile queueMsgSize threeCmds = (text "G28", text "G1 X1\nG1 X2\n") := by decide +kernel
  have hprefix := hok [.received .start, .put .file (text "G28"), .received (.manual .stop), .put .manual (text "M524")]
    [.put .file (text "G1 X1")] [] rfl (by simp [LogEntry.EndsJob])
  rw [ringCmds_cons _ (by rw [hread]; decide), hread] at hprefix
  have hhead := List.cons_prefix_cons.mp (show text "G1 X1" :: [] <+: text "G28" :: _ from hprefix)
  exact absurd hhead.1 (by decide)

end Runs

end Cxsw.Print
