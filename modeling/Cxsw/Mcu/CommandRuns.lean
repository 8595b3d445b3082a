import Cxsw.Chelper.SerialLink
import Cxsw.Mcu.Command

/-!
# Cxsw.Mcu.CommandRuns — the commands of the host on the microcontroller (`serialqueue.c`, `command.c`)

Messages that are encoded commands go through the queues of the host, over a line that loses blocks, into the functions
of the firmware.

* `runBlocks`: the firmware's state behind the blocks it dispatches; `runAll`: behind commands.
* `commands_run_in_order`: they are the same, for the commands that were queued, each once and in order; a shutdown
  drops the rest of its block.
-/

namespace Cxsw.Link

/-! ## Blocks and their commands -/

section Defs

variable {σ : Type*}

namespace Board

variable (board : Board σ)

/-- Where a block leaves the firmware: a shutdown runs its own functions, and the rest of the block is dropped. -/
def settle (outcome : Outcome σ) : σ :=
  match outcome with
  | (s, none) => s
  | (s, some reason) => board.runShutdown reason s

/-- `command_dispatch` for one block after the other. -/
def runBlocks : List (List UInt8) → σ → Option σ
  | [], s => some s
  | block :: blocks, s =>
    match board.commandDispatch block s with
    | none => none
    | some outcome => runBlocks blocks (board.settle outcome)

/-- The commands of one block after those of the other. -/
def runAll : List (List (Issued σ)) → σ → σ
  | [], s => s
  | issued :: blocks, s => runAll blocks (board.settle (board.run issued s))

end Board

end Defs

/-! ## Runs -/

section Runs

open SerialQueue (seqByte payload)

variable {σ : Type*} {board : Board σ} {commands : List (Declared σ)} {b : UInt8} {s : SerialLink} {ls : List LinkEvent}
  {issue : QueueMessage → Issued σ}

theorem runBlocks_encoded (hindex : board.commandIndex = generateCommandsCode commands) (hfew : commands.length < 128)
    {blocks : List (ℕ × List (ℕ × QueueMessage))}
    (h : ∀ x ∈ blocks, ∀ qm ∈ x.2, (issue qm.2).Encoded commands qm.2.msg) (s : σ) :
    board.runBlocks (blocks.map blockOf) s = some (board.runAll (blocks.map fun x => x.2.map fun qm => issue qm.2)
      s) := by
  induction blocks generalizing s with
  | nil => rfl
  | cons x blocks ih =>
    obtain ⟨hx, hrest⟩ := List.forall_mem_cons.mp h
    have hall : List.Forall₂ (Issued.Encoded commands) (x.2.map fun qm => issue qm.2) (x.2.map fun qm => qm.2.msg) := by
      rw [List.forall₂_map_left_iff, List.forall₂_map_right_iff, List.forall₂_same]
      exact hx
    have hblock : blockOf x = frame (seqByte x.1) (x.2.map fun qm => qm.2.msg).flatten := by
      unfold blockOf payload
      rw [List.flatMap_def]
    rw [List.map_cons, List.map_cons, Board.runBlocks, hblock, dispatch_encoded hindex hfew hall, Board.runAll]
    exact ih hrest _

/-- **Every command is run once, with its values, in its place**: when the messages that are queued are encoded
commands, then along every run, whatever is lost or sent again, the firmware is in the state behind the commands of the
blocks that were made, from the first that it expected up to the last that it took, all of which it found as they were
encoded.  Where a command shuts the firmware down, the rest of its block is dropped, on both sides (`Board.settle`). -/
theorem commands_run_in_order (issue : QueueMessage → Issued σ)
    (hindex : board.commandIndex = generateCommandsCode commands) (hfew : commands.length < 128)
    (hb : b &&& ~~~messageSeqMask = messageDest) (h : Run LinkStep (SerialLink.start b) ls s)
    (hissue : ∀ q, ∀ qm ∈ queued q ls, (issue qm).Encoded commands qm.msg) (s₀ : σ) :
    ∃ before done after, s.host.log = before ++ done ++ after ∧ (∀ x ∈ before, x.1 < firstSeq b) ∧
      (∀ x ∈ after, blockOf x ∈ s.host.sq.sentQueue) ∧
      s.console.dispatched ++ s.console.dispatching.toList = (done.map blockOf).map contentsOf ∧
      board.runBlocks (done.map blockOf) s₀ =
        some (board.runAll (done.map fun x => x.2.map fun qm => issue qm.2) s₀) := by
  obtain ⟨before, done, after, hmade, hbefore, htaken, hafter⟩ := taken_of_run hb h
  refine ⟨before, done, after, hmade, hbefore, hafter, ?_, runBlocks_encoded hindex hfew (fun x hx qm hqm => ?_) s₀⟩
  · rw [htaken, List.map_map]
    exact List.map_congr_left fun x _ => (contentsOf_frame _ _).symm
  · -- the message is one of those that were queued on its command queue
    refine hissue qm.1 qm.2 ?_
    rw [← queued_of_run h qm.1]
    refine List.mem_append_left _ ?_
    have hlog : qm ∈ s.host.log.flatMap Prod.snd := by
      rw [hmade]
      exact List.mem_flatMap.mpr ⟨x, List.mem_append_left _ (List.mem_append_right _ hx), hqm⟩
    unfold ofQueue
    exact List.mem_map_of_mem (List.mem_filter.mpr ⟨hlog, by simp⟩)

/-- `identify` is queued while its block is not expected, and again. -/
def identifyEvents : List LinkEvent :=
  [.send 7 [⟨[1, 0, 5], 0, 0, 0⟩], .command ⟨0, 0, none⟩, .deliver, .hear, .send 7 [⟨[1, 5, 5], 0, 0, 0⟩],
    .command ⟨0, 0, none⟩, .deliver]

theorem commands_run_in_order_concreteCase : ∃ s, Run LinkStep (SerialLink.start 0x10) identifyEvents s ∧
    ∃ done : List (ℕ × List (ℕ × QueueMessage)), s.console.dispatching = some [1, 5, 5] ∧
      identifyBoard.runBlocks (done.map blockOf) [] =
        some (identifyBoard.runAll
          (done.map fun x => x.2.map fun qm =>
          ⟨0, identifyNoted, (qm.2.msg.drop 1).map fun z => .int z.toNat⟩) []) := by
  have h1 := (Run.nil (R := LinkStep) (SerialLink.start 0x10)).snoc (LinkStep.send 7 [⟨[1, 0, 5], 0, 0, 0⟩])
  have h2 := h1.snoc (@LinkStep.block _ _ ⟨0, 0, none⟩ _ _ rfl)
  have h3 := h2.snoc (@LinkStep.reject _ _ _ _ rfl rfl rfl)
  have h4 := h3.snoc (@LinkStep.hear _ _ _ rfl)
  have h5 := h4.snoc (LinkStep.send 7 [⟨[1, 5, 5], 0, 0, 0⟩])
  have h6 := h5.snoc (@LinkStep.block _ _ ⟨0, 0, none⟩ _ _ rfl)
  have h7 := h6.snoc (@LinkStep.accept _ _ _ _ rfl rfl rfl)
  obtain ⟨before, done, after, -, -, -, -, hrun⟩ := @commands_run_in_order _ identifyBoard _ _ _ _
    (fun qm => ⟨0, identifyNoted, (qm.msg.drop 1).map fun z => .int z.toNat⟩) rfl (by decide) (by decide) h7
    (fun q qm hqm => by
      have hencoded : ∀ m ∈ [QueueMessage.mk [1, 0, 5] 0 0 0, ⟨[1, 5, 5], 0, 0, 0⟩],
          Issued.Encoded [identifyNoted] ⟨0, identifyNoted, (m.msg.drop 1).map fun z => .int z.toNat⟩ m.msg := by
        intro m hm
        rcases List.mem_pair.mp hm with rfl | rfl
        · exact ⟨rfl, rfl, List.Forall₂.cons ⟨by decide,
            by decide⟩ (List.Forall₂.cons ⟨by decide, by decide⟩ List.Forall₂.nil)⟩
        · exact ⟨rfl, rfl, List.Forall₂.cons ⟨by decide,
            by decide⟩ (List.Forall₂.cons ⟨by decide, by decide⟩ List.Forall₂.nil)⟩
      rcases eq_or_ne 7 q with rfl | hq
      · exact hencoded qm hqm
      · simp [queued, hq] at hqm) []
  exact ⟨_, h7, done, rfl, hrun⟩

end Runs

end Cxsw.Link
