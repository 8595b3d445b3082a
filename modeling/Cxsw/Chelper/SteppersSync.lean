import Cxsw.Lib.MinHeap
import Cxsw.Lib.Run
import Cxsw.Lib.Slots
import Cxsw.Chelper.SerialQueue
import Cxsw.Chelper.StepCompress

/-!
# Cxsw.Chelper.SteppersSync — the order of the messages, and when they may go (`stepcompress.c`, `basecmd.c`)

The microcontroller has room for a number of moves that wait.  `steppersync_flush` takes the messages of all steppers
by their `req_clock`, and gives each the clock of the first slot that will be free; a move frees its slot when the one
before it ends.

* `heapReplace`, `SteppersSync.flush`: the host; `moveAlloc`, `moveFree`: the microcontroller.
* `gather_spec`: the loop of `steppersync_flush`.
* `flush_in_order`: the messages of a stepper keep their order, and none that may go stays behind.
* `batches_sorted`: the messages of all steppers are sent by their clocks.
* `Line`: the messages on their way and the moves that wait.
* `moves_never_overflow`: however the steppers and the host take turns, there is a slot for every move that arrives.
-/

namespace Cxsw.StepCompress

open Link (maxClock)

/-! ## The code -/

section Defs

/-- `struct steppersync`. -/
structure SteppersSync where
  scList : List Obj
  moveClocks : List ℕ

/-- `heap_replace`; a child behind the end has `UINT64_MAX`. -/
def heapReplace (moveClocks : List ℕ) (reqClock : ℕ) : List ℕ := MinHeap.replaceRoot uint64Max reqClock moveClocks

/-- A message that is sent: as it was, with the stepper it comes from, and its new `min_clock`. -/
structure Sent where
  stepper : ℕ
  qm : StepMessage
  nextAvail : ℕ
  deriving DecidableEq

namespace SteppersSync

/-- `steppersync_alloc`. -/
def alloc (scList : List Obj) (moveNum : ℕ) : SteppersSync := ⟨scList, List.replicate moveNum 0⟩

/-- The first loop of `steppersync_flush`. -/
def flushAll (moveClock : ℕ) : List Obj → Option (Bool × List Obj)
  | [] => some (true, [])
  | sc :: scList =>
    match sc.flush moveClock with
    | none => none
    | some (false, sc) => some (false, sc :: scList)
    | some (true, sc) => (flushAll moveClock scList).map fun r => (r.1, sc :: r.2)

/-- Find message with lowest reqclock: the stepper and the message. -/
def findLowest (scList : List Obj) : Option (ℕ × StepMessage) :=
  (scList.zipIdx.foldl (fun (best : ℕ × Option (ℕ × StepMessage)) sc =>
    match sc.1.msgQueue with
    | [] => best
    | m :: _ => if m.reqClock < best.1 then (m.reqClock, some (sc.2, m)) else best) (maxClock, none)).2

/-- `list_del` of the first message of a stepper. -/
def takeFirst (scList : List Obj) (i : ℕ) : List Obj :=
  scList.modify i fun sc => { sc with msgQueue := sc.msgQueue.tail }

/-- The second loop of `steppersync_flush`; every round takes a message. -/
def gather : ℕ → ℕ → SteppersSync → SteppersSync × List Sent
  | 0, _, ss => (ss, [])
  | fuel + 1, moveClock, ss =>
    match findLowest ss.scList with
    | none => (ss, [])
    | some (i, qm) =>
      if qm.minClock ≠ 0 ∧ qm.reqClock > moveClock then (ss, [])
      else
        let nextAvail := ss.moveClocks.getD 0 0
        let moveClocks := if qm.minClock ≠ 0 then heapReplace ss.moveClocks qm.minClock else ss.moveClocks
        let r := gather fuel moveClock ⟨takeFirst ss.scList i, moveClocks⟩
        (r.1, ⟨i, qm, nextAvail⟩ :: r.2)

/-- `steppersync_flush`: whether there is no error, and what is sent. -/
def flush (ss : SteppersSync) (moveClock : ℕ) : Option (Bool × SteppersSync × List Sent) :=
  (flushAll moveClock ss.scList).map fun r =>
    if r.1 then (true, gather ((r.2.map fun sc => sc.msgQueue.length).sum + 1) moveClock ⟨r.2, ss.moveClocks⟩)
    else (false, ⟨r.2, ss.moveClocks⟩, [])

end SteppersSync

/-- The calls for a stepper that do not reset its clock. -/
inductive StepperCall
  | append (sdir : Bool) (stepClock : ℕ)
  | commit
  | flush (moveClock : ℕ)
  | setLastPosition (clock : ℕ) (lastPosition : ℤ)
  | queueMsg (command : StepCommand)
  deriving DecidableEq

def StepperCall.run (sc : Obj) : StepperCall → Result
  | .append sdir stepClock => sc.append sdir stepClock
  | .commit => sc.commit
  | .flush moveClock => sc.flush moveClock
  | .setLastPosition clock lastPosition => sc.setLastPosition clock lastPosition
  | .queueMsg command => sc.queueMsg command

/-- A stepper is called, or all of them are flushed; with what is sent. -/
inductive SyncStep : SteppersSync → List Sent → SteppersSync → Prop
  | call {ss : SteppersSync} {i : ℕ} {sc sc' : Obj} {ok : Bool} (c : StepperCall) (hsc : ss.scList[i]? = some sc)
      (h : c.run sc = some (ok, sc')) : SyncStep ss [] { ss with scList := ss.scList.set i sc' }
  | flush {ss : SteppersSync} {moveClock : ℕ} {ok : Bool} {ss' : SteppersSync} {batch : List Sent}
      (h : ss.flush moveClock = some (ok, ss', batch)) : SyncStep ss batch ss'

/-! ### The microcontroller -/

/-- `move_alloc`: the slot, and `move_free_list`; `none` is the shutdown. -/
def moveAlloc : List ℕ → Option (ℕ × List ℕ)
  | [] => none
  | slot :: freeList => some (slot, freeList)

/-- `move_free`. -/
def moveFree (freeList : List ℕ) (slot : ℕ) : List ℕ := slot :: freeList

/-- The host, the messages on their way, and the moves that wait: each with its slot, and the clock at which the move
before it ends. -/
structure Line where
  ss : SteppersSync
  flight : List Sent
  now : ℕ
  freeList : List ℕ
  used : List (ℕ × ℕ)

/-- After `steppersync_alloc` and `move_reset`. -/
def Line.start (scList : List Obj) (moveNum : ℕ) : Line := ⟨.alloc scList moveNum, [], 0, List.range moveNum, []⟩

inductive LineEvent
  | steps
  | flush (moveClock : ℕ)
  | tick (now : ℕ)
  | free (slot : ℕ)
  | arrive
  deriving DecidableEq

def isMove : StepCommand → Bool
  | .queueStep _ => true
  | _ => false

/-- What can happen.  Whatever is called for a stepper, the clocks have 64 bits. -/
inductive LineStep : Line → LineEvent → Line → Prop
  | steps {l : Line} (scList : List Obj) : LineStep l .steps { l with ss := { l.ss with scList := scList } }
  | flush {l : Line} {moveClock : ℕ} {ok : Bool} {ss : SteppersSync} {batch : List Sent}
      (h : l.ss.flush moveClock = some (ok, ss, batch)) (hclock : ∀ s ∈ batch, s.qm.minClock ≤ uint64Max) :
      LineStep l (.flush moveClock) { l with ss := ss, flight := l.flight ++ batch }
  | tick {l : Line} {now : ℕ} (h : l.now ≤ now) : LineStep l (.tick now) { l with now := now }
  /-- A move is loaded, or its stepper is stopped. -/
  | free {l : Line} {m : ℕ × ℕ} (h : m ∈ l.used) :
      LineStep l (.free m.1) { l with freeList := moveFree l.freeList m.1, used := l.used.erase m }
  /-- Another command. -/
  | other {l : Line} {s : Sent} {flight : List Sent} (h : l.flight = s :: flight) (hmove : isMove s.qm.command = false)
      (hnow : s.nextAvail ≤ l.now) :
      LineStep l .arrive { l with flight := flight }
  /-- A move arrives, where every move that should be loaded is.  Without a `min_clock` no other move of its stepper
  waits, so it is loaded at once. -/
  | move {l : Line} {s : Sent} {flight : List Sent} {slot : ℕ} {freeList : List ℕ} (h : l.flight = s :: flight)
      (hmove : isMove s.qm.command = true) (hnow : s.nextAvail ≤ l.now) (hused : ∀ m ∈ l.used, l.now < m.2)
      (halloc : moveAlloc l.freeList = some (slot, freeList)) :
      LineStep l .arrive
        (if s.qm.minClock = 0 then { l with flight := flight, freeList := moveFree freeList slot }
        else { l with flight := flight, freeList := freeList, used := (slot, s.qm.minClock) :: l.used })

end Defs

/-! ## The order of the messages -/

section Order

variable {ss ss' : SteppersSync} {scList : List Obj} {batch : List Sent} {fuel moveClock : ℕ}

/-- The messages of a stepper. -/
def queueOf (scList : List Obj) (i : ℕ) : List StepMessage := (scList.map Obj.msgQueue).getD i []

/-- Those of a batch. -/
def ofStepper (i : ℕ) (batch : List Sent) : List StepMessage := (batch.filter fun s => s.stepper = i).map Sent.qm

/-- The search, when it went through some of the steppers. -/
theorem findLowest_loop (l : List (Obj × ℕ)) :
    let best := l.foldl (fun (best : ℕ × Option (ℕ × StepMessage)) sc =>
      match sc.1.msgQueue with
      | [] => best
      | m :: _ => if m.reqClock < best.1 then (m.reqClock, some (sc.2, m)) else best) (maxClock, none)
    best.1 ≤ maxClock ∧ (∀ sc ∈ l, ∀ m ∈ sc.1.msgQueue.head?, best.1 ≤ m.reqClock) ∧
      (best.2 = none → best.1 = maxClock) ∧
      ∀ i qm, best.2 = some (i, qm) → best.1 = qm.reqClock ∧ ∃ sc rest, (sc, i) ∈ l ∧ sc.msgQueue = qm :: rest := by
  induction l using List.reverseRecOn with
  | nil => exact ⟨le_refl _, fun sc hsc => absurd hsc List.not_mem_nil, fun _ => rfl, fun _ _ h => by cases h⟩
  | append_singleton l sc ih =>
    obtain ⟨h1, h2, h3, h4⟩ := ih
    simp only [List.foldl_append, List.foldl_cons, List.foldl_nil]
    generalize l.foldl _ _ = best at h1 h2 h3 h4 ⊢
    have hold : ∀ i qm, best.2 = some (i, qm) →
        best.1 = qm.reqClock ∧ ∃ sc' rest, (sc', i) ∈ l ++ [sc] ∧ sc'.msgQueue = qm :: rest := by
      intro i qm h
      obtain ⟨hreq, sc', rest, hmem, hq⟩ := h4 i qm h
      exact ⟨hreq, sc', rest, List.mem_append_left _ hmem, hq⟩
    cases hq : sc.1.msgQueue with
    | nil =>
      refine ⟨h1, fun sc' hsc' m hm => ?_, h3, hold⟩
      rcases List.mem_append.mp hsc' with hsc' | hsc'
      · exact h2 sc' hsc' m hm
      · rw [List.mem_singleton.mp hsc', hq] at hm
        cases hm
    | cons m rest =>
      by_cases hlt : m.reqClock < best.1
      · simp only [if_pos hlt]
        refine ⟨hlt.le.trans h1, fun sc' hsc' m' hm' => ?_, (fun h => by cases h), fun i qm h => ?_⟩
        · rcases List.mem_append.mp hsc' with hsc' | hsc'
          · exact hlt.le.trans (h2 sc' hsc' m' hm')
          · rw [List.mem_singleton.mp hsc', hq] at hm'
            cases hm'
            exact le_rfl
        · cases h
          exact ⟨rfl, sc.1, rest, List.mem_append_right _ (List.mem_singleton_self _), hq⟩
      · simp only [if_neg hlt]
        refine ⟨h1, fun sc' hsc' m' hm' => ?_, h3, hold⟩
        rcases List.mem_append.mp hsc' with hsc' | hsc'
        · exact h2 sc' hsc' m' hm'
        · rw [List.mem_singleton.mp hsc', hq] at hm'
          cases hm'
          exact not_lt.mp hlt

/-- **The search** finds the first message of a stepper, and no other first message has a lower `req_clock`. -/
theorem findLowest_some {i : ℕ} {qm : StepMessage} (h : SteppersSync.findLowest scList = some (i, qm)) :
    (∃ sc rest, scList[i]? = some sc ∧ sc.msgQueue = qm :: rest) ∧
      ∀ sc ∈ scList, ∀ m ∈ sc.msgQueue.head?, qm.reqClock ≤ m.reqClock := by
  obtain ⟨-, h2, -, h4⟩ := findLowest_loop scList.zipIdx
  obtain ⟨hreq, sc, rest, hmem, hq⟩ := h4 i qm h
  refine ⟨⟨sc, rest, List.mem_zipIdx_iff_getElem?.mp hmem, hq⟩, fun sc' hsc' m hm => ?_⟩
  obtain ⟨j, hj, rfl⟩ := List.mem_iff_getElem.mp hsc'
  rw [← hreq]
  exact h2 (scList[j], j) (List.mem_zipIdx_iff_getElem?.mpr (List.getElem?_eq_getElem hj)) m hm

theorem findLowest_none (h : SteppersSync.findLowest scList = none) :
    ∀ sc ∈ scList, ∀ m ∈ sc.msgQueue.head?, maxClock ≤ m.reqClock := by
  obtain ⟨-, h2, h3, -⟩ := findLowest_loop scList.zipIdx
  intro sc hsc m hm
  obtain ⟨j, hj, rfl⟩ := List.mem_iff_getElem.mp hsc
  rw [← h3 h]
  exact h2 (scList[j], j) (List.mem_zipIdx_iff_getElem?.mpr (List.getElem?_eq_getElem hj)) m hm

theorem queueOf_takeFirst (scList : List Obj) (i j : ℕ) :
    queueOf (SteppersSync.takeFirst scList i) j = if i = j then (queueOf scList j).tail else queueOf scList j := by
  unfold queueOf SteppersSync.takeFirst
  rw [List.getD_eq_getElem?_getD, List.getD_eq_getElem?_getD, List.getElem?_map, List.getElem?_map,
    List.getElem?_modify]
  split_ifs
  · cases scList[j]? <;> rfl
  · cases scList[j]? <;> rfl

/-- The number of messages. -/
def total (scList : List Obj) : ℕ := (scList.map fun sc => sc.msgQueue.length).sum

theorem total_takeFirst {i : ℕ} {sc : Obj} {qm : StepMessage} {rest : List StepMessage} (hsc : scList[i]? = some sc)
    (hq : sc.msgQueue = qm :: rest) : total (SteppersSync.takeFirst scList i) + 1 = total scList := by
  induction scList generalizing i with
  | nil => cases hsc
  | cons sc' scList ih =>
    unfold total at ih ⊢
    cases i with
    | zero =>
      cases hsc
      simp [SteppersSync.takeFirst, hq]
      omega
    | succ i =>
      have hrest := ih (i := i) hsc
      simp only [SteppersSync.takeFirst, List.modify_succ_cons, List.map_cons, List.sum_cons] at hrest ⊢
      omega

/-- **The loop of `steppersync_flush`**: every stepper's messages go in their order, until none may go. -/
theorem gather_spec (hfuel : total ss.scList < fuel) (hclock : moveClock < maxClock)
    (hrun : SteppersSync.gather fuel moveClock ss = (ss', batch)) :
    (∀ i, queueOf ss.scList i = ofStepper i batch ++ queueOf ss'.scList i) ∧
      ∀ sc ∈ ss'.scList, ∀ m ∈ sc.msgQueue.head?, moveClock < m.reqClock := by
  induction fuel generalizing ss ss' batch with
  | zero => exact absurd hfuel (Nat.not_lt_zero _)
  | succ fuel ih =>
    rw [SteppersSync.gather] at hrun
    cases hfind : SteppersSync.findLowest ss.scList with
    | none =>
      rw [hfind] at hrun
      cases hrun
      exact ⟨fun i => rfl, fun sc hsc m hm => hclock.trans_le (findLowest_none hfind sc hsc m hm)⟩
    | some r =>
      obtain ⟨i, qm⟩ := r
      obtain ⟨⟨sc, rest, hsc, hq⟩, hlow⟩ := findLowest_some hfind
      rw [hfind] at hrun
      by_cases hstop : qm.minClock ≠ 0 ∧ qm.reqClock > moveClock
      · simp only [if_pos hstop] at hrun
        cases hrun
        exact ⟨fun i => rfl, fun sc hsc m hm => hstop.2.trans_le (hlow sc hsc m hm)⟩
      · simp only [if_neg hstop] at hrun
        have htotal := total_takeFirst hsc hq
        generalize hnext : SteppersSync.gather fuel moveClock _ = r at hrun
        obtain ⟨ss1, batch1⟩ := r
        cases hrun
        obtain ⟨horder, hdone⟩ := ih (by simp only; omega) hnext
        refine ⟨fun j => ?_, hdone⟩
        have hj := horder j
        simp only [queueOf_takeFirst] at hj
        unfold ofStepper at hj ⊢
        rw [List.filter_cons]
        by_cases hij : i = j
        · subst hij
          have hqueue : queueOf ss.scList i = qm :: rest := by
            unfold queueOf
            rw [List.getD_eq_getElem?_getD, List.getElem?_map, hsc]
            exact hq
          rw [if_pos rfl, hqueue, List.tail_cons] at hj
          simp only [decide_true, if_true, List.map_cons, List.cons_append]
          rw [hqueue, hj]
        · rw [if_neg hij] at hj
          simp only [hij, decide_false, Bool.false_eq_true, if_false]
          exact hj

/-- **`steppersync_flush` keeps the order**: the messages of a stepper, behind those that the flush of the stepper
adds, are sent from the first on, and no message that may go stays behind. -/
theorem flush_in_order (hclock : moveClock < maxClock) (hrun : ss.flush moveClock = some (true, ss', batch)) :
    ∃ scList, SteppersSync.flushAll moveClock ss.scList = some (true, scList) ∧
      (∀ i, queueOf scList i = ofStepper i batch ++ queueOf ss'.scList i) ∧
      ∀ sc ∈ ss'.scList, ∀ m ∈ sc.msgQueue.head?, moveClock < m.reqClock := by
  obtain ⟨⟨ok, scList⟩, hflushed, heq⟩ := Option.map_eq_some_iff.mp hrun
  cases ok with
  | false => cases heq
  | true =>
    simp only [if_true, Prod.mk.injEq, true_and] at heq
    exact ⟨scList, hflushed, @gather_spec ⟨scList, ss.moveClocks⟩ _ _ _ _ (Nat.lt_succ_self _) hclock heq⟩

/-- A stepper with messages. -/
def withMessages (msgs : List StepMessage) : Obj := { Obj.init 0 false 0 (fun _ => none) with msgQueue := msgs }

/-- A message for a step, which is loaded at a clock. -/
def stepMessage (clock : ℕ) : StepMessage := ⟨.queueStep ⟨5, 1, 0⟩, clock, clock⟩

/-- Two steppers, with two slots for their moves. -/
def twoSteppers : SteppersSync := .alloc [withMessages [stepMessage 10, stepMessage 30],
    withMessages [stepMessage 20]] 2

theorem flush_in_order_concreteCase :
    ∃ ss batch, twoSteppers.flush 25 = some (true, ss, batch) ∧ batch.map Sent.stepper = [0, 1] ∧
      queueOf twoSteppers.scList 0 = ofStepper 0 batch ++ queueOf ss.scList 0 := by
  have hrun : twoSteppers.flush 25 = some (true, ⟨[withMessages [stepMessage 30], withMessages []], [10, 20]⟩,
      [⟨0, stepMessage 10, 0⟩, ⟨1, stepMessage 20, 0⟩]) := rfl
  obtain ⟨scList, hflushed, horder, -⟩ := flush_in_order (by decide) hrun
  cases hflushed
  exact ⟨_, _, hrun, rfl, horder 0⟩

end Order

/-! ## The order of the clocks -/

section Clocks

variable {ss ss' : SteppersSync} {sc sc' : Obj} {scList scList' : List Obj} {batch : List Sent}
  {fuel moveClock clock : ℕ}
  {m : StepMessage} {r : Result} {ok : Bool}

namespace Obj

/-- The messages of a stepper are in the order of their `req_clock`, and none is behind the last step. -/
structure Clocked (sc : Obj) : Prop where
  sorted : sc.msgQueue.Pairwise fun m m' => m.reqClock ≤ m'.reqClock
  last : ∀ m ∈ sc.msgQueue, m.reqClock ≤ sc.lastStepClock

theorem Clocked.of_eq (h : sc.Clocked) (hq : sc'.msgQueue = sc.msgQueue)
    (hclock : sc.lastStepClock ≤ sc'.lastStepClock) :
    sc'.Clocked := by
  refine ⟨by rw [hq]; exact h.sorted, fun m hm => ?_⟩
  rw [hq] at hm
  exact (h.last m hm).trans hclock

/-- A message is added. -/
theorem Clocked.snoc (h : sc.Clocked) (hq : sc'.msgQueue = sc.msgQueue ++ [m]) (hreq : sc.lastStepClock ≤ m.reqClock)
    (hlast : m.reqClock ≤ sc'.lastStepClock) : sc'.Clocked := by
  refine ⟨?_, fun m' hm' => ?_⟩
  · rw [hq, List.pairwise_append]
    refine ⟨h.sorted, List.pairwise_singleton _ _, fun m₁ h₁ m₂ h₂ => ?_⟩
    rw [List.mem_singleton.mp h₂]
    exact (h.last m₁ h₁).trans hreq
  · rw [hq] at hm'
    rcases List.mem_append.mp hm' with hold | hnew
    · exact ((h.last m' hold).trans hreq).trans hlast
    · rw [List.mem_singleton.mp hnew]
      exact hlast

theorem Clocked.calcLastStepPrintTime (h : sc.Clocked) : sc.calcLastStepPrintTime.Clocked := by
  unfold Obj.calcLastStepPrintTime
  cases sc.expire sc.lastStepClock with
  | none => exact h
  | some endClock => exact h.of_eq rfl le_rfl

/-- A move is added, the first step of which is not before the last step. -/
theorem Clocked.addMove (h : sc.Clocked) {firstClock : ℕ} (hle : sc.lastStepClock ≤ firstClock) (move : StepMove) :
    (sc.addMove firstClock move).Clocked := by
  refine h.snoc rfl ?_ ?_
  · show _ ≤ ite _ _ _
    split_ifs
    · exact hle
    · exact le_rfl
  · show ite _ _ _ ≤ firstClock + _
    split_ifs <;> omega

/-- Whatever a function returns, the messages are in order. -/
def Ordered (r : Result) : Prop := ∀ ok sc, r = some (ok, sc) → sc.Clocked

theorem Clocked.ordered (h : sc.Clocked) : Ordered (some (ok, sc)) := by
  intro ok' sc' heq
  cases heq
  exact h

theorem Ordered.andThen (hr : Ordered r) {f : Obj → Result} (hf : ∀ sc, sc.Clocked → Ordered (f sc)) :
    Ordered (andThen r f) := by
  cases r with
  | none => exact fun _ _ heq => absurd heq.symm (Option.some_ne_none _)
  | some r =>
    obtain ⟨ok, sc⟩ := r
    have hsc := hr ok sc rfl
    cases ok with
    | false => exact hsc.ordered
    | true => exact hf sc hsc

theorem Ordered.none : Ordered none := fun _ _ heq => absurd heq.symm (Option.some_ne_none _)

theorem Clocked.flushLoop (h : sc.Clocked) (fuel moveClock : ℕ) : Ordered (flushLoop fuel moveClock sc) := by
  induction fuel generalizing sc with
  | zero => exact h.ordered
  | succ fuel ih =>
    rw [Obj.flushLoop]
    by_cases hlt : sc.lastStepClock < moveClock
    · rw [if_pos hlt]
      cases compressBisectAdd sc.maxError (UInt32.ofNat sc.lastStepClock) sc.queue with
      | none => exact .none
      | some move =>
        have hmoved := h.addMove (Nat.le_add_right sc.lastStepClock move.interval.toNat) move
        simp only
        split_ifs
        · exact Clocked.ordered (hmoved.of_eq rfl le_rfl)
        · exact ih (hmoved.of_eq rfl le_rfl)
        · exact .none
        · exact h.ordered
    · rw [if_neg hlt]
      exact h.ordered

theorem Clocked.queueFlush (h : sc.Clocked) (moveClock : ℕ) : Ordered (sc.queueFlush moveClock) := by
  unfold Obj.queueFlush
  split_ifs
  · exact h.ordered
  · intro ok sc' heq
    obtain ⟨⟨ok', sc''⟩, hloop, heq⟩ := Option.map_eq_some_iff.mp heq
    have hloop' := h.flushLoop _ _ _ _ hloop
    cases ok' with
    | false =>
      cases heq
      exact hloop'
    | true =>
      cases heq
      exact hloop'.calcLastStepPrintTime

theorem Clocked.setNextStepDir (h : sc.Clocked) (sdir : Bool) : Ordered (sc.setNextStepDir sdir) := by
  unfold Obj.setNextStepDir
  split_ifs
  · exact h.ordered
  · refine Ordered.andThen (h.queueFlush _) fun sc hsc => Clocked.ordered ?_
    exact hsc.snoc rfl le_rfl le_rfl

theorem Clocked.push (h : sc.Clocked) (stepClock : ℕ) : Ordered (sc.push stepClock) := by
  unfold Obj.push
  split_ifs
  · exact (h.of_eq rfl le_rfl : Clocked { sc with queue := sc.queue ++ [UInt32.ofNat stepClock] }).ordered
  · exact .none

theorem Clocked.pushNext (h : sc.Clocked) : Ordered sc.pushNext :=
  Clocked.push (h.of_eq rfl le_rfl : Clocked { sc with nextStepClock := 0 }) sc.nextStepClock

theorem Clocked.queueAppendFar (h : sc.Clocked) : Ordered sc.queueAppendFar := by
  have h0 : Clocked { sc with nextStepClock := 0 } := h.of_eq rfl le_rfl
  refine Ordered.andThen (h0.queueFlush _) fun sc' hsc' => ?_
  split_ifs with hfar
  · exact ((hsc'.addMove ((Nat.le_add_right _ _).trans hfar) _).calcLastStepPrintTime).ordered
  · exact hsc'.push _

theorem Clocked.makeRoom (h : sc.Clocked) : sc.makeRoom.Clocked := by
  unfold Obj.makeRoom
  by_cases hfull : sc.offset + sc.queue.length ≥ sc.alloc
  · rw [if_pos hfull]
    by_cases hoffset : sc.offset > 0
    · rw [if_pos hoffset]
      exact h.of_eq rfl le_rfl
    · rw [if_neg hoffset]
      exact h.of_eq rfl le_rfl
  · rw [if_neg hfull]
    exact h

theorem Clocked.queueAppendExtend (h : sc.Clocked) : Ordered sc.queueAppendExtend := by
  refine Ordered.andThen ?_ fun sc' hsc' => hsc'.makeRoom.pushNext
  split_ifs
  · exact h.queueFlush _
  · exact h.ordered

theorem Clocked.queueAppend (h : sc.Clocked) : Ordered sc.queueAppend := by
  have hhere : ∀ sc : Obj, sc.Clocked → Ordered sc.queueAppendHere := by
    intro sc h
    unfold Obj.queueAppendHere
    split_ifs
    · exact h.queueAppendFar
    · exact h.queueAppendExtend
    · exact h.pushNext
  unfold Obj.queueAppend
  split_ifs
  · exact (h.setNextStepDir _).andThen hhere
  · exact hhere sc h

theorem Clocked.append (h : sc.Clocked) (sdir : Bool) (stepClock : ℕ) : Ordered (sc.append sdir stepClock) := by
  unfold Obj.append
  by_cases hback : sc.rollsBack sdir stepClock
  · rw [if_pos hback]
    exact Clocked.ordered (h.of_eq rfl le_rfl)
  · rw [if_neg hback]
    refine Ordered.andThen ?_ fun sc' hsc' => Clocked.ordered (hsc'.of_eq rfl le_rfl)
    split_ifs
    · exact h.queueAppend
    · exact h.ordered

theorem Clocked.commit (h : sc.Clocked) : Ordered sc.commit := by
  unfold Obj.commit
  split_ifs
  · exact h.queueAppend
  · exact h.ordered

theorem Clocked.flush (h : sc.Clocked) (moveClock : ℕ) : Ordered (sc.flush moveClock) :=
  Ordered.andThen (by split_ifs <;> [exact h.queueAppend; exact h.ordered]) fun _ hsc => hsc.queueFlush moveClock

theorem Clocked.setLastPosition (h : sc.Clocked) (clock : ℕ) (lastPosition : ℤ) :
    Ordered (sc.setLastPosition clock lastPosition) :=
  (h.flush uint64Max).andThen fun _ hsc => Clocked.ordered (hsc.of_eq rfl le_rfl)

theorem Clocked.queueMsg (h : sc.Clocked) (command : StepCommand) : Ordered (sc.queueMsg command) :=
  (h.flush uint64Max).andThen fun _ hsc => Clocked.ordered (hsc.snoc rfl le_rfl le_rfl)

end Obj

open Obj

theorem flushAll_clocked (h : ∀ sc ∈ scList, sc.Clocked)
    (hrun : SteppersSync.flushAll moveClock scList = some (ok, scList')) :
    ∀ sc ∈ scList', sc.Clocked := by
  induction scList generalizing ok scList' with
  | nil =>
    cases hrun
    exact h
  | cons sc scList ih =>
    rw [SteppersSync.flushAll] at hrun
    obtain ⟨hsc, hrest⟩ := List.forall_mem_cons.mp h
    cases hflush : sc.flush moveClock with
    | none =>
      rw [hflush] at hrun
      cases hrun
    | some r =>
      obtain ⟨ok', sc'⟩ := r
      have hsc' := hsc.flush moveClock ok' sc' hflush
      rw [hflush] at hrun
      cases ok' with
      | false =>
        cases hrun
        exact List.forall_mem_cons.mpr ⟨hsc', hrest⟩
      | true =>
        obtain ⟨⟨ok1, scList1⟩, hall, heq⟩ := Option.map_eq_some_iff.mp hrun
        cases heq
        exact List.forall_mem_cons.mpr ⟨hsc', ih hrest hall⟩

/-- What is left of the messages of a stepper. -/
theorem mem_takeFirst {i : ℕ} (h : sc ∈ SteppersSync.takeFirst scList i) :
    ∃ sc₀ ∈ scList, sc.msgQueue <:+ sc₀.msgQueue ∧ sc.lastStepClock = sc₀.lastStepClock := by
  obtain ⟨j, hj, rfl⟩ := List.mem_iff_getElem.mp h
  unfold SteppersSync.takeFirst at hj ⊢
  rw [List.length_modify] at hj
  rw [List.getElem_modify]
  refine ⟨scList[j], List.getElem_mem hj, ?_⟩
  split_ifs
  · exact ⟨List.tail_suffix _, rfl⟩
  · exact ⟨List.suffix_refl _, rfl⟩

theorem Obj.Clocked.suffix (h : sc.Clocked) (hq : sc'.msgQueue <:+ sc.msgQueue)
    (hclock : sc'.lastStepClock = sc.lastStepClock) :
    sc'.Clocked :=
  ⟨h.sorted.sublist hq.sublist, fun m hm => hclock ▸ h.last m (hq.mem hm)⟩

/-- The first message is the least one. -/
theorem Obj.Clocked.head_le (h : sc.Clocked) {c : ℕ} (hhead : ∀ m ∈ sc.msgQueue.head?, c ≤ m.reqClock) :
    ∀ m ∈ sc.msgQueue, c ≤ m.reqClock := by
  have hsorted := h.sorted
  cases hq : sc.msgQueue with
  | nil => exact fun m hm => absurd hm List.not_mem_nil
  | cons m₀ rest =>
    rw [hq] at hhead hsorted
    have h0 : c ≤ m₀.reqClock := hhead m₀ rfl
    exact List.forall_mem_cons.mpr ⟨h0, fun m hm => h0.trans ((List.pairwise_cons.mp hsorted).1 m hm)⟩

/-- **The loop of `steppersync_flush` merges**: what it takes is in order, and no clock that stays is lower. -/
theorem gather_sorted {low : ℕ} (h : ∀ sc ∈ ss.scList, sc.Clocked ∧ ∀ m ∈ sc.msgQueue, low ≤ m.reqClock)
    (hrun : SteppersSync.gather fuel moveClock ss = (ss', batch)) :
    batch.Pairwise (fun s t => s.qm.reqClock ≤ t.qm.reqClock) ∧
      (∀ s ∈ batch, low ≤ s.qm.reqClock ∧ ∀ sc ∈ ss'.scList, ∀ m ∈ sc.msgQueue, s.qm.reqClock ≤ m.reqClock) ∧
      ∀ sc ∈ ss'.scList, sc.Clocked ∧ ∀ m ∈ sc.msgQueue, low ≤ m.reqClock := by
  induction fuel generalizing ss ss' batch low with
  | zero =>
    cases hrun
    exact ⟨.nil, fun s hs => absurd hs List.not_mem_nil, h⟩
  | succ fuel ih =>
    rw [SteppersSync.gather] at hrun
    cases hfind : SteppersSync.findLowest ss.scList with
    | none =>
      rw [hfind] at hrun
      cases hrun
      exact ⟨.nil, fun s hs => absurd hs List.not_mem_nil, h⟩
    | some r =>
      obtain ⟨i, qm⟩ := r
      obtain ⟨⟨sc, rest, hsc, hq⟩, hlow⟩ := findLowest_some hfind
      rw [hfind] at hrun
      by_cases hstop : qm.minClock ≠ 0 ∧ qm.reqClock > moveClock
      · simp only [if_pos hstop] at hrun
        cases hrun
        exact ⟨.nil, fun s hs => absurd hs List.not_mem_nil, h⟩
      · simp only [if_neg hstop] at hrun
        generalize hnext : SteppersSync.gather fuel moveClock _ = r at hrun
        obtain ⟨ss1, batch1⟩ := r
        cases hrun
        have hqm : low ≤ qm.reqClock := (h sc (List.mem_of_getElem? hsc)).2 qm (by rw [hq]; exact List.mem_cons_self)
        -- the message is the least of all, so that it is a bound for the others
        have hleast : ∀ sc' ∈ SteppersSync.takeFirst ss.scList i, sc'.Clocked ∧
            ∀ m ∈ sc'.msgQueue, qm.reqClock ≤ m.reqClock := by
          intro sc' hsc'
          obtain ⟨sc₀, hmem, hsuffix, hclock⟩ := mem_takeFirst hsc'
          have hclocked := (h sc₀ hmem).1
          exact ⟨hclocked.suffix hsuffix hclock, fun m hm => hclocked.head_le (hlow sc₀ hmem) m (hsuffix.mem hm)⟩
        obtain ⟨hsorted, hbatch, hrest⟩ := ih hleast hnext
        refine ⟨List.pairwise_cons.mpr ⟨fun s hs => (hbatch s hs).1, hsorted⟩,
          List.forall_mem_cons.mpr ⟨⟨hqm, ?_⟩, ?_⟩, ?_⟩
        · exact fun sc' hsc' => (hrest sc' hsc').2
        · exact fun s hs => ⟨hqm.trans (hbatch s hs).1, (hbatch s hs).2⟩
        · exact fun sc' hsc' => ⟨(hrest sc' hsc').1, fun m hm => hqm.trans ((hrest sc' hsc').2 m hm)⟩

/-- **`steppersync_flush` sends by the clock**: from steppers whose messages are in order, the messages of all of them
are sent in the order of their `req_clock`, and what stays behind comes later and is in order again. -/
theorem flush_sorted (h : ∀ sc ∈ ss.scList, sc.Clocked) (hrun : ss.flush moveClock = some (ok, ss', batch)) :
    batch.Pairwise (fun s t => s.qm.reqClock ≤ t.qm.reqClock) ∧
      (∀ s ∈ batch, ∀ sc ∈ ss'.scList, ∀ m ∈ sc.msgQueue, s.qm.reqClock ≤ m.reqClock) ∧
        ∀ sc ∈ ss'.scList, sc.Clocked := by
  obtain ⟨⟨ok', scList⟩, hflushed, heq⟩ := Option.map_eq_some_iff.mp hrun
  have hclocked := flushAll_clocked h hflushed
  cases ok' with
  | false =>
    simp only [Bool.false_eq_true, if_false] at heq
    cases heq
    exact ⟨.nil, fun s hs => absurd hs List.not_mem_nil, hclocked⟩
  | true =>
    simp only [if_true, Prod.mk.injEq] at heq
    obtain ⟨-, hgather⟩ := heq
    obtain ⟨hsorted, hbatch, hrest⟩ := @gather_sorted ⟨scList, ss.moveClocks⟩ _ _ _ _ 0
      (fun sc hsc => ⟨hclocked sc hsc, fun _ _ => Nat.zero_le _⟩) hgather
    exact ⟨hsorted, fun s hs => (hbatch s hs).2, fun sc hsc => (hrest sc hsc).1⟩

theorem StepperCall.run_clocked (h : sc.Clocked) (c : StepperCall) : Ordered (c.run sc) := by
  cases c with
  | append sdir stepClock => exact h.append sdir stepClock
  | commit => exact h.commit
  | flush moveClock => exact h.flush moveClock
  | setLastPosition clock lastPosition => exact h.setLastPosition clock lastPosition
  | queueMsg command => exact h.queueMsg command

/-- **Every batch is in order**: whatever is called for the steppers between the flushes, as long as no clock is
reset. -/
theorem batches_sorted {batches : List (List Sent)} {moveNum : ℕ} (hnew : ∀ sc ∈ scList, sc.msgQueue = [])
    (h : Run SyncStep (.alloc scList moveNum) batches ss) :
    ∀ batch ∈ batches, batch.Pairwise fun s t => s.qm.reqClock ≤ t.qm.reqClock := by
  refine (h.history (I := fun batches ss => (∀ sc ∈ ss.scList, sc.Clocked) ∧
    ∀ batch ∈ batches, batch.Pairwise fun s t => s.qm.reqClock ≤ t.qm.reqClock) ⟨fun sc hsc => ?_, ?_⟩ ?_).2
  · have hnil := hnew sc hsc
    exact ⟨by rw [hnil]; exact .nil, fun m hm => absurd (hnil ▸ hm) List.not_mem_nil⟩
  · exact fun batch hbatch => absurd hbatch List.not_mem_nil
  · rintro batches ss batch ss' ⟨hclocked, hsorted⟩ hstep
    have hnext : (∀ sc ∈ ss'.scList, sc.Clocked) ∧ batch.Pairwise fun s t => s.qm.reqClock ≤ t.qm.reqClock := by
      cases hstep with
      | call c hsc hrun =>
        refine ⟨fun sc' hsc' => ?_, .nil⟩
        rcases List.mem_or_eq_of_mem_set hsc' with hold | rfl
        · exact hclocked sc' hold
        · exact StepperCall.run_clocked (hclocked _ (List.mem_of_getElem? hsc)) c _ _ hrun
      | flush hrun =>
        obtain ⟨hbatch, -, hclocked'⟩ := flush_sorted hclocked hrun
        exact ⟨hclocked', hbatch⟩
    refine ⟨hnext.1, fun batch' hbatch' => ?_⟩
    rcases List.mem_append.mp hbatch' with hold | hnew
    · exact hsorted batch' hold
    · rw [List.mem_singleton.mp hnew]
      exact hnext.2

/-- Two steppers that have made steps, the second one earlier. -/
theorem batches_sorted_concreteCase :
    ∃ ss batch, Run SyncStep (.alloc [{ withMessages [] with lastStepClock := 15 },
        { withMessages [] with lastStepClock := 10 }] 2) [[], [], batch] ss ∧
      batch.map (fun s => (s.stepper, s.qm.reqClock)) = [(1, 10), (0, 15)] ∧
      batch.Pairwise fun s t => s.qm.reqClock ≤ t.qm.reqClock := by
  have h1 := (Run.nil (R := SyncStep) (.alloc [{ withMessages [] with lastStepClock := 15 },
    { withMessages [] with lastStepClock := 10 }] 2)).snoc (@SyncStep.call _ 1 _ _ _ (.queueMsg (.other [3])) rfl rfl)
  have h2 := h1.snoc (@SyncStep.call _ 0 _ _ _ (.queueMsg (.other [4])) rfl rfl)
  have h3 := h2.snoc (@SyncStep.flush _ 20 _ _ _ rfl)
  exact ⟨_, _, h3, rfl, batches_sorted (by decide) h3 _ (List.mem_append_right _ (List.mem_singleton_self _))⟩

end Clocks

/-! ## The slots of the microcontroller -/

section Room

open MinHeap Slots

variable {ss ss' : SteppersSync} {scList : List Obj} {batch : List Sent} {fuel moveClock moveNum : ℕ} {l l' : Line}
  {e : LineEvent} {es : List LineEvent} {ledger : List ℕ}

/-- When the slot of a message is free again, if it takes one. -/
def Sent.free (s : Sent) : Option ℕ := if s.qm.minClock = 0 then none else some s.qm.minClock

/-- The slot that the host counts on: its clock, and when it is free again. -/
def Sent.booking (s : Sent) : ℕ × Option ℕ := (s.nextAvail, s.free)

/-- The host's table of slots after a message. -/
theorem moveClocks_booked {s : Sent} {rest : List ℕ} (h : IsHeap (s.nextAvail :: rest))
    (hle : s.qm.minClock ≤ uint64Max) :
    IsHeap (if s.qm.minClock ≠ 0 then heapReplace (s.nextAvail :: rest) s.qm.minClock else s.nextAvail :: rest) ∧
      (if s.qm.minClock ≠ 0 then heapReplace (s.nextAvail :: rest) s.qm.minClock else s.nextAvail :: rest).Perm
        (s.free.getD s.nextAvail :: rest) := by
  unfold Sent.free
  by_cases hzero : s.qm.minClock = 0
  · rw [if_neg (not_not.mpr hzero), if_pos hzero]
    exact ⟨h, List.Perm.refl _⟩
  · rw [if_pos hzero, if_neg hzero]
    exact replaceRoot_spec h hle

/-- **Every message that is sent books a slot**, the one that is free first. -/
theorem gather_booked (hheap : IsHeap ss.moveClocks) (hne : ss.moveClocks ≠ [])
    (hrun : SteppersSync.gather fuel moveClock ss = (ss', batch)) (hclock : ∀ s ∈ batch, s.qm.minClock ≤ uint64Max) :
    Booked ss.moveClocks (batch.map Sent.booking) ss'.moveClocks ∧ IsHeap ss'.moveClocks := by
  induction fuel generalizing ss ss' batch with
  | zero =>
    cases hrun
    exact ⟨.refl _, hheap⟩
  | succ fuel ih =>
    rw [SteppersSync.gather] at hrun
    cases hfind : SteppersSync.findLowest ss.scList with
    | none =>
      rw [hfind] at hrun
      cases hrun
      exact ⟨.refl _, hheap⟩
    | some r =>
      obtain ⟨i, qm⟩ := r
      rw [hfind] at hrun
      by_cases hstop : qm.minClock ≠ 0 ∧ qm.reqClock > moveClock
      · simp only [if_pos hstop] at hrun
        cases hrun
        exact ⟨.refl _, hheap⟩
      · simp only [if_neg hstop] at hrun
        obtain ⟨scList, moveClocks⟩ := ss
        cases moveClocks with
        | nil => exact absurd rfl hne
        | cons x rest =>
          generalize hnext : SteppersSync.gather fuel moveClock _ = r at hrun
          obtain ⟨ss1, batch1⟩ := r
          cases hrun
          obtain ⟨hheap1, hperm⟩ := moveClocks_booked (s := ⟨i, qm, x⟩) hheap (hclock _ List.mem_cons_self)
          have hne1 : (if qm.minClock ≠ 0 then heapReplace (x :: rest) qm.minClock else x :: rest) ≠ [] := by
            intro hnil
            rw [hnil] at hperm
            exact List.cons_ne_nil _ _ hperm.nil_eq.symm
          obtain ⟨hbooked, hheap'⟩ := ih hheap1 hne1 hnext fun s hs => hclock s (List.mem_cons_of_mem _ hs)
          refine ⟨.cons (List.Perm.refl _) (fun b hb => ?_) (hbooked.of_perm hperm.symm), hheap'⟩
          obtain ⟨j, hj, rfl⟩ := List.mem_iff_getElem.mp hb
          exact hheap.root_le (i := j + 1) (Nat.succ_lt_succ hj)

theorem Booked.length_eq {items : List (ℕ × Option ℕ)} {moveClocks : List ℕ} (h : Booked ledger items moveClocks) :
    ledger.length = moveClocks.length := by
  induction h with
  | nil h => exact h.length_eq
  | cons h _ _ ih => rw [h.length_eq, ← ih, List.length_cons, List.length_cons]

/-- The host is ahead of the microcontroller by the messages on their way.  `ledger` are the clocks of the slots when
the first of these arrives. -/
structure Ahead (moveNum : ℕ) (l : Line) (ledger : List ℕ) : Prop where
  heap : IsHeap l.ss.moveClocks
  length : ledger.length = moveNum
  booked : Booked ledger (l.flight.map Sent.booking) l.ss.moveClocks
  covers : Covers l.now ledger (l.used.map Prod.snd)
  slots : l.freeList.length + l.used.length = moveNum

theorem ahead_start (scList : List Obj) (moveNum : ℕ) :
    Ahead moveNum (.start scList moveNum) (List.replicate moveNum 0) where
  heap i hi _ := by
    simp only [Line.start, SteppersSync.alloc, List.getElem_replicate, le_refl]
  length := List.length_replicate
  booked := .refl _
  covers := .nil _ _
  slots := by simp [Line.start]

/-- The first message arrives: its slot is the one that is free first. -/
theorem Ahead.arrive (h : Ahead moveNum l ledger) {s : Sent} {flight : List Sent} (hflight : l.flight = s :: flight)
    (hnow : s.nextAvail ≤ l.now) :
    ∃ ledger', ledger'.length = moveNum ∧ Booked ledger' (flight.map Sent.booking) l.ss.moveClocks ∧
      Covers l.now ledger' (s.free.toList ++ l.used.map Prod.snd) := by
  have hbooked := h.booked
  rw [hflight, List.map_cons] at hbooked
  cases hbooked with
  | @cons _ rest _ _ _ _ hp _ hitems =>
    exact ⟨s.free.getD s.nextAvail :: rest, hp.length_eq.symm.trans h.length, hitems, h.covers.take hp hnow⟩

/-- **There is a slot** for a move that arrives. -/
theorem Ahead.room (h : Ahead moveNum l ledger) {s : Sent} {flight : List Sent} (hflight : l.flight = s :: flight)
    (hnow : s.nextAvail ≤ l.now) (hused : ∀ m ∈ l.used, l.now < m.2) : l.freeList ≠ [] := by
  have hbooked := h.booked
  rw [hflight, List.map_cons] at hbooked
  cases hbooked with
  | cons hp _ _ =>
    have hroom := h.covers.room hp hnow fun b hb => by
      obtain ⟨m, hm, rfl⟩ := List.mem_map.mp hb
      exact hused m hm
    rw [List.length_map, h.length] at hroom
    have hslots := h.slots
    exact List.ne_nil_of_length_pos (by omega)

/-- What every event keeps. -/
theorem Ahead.step (hpos : 0 < moveNum) (h : Ahead moveNum l ledger) (hstep : LineStep l e l') :
    ∃ ledger', Ahead moveNum l' ledger' := by
  cases hstep with
  | steps scList => exact ⟨ledger, h.heap, h.length, h.booked, h.covers, h.slots⟩
  | @flush moveClock ok ss batch hrun hclock =>
    obtain ⟨⟨ok', scList⟩, -, heq⟩ := Option.map_eq_some_iff.mp hrun
    cases ok' with
    | false =>
      simp only [Bool.false_eq_true, if_false] at heq
      cases heq
      exact ⟨ledger, h.heap, h.length, by simpa using h.booked, h.covers, h.slots⟩
    | true =>
      simp only [if_true, Prod.mk.injEq] at heq
      obtain ⟨-, hgather⟩ := heq
      have hne : l.ss.moveClocks ≠ [] := by
        have hlen := h.length
        rw [Booked.length_eq h.booked] at hlen
        exact List.ne_nil_of_length_pos (by omega)
      obtain ⟨hbooked, hheap⟩ := @gather_booked ⟨scList, l.ss.moveClocks⟩ _ _ _ _ h.heap hne hgather hclock
      refine ⟨ledger, hheap, h.length, ?_, h.covers, h.slots⟩
      rw [List.map_append]
      exact h.booked.append hbooked
  | tick hle => exact ⟨ledger, h.heap, h.length, h.booked, h.covers.later hle, h.slots⟩
  | @free m hm =>
    refine ⟨ledger, h.heap, h.length, h.booked, h.covers.sublist (List.erase_sublist.map _), ?_⟩
    have hslots := h.slots
    have hlen := List.length_pos_of_mem hm
    simp only [moveFree, List.length_cons, List.length_erase_of_mem hm]
    omega
  | @other s flight hflight hmove hnow =>
    obtain ⟨ledger', hlen, hitems, hcovers⟩ := h.arrive hflight hnow
    exact ⟨ledger', h.heap, hlen, hitems, hcovers.sublist (List.sublist_append_right _ _), h.slots⟩
  | @move s flight slot freeList hflight hmove hnow hused halloc =>
    obtain ⟨ledger', hlen, hitems, hcovers⟩ := h.arrive hflight hnow
    have hslots := h.slots
    obtain ⟨slot', freeList', hfree⟩ := List.exists_cons_of_ne_nil (h.room hflight hnow hused)
    rw [hfree] at halloc hslots
    cases halloc
    rw [List.length_cons] at hslots
    unfold Sent.free at hcovers
    by_cases hzero : s.qm.minClock = 0
    · simp only [if_pos hzero] at hcovers ⊢
      exact ⟨ledger', h.heap, hlen, hitems, hcovers, hslots⟩
    · simp only [if_neg hzero] at hcovers ⊢
      refine ⟨ledger', h.heap, hlen, hitems, hcovers, ?_⟩
      simp only [List.length_cons]
      omega

/-- **`Move queue overflow` does not happen**: however the callers, the host and the microcontroller take turns, when a
move arrives that was held back until its `min_clock`, and the moves that should be loaded are, `move_alloc` finds a
slot. -/
theorem moves_never_overflow (hpos : 0 < moveNum) (h : Run LineStep (.start scList moveNum) es l) {s : Sent}
    {flight : List Sent}
    (hflight : l.flight = s :: flight) (hnow : s.nextAvail ≤ l.now) (hused : ∀ m ∈ l.used, l.now < m.2) :
    moveAlloc l.freeList ≠ none := by
  obtain ⟨ledger, hahead⟩ := h.invariant (I := fun l => ∃ ledger, Ahead moveNum l ledger) ⟨_,
    ahead_start scList moveNum⟩
    fun _ _ _ ⟨_, hl⟩ hstep => hl.step hpos hstep
  obtain ⟨slot, freeList, hfree⟩ := List.exists_cons_of_ne_nil (hahead.room hflight hnow hused)
  rw [hfree]
  exact Option.some_ne_none _

theorem moves_never_overflow_concreteCase :
    ∃ l, Run LineStep (.start [] 2) [.steps, .flush 40, .arrive, .arrive, .tick 10, .free 0] l ∧
      l.flight = [⟨0, stepMessage 30, 10⟩] ∧ moveAlloc l.freeList ≠ none := by
  have h1 := (Run.nil (R := LineStep) (.start [] 2)).snoc (LineStep.steps twoSteppers.scList)
  have h2 := h1.snoc (@LineStep.flush _ 40 _ _ _ rfl (by decide))
  have h3 := h2.snoc (@LineStep.move _ ⟨0, stepMessage 10, 0⟩ _ _ _ rfl rfl (by decide) (by decide) rfl)
  have h4 := h3.snoc (@LineStep.move _ ⟨1, stepMessage 20, 0⟩ _ _ _ rfl rfl (by decide) (by decide) rfl)
  have h5 := h4.snoc (@LineStep.tick _ 10 (by decide))
  have h6 := h5.snoc (@LineStep.free _ (0, 10) (by decide))
  exact ⟨_, h6, rfl, moves_never_overflow (by decide) h6 (s := ⟨0, stepMessage 30, 10⟩) rfl (by decide) (by decide)⟩

end Room

end Cxsw.StepCompress
