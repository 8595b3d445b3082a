import Mathlib.Data.List.GetD
import Cxsw.Lib.Run
import Cxsw.Chelper.CompressBisectAdd

/-!
# Cxsw.Chelper.StepCompress — step times become moves (`klippy/chelper/stepcompress.c`)

`itersolve.c` appends the clock of every step, with its direction; the last one is pending, as it is taken back where
the direction changes at once.  The steps of the queue are compressed when they are flushed, or the direction changes.

Clocks of 64 bits are natural numbers.  The conversions with `mcu_freq` are those of the caller here: `append` gets the
clock of a step, and `filterTicks` and `expire` are what `SDS_FILTER_TIME` and `HISTORY_EXPIRE` come to.

* `Obj`: the object and its functions; `none` is an overflow in `compress_bisect_add`, or a write behind the queue's
  end.
* `Motor.run`: what the commands make of a motor.
* `Waits`: what the queue stands for; `Flushed`: the first of its steps are those of the motor.
* `queueFlush_spec`: `queue_flush` does not fail, and what it does.
-/

namespace Cxsw.StepCompress

open Quadratic (tri reach)

/-! ## The code -/

section Defs

def clockDiffMax : ℕ := 3 * 2 ^ 28

def uint64Max : ℕ := 2 ^ 64 - 1

structure HistorySteps where
  firstClock : ℕ
  lastClock : ℕ
  startPosition : ℤ
  stepCount : ℤ
  interval : ℤ
  add : ℤ
  deriving DecidableEq

/-- A command for the microcontroller. -/
inductive StepCommand
  | queueStep (move : StepMove)
  | setNextStepDir (dir : Bool)
  | resetStepClock (clock : ℕ)
  | other (data : List UInt32)
  deriving DecidableEq

/-- A `queue_message` with a command. -/
structure StepMessage where
  command : StepCommand
  minClock : ℕ
  reqClock : ℕ
  deriving DecidableEq

/-- `struct stepcompress`.  `queue` is what is between `queue_pos` and `queue_next`, `offset` is `queue_pos - queue`
and `alloc` is `queue_end - queue`; a `sdir` of -1 is none, and `history` has the newest first. -/
structure Obj where
  queue : List UInt32
  offset : ℕ
  alloc : ℕ
  maxError : UInt32
  filterTicks : ℤ
  expire : ℕ → Option ℕ
  lastStepClock : ℕ
  msgQueue : List StepMessage
  sdir : Option Bool
  invertSdir : Bool
  nextStepClock : ℕ
  nextStepDir : Bool
  lastPosition : ℤ
  history : List HistorySteps

/-- Whether a function did not return an error, and the object; none where the behaviour is undefined. -/
abbrev Result := Option (Bool × Obj)

namespace Obj

/-- `free_history`: the oldest are at the end of the list. -/
def freeHistory (sc : Obj) (endClock : ℕ) : Obj :=
  { sc with history := (sc.history.reverse.dropWhile fun hs => hs.lastClock ≤ endClock).reverse }

/-- `calc_last_step_print_time`. -/
def calcLastStepPrintTime (sc : Obj) : Obj :=
  match sc.expire sc.lastStepClock with
  | none => sc
  | some endClock => sc.freeHistory endClock

/-- `add_move`. -/
def addMove (sc : Obj) (firstClock : ℕ) (move : StepMove) : Obj :=
  let ticks := UInt32.ofInt (move.add.toInt * tri move.count.toNat + move.interval.toNat * (move.count.toNat - 1))
  let lastClock := firstClock + ticks.toNat
  let far := move.count = 1 ∧ firstClock ≥ sc.lastStepClock + clockDiffMax
  let stepCount : ℤ := if sc.sdir = some false then -move.count.toNat else move.count.toNat
  { sc with
    msgQueue := sc.msgQueue ++ [⟨.queueStep move, sc.lastStepClock, if far then firstClock else sc.lastStepClock⟩]
    lastStepClock := lastClock
    lastPosition := sc.lastPosition + stepCount
    history := ⟨firstClock, lastClock, sc.lastPosition, stepCount, int32 move.interval, move.add.toInt⟩ :: sc.history }

/-- The loop of `queue_flush`; every round takes a step from the queue. -/
def flushLoop : ℕ → ℕ → Obj → Result
  | 0, _, sc => some (true, sc)
  | fuel + 1, moveClock, sc =>
    if sc.lastStepClock < moveClock then
      match compressBisectAdd sc.maxError (UInt32.ofNat sc.lastStepClock) sc.queue with
      | none => none
      | some move =>
        if ¬ checkLine sc.maxError (UInt32.ofNat sc.lastStepClock) sc.queue move then some (false, sc)
        -- the products of `add_move`
        else if ¬ Int32s [move.count.toNat * (move.count.toNat - 1), move.add.toInt * tri move.count.toNat] then none
        else
          let sc := sc.addMove (sc.lastStepClock + move.interval.toNat) move
          if sc.queue.length ≤ move.count.toNat then some (true, { sc with queue := [], offset := 0 })
          else
            flushLoop fuel moveClock
              { sc with queue := sc.queue.drop move.count.toNat, offset := sc.offset + move.count.toNat }
    else some (true, sc)

/-- `queue_flush`. -/
def queueFlush (sc : Obj) (moveClock : ℕ) : Result :=
  if sc.queue = [] then some (true, sc)
  else (flushLoop sc.queue.length moveClock sc).map fun r => if r.1 then (true, r.2.calcLastStepPrintTime) else r

/-- A function that goes on where one before it did not return an error. -/
def andThen (r : Result) (f : Obj → Result) : Result :=
  match r with
  | none => none
  | some (false, sc) => some (false, sc)
  | some (true, sc) => f sc

/-- `stepcompress_flush_far`. -/
def flushFar (sc : Obj) (absStepClock : ℕ) : Result :=
  let sc := sc.addMove absStepClock ⟨UInt32.ofNat (absStepClock - sc.lastStepClock), 1, 0⟩
  some (true, sc.calcLastStepPrintTime)

/-- `set_next_step_dir`. -/
def setNextStepDir (sc : Obj) (sdir : Bool) : Result :=
  if sc.sdir = some sdir then some (true, sc)
  else
    andThen (sc.queueFlush uint64Max) fun sc =>
      some (true,
        { sc with
          sdir := some sdir
          msgQueue := sc.msgQueue ++ [⟨.setNextStepDir (sdir ^^ sc.invertSdir), 0, sc.lastStepClock⟩] })

/-- `*sc->queue_next++ = step_clock`. -/
def push (sc : Obj) (stepClock : ℕ) : Result :=
  if sc.offset + sc.queue.length < sc.alloc then some (true, { sc with queue := sc.queue ++ [UInt32.ofNat stepClock] })
  else none

/-- The same for the pending step. -/
def pushNext (sc : Obj) : Result := { sc with nextStepClock := 0 }.push sc.nextStepClock

/-- `queue_append_far`. -/
def queueAppendFar (sc : Obj) : Result :=
  let stepClock := sc.nextStepClock
  andThen ({ sc with nextStepClock := 0 }.queueFlush (stepClock - clockDiffMax + 1)) fun sc =>
    if stepClock ≥ sc.lastStepClock + clockDiffMax then sc.flushFar stepClock else sc.push stepClock

/-- `while (in_use >= alloc) alloc *= 2`. -/
def growAlloc (inUse : ℕ) : ℕ → ℕ → ℕ
  | 0, alloc => alloc
  | fuel + 1, alloc => if inUse ≥ alloc then growAlloc inUse fuel (alloc * 2) else alloc

/-- Make room in the queue. -/
def makeRoom (sc : Obj) : Obj :=
  if sc.offset + sc.queue.length ≥ sc.alloc then
    if sc.offset > 0 then { sc with offset := 0 }
    else
      { sc with
        offset := 0
        alloc := growAlloc sc.queue.length sc.queue.length (if sc.alloc = 0 then 1024 else sc.alloc) }
  else sc

/-- `queue_append_extend`. -/
def queueAppendExtend (sc : Obj) : Result :=
  let flushed : Result :=
    if sc.queue.length > 65535 + 2000 then
      sc.queueFlush (sc.lastStepClock +
        (sc.queue.getD (sc.queue.length - 65535) 0 - UInt32.ofNat sc.lastStepClock).toNat)
    else some (true, sc)
  andThen flushed fun sc => sc.makeRoom.pushNext

/-- The end of `queue_append`, when the direction is right. -/
def queueAppendHere (sc : Obj) : Result :=
  if sc.nextStepClock ≥ sc.lastStepClock + clockDiffMax then sc.queueAppendFar
  else if sc.offset + sc.queue.length ≥ sc.alloc then sc.queueAppendExtend
  else sc.pushNext

/-- `queue_append`. -/
def queueAppend (sc : Obj) : Result :=
  if sc.sdir ≠ some sc.nextStepDir then andThen (sc.setNextStepDir sc.nextStepDir) queueAppendHere
  else sc.queueAppendHere

/-- Whether the last step is taken back to avoid rapid step+dir+step. -/
def rollsBack (sc : Obj) (sdir : Bool) (stepClock : ℕ) : Prop :=
  sc.nextStepClock ≠ 0 ∧ sdir ≠ sc.nextStepDir ∧ (stepClock : ℤ) - sc.nextStepClock < sc.filterTicks

instance (sc : Obj) (sdir : Bool) (stepClock : ℕ) : Decidable (sc.rollsBack sdir stepClock) :=
  inferInstanceAs (Decidable (_ ∧ _))

/-- `stepcompress_append`. -/
def append (sc : Obj) (sdir : Bool) (stepClock : ℕ) : Result :=
  if sc.rollsBack sdir stepClock then some (true, { sc with nextStepClock := 0, nextStepDir := sdir })
  else
    andThen (if sc.nextStepClock ≠ 0 then sc.queueAppend else some (true, sc)) fun sc =>
      some (true, { sc with nextStepClock := stepClock, nextStepDir := sdir })

/-- `stepcompress_commit`. -/
def commit (sc : Obj) : Result := if sc.nextStepClock ≠ 0 then sc.queueAppend else some (true, sc)

/-- `stepcompress_flush`. -/
def flush (sc : Obj) (moveClock : ℕ) : Result :=
  andThen (if sc.nextStepClock ≠ 0 ∧ moveClock ≥ sc.nextStepClock then sc.queueAppend else some (true, sc))
    fun sc => sc.queueFlush moveClock

/-- `stepcompress_reset`. -/
def reset (sc : Obj) (lastStepClock : ℕ) : Result :=
  andThen (sc.flush uint64Max) fun sc =>
    some (true, { sc with lastStepClock := lastStepClock, sdir := none }.calcLastStepPrintTime)

/-- `stepcompress_set_last_position`. -/
def setLastPosition (sc : Obj) (clock : ℕ) (lastPosition : ℤ) : Result :=
  andThen (sc.flush uint64Max) fun sc =>
    some (true,
      { sc with lastPosition := lastPosition, history := ⟨clock, clock, lastPosition, 0, 0, 0⟩ :: sc.history })

/-- `stepcompress_queue_msg`. -/
def queueMsg (sc : Obj) (command : StepCommand) : Result :=
  andThen (sc.flush uint64Max) fun sc =>
    some (true, { sc with msgQueue := sc.msgQueue ++ [⟨command, 0, sc.lastStepClock⟩] })

/-- `stepcompress_alloc` and `stepcompress_fill`. -/
def init (maxError : UInt32) (invertSdir : Bool) (filterTicks : ℤ) (expire : ℕ → Option ℕ) : Obj where
  queue := []
  offset := 0
  alloc := 0
  maxError := maxError
  filterTicks := filterTicks
  expire := expire
  lastStepClock := 0
  msgQueue := []
  sdir := none
  invertSdir := invertSdir
  nextStepClock := 0
  nextStepDir := false
  lastPosition := 0
  history := []

end Obj

/-! ### The motor -/

/-- The clock of the last step, in 32 bits, and the direction of the next one. -/
structure Motor where
  clock : UInt32
  dir : Bool
  deriving DecidableEq

namespace Motor

/-- The clocks of the steps of a move. -/
def stepClocks (clock : UInt32) (move : StepMove) : List UInt32 :=
  (List.range move.count.toNat).map fun k => clock + UInt32.ofInt (reach move.interval.toNat move.add.toInt (k + 1))

/-- The motor after a command, and its steps, each with its direction. -/
def step (invertSdir : Bool) (m : Motor) : StepCommand → Motor × List (Bool × UInt32)
  | .queueStep move =>
    (⟨m.clock + UInt32.ofInt (reach move.interval.toNat move.add.toInt move.count.toNat), m.dir⟩,
      (stepClocks m.clock move).map fun clock => (m.dir, clock))
  | .setNextStepDir dir => (⟨m.clock, dir ^^ invertSdir⟩, [])
  | .resetStepClock clock => (⟨UInt32.ofNat clock, m.dir⟩, [])
  | .other _ => (m, [])

def run (invertSdir : Bool) : Motor → List StepMessage → Motor × List (Bool × UInt32)
  | m, [] => (m, [])
  | m, msg :: msgs =>
    ((run invertSdir (m.step invertSdir msg.command).1 msgs).1,
      (m.step invertSdir msg.command).2 ++ (run invertSdir (m.step invertSdir msg.command).1 msgs).2)

end Motor

/-- A step of the commands is that of the caller, or it is at most `maxError` ticks early. -/
def Close (maxError : UInt32) (given : Bool × ℕ) (emitted : Bool × UInt32) : Prop :=
  given.1 = emitted.1 ∧ ∃ early ≤ min given.2 maxError.toNat, emitted.2 = UInt32.ofNat (given.2 - early)

/-- How far steps go. -/
def travel {α : Type*} (steps : List (Bool × α)) : ℤ := (steps.map fun s => if s.1 then (1 : ℤ) else -1).sum

end Defs

/-! ## The motor -/

section Motors

variable {invertSdir : Bool} {m : Motor} {msgs msgs' : List StepMessage}

theorem Motor.run_append (invertSdir : Bool) (m : Motor) (msgs msgs' : List StepMessage) :
    m.run invertSdir (msgs ++ msgs') =
      (((m.run invertSdir msgs).1.run invertSdir msgs').1,
        (m.run invertSdir msgs).2 ++ ((m.run invertSdir msgs).1.run invertSdir msgs').2) := by
  induction msgs generalizing m with
  | nil => rfl
  | cons msg msgs ih =>
    rw [List.cons_append, Motor.run, ih]
    simp only [Motor.run, List.append_assoc]

theorem Motor.run_singleton (invertSdir : Bool) (m : Motor) (msg : StepMessage) :
    m.run invertSdir [msg] = m.step invertSdir msg.command := by
  simp [Motor.run]

theorem travel_append {α : Type*} (l l' : List (Bool × α)) : travel (l ++ l') = travel l + travel l' := by
  unfold travel
  rw [List.map_append, List.sum_append]

theorem travel_singleton {α : Type*} (d : Bool) (c : α) : travel [(d, c)] = if d then 1 else -1 := by
  cases d <;> rfl

theorem travel_same {α : Type*} (d : Bool) (clocks : List α) :
    travel (clocks.map fun c => (d, c)) = if d then (clocks.length : ℤ) else -clocks.length := by
  induction clocks with
  | nil => simp [travel]
  | cons c clocks ih =>
    have hcons : travel ((c :: clocks).map fun c => (d, c)) = (if d then (1 : ℤ) else -1) +
        travel (clocks.map fun c => (d, c)) := by simp [travel]
    rw [hcons, ih]
    split_ifs <;> push_cast [List.length_cons] <;> ring

end Motors

/-! ## One move -/

section Moves

variable {sc sc' : Obj} {clocks : List ℕ} {d : Bool} {move : StepMove}

/-- What the queue stands for: clocks one after the other, behind the last step and not far from it. -/
structure Waits (sc : Obj) (clocks : List ℕ) : Prop where
  queue : sc.queue = clocks.map UInt32.ofNat
  sorted : clocks.Pairwise (· < ·)
  behind : ∀ c ∈ clocks, sc.lastStepClock < c
  near : ∀ c ∈ clocks, c < sc.lastStepClock + clockDiffMax

theorem Waits.ticks_eq (h : Waits sc clocks) {i : ℕ} (hi : i < clocks.length) :
    ticks (UInt32.ofNat sc.lastStepClock) sc.queue i = clocks.getD i 0 - sc.lastStepClock := by
  have hmem : clocks[i] ∈ clocks := List.getElem_mem hi
  have h1 := h.behind _ hmem
  have h2 := h.near _ hmem
  have hmax : clockDiffMax = 3 * 2 ^ 28 := rfl
  unfold ticks
  rw [h.queue]
  simp only [List.getD_eq_getElem?_getD, List.getElem?_map, List.getElem?_eq_getElem hi, Option.map_some,
    Option.getD_some]
  rw [UInt32.toNat_sub, UInt32.toNat_ofNat', UInt32.toNat_ofNat']
  omega

theorem Waits.rising (h : Waits sc clocks) (hne : clocks ≠ []) :
    Rising (UInt32.ofNat sc.lastStepClock) sc.queue := by
  have hmax : clockDiffMax = 3 * 2 ^ 28 := rfl
  have hlen : sc.queue.length = clocks.length := by rw [h.queue, List.length_map]
  refine ⟨?_, fun i hi => ?_, fun i hi => ?_⟩
  · rw [h.queue]
    exact fun hnil => hne (List.map_eq_nil_iff.mp hnil)
  · rw [hlen] at hi
    have hmem : clocks[i] ∈ clocks := List.getElem_mem hi
    have h2 := h.near _ hmem
    rw [h.ticks_eq hi, List.getD_eq_getElem _ _ hi]
    omega
  · rw [hlen] at hi
    have hlt := List.pairwise_iff_getElem.mp h.sorted i (i + 1) (by omega) hi (Nat.lt_succ_self i)
    have h1 := h.behind _ (List.getElem_mem (show i < clocks.length by omega))
    rw [h.ticks_eq (by omega), h.ticks_eq hi, List.getD_eq_getElem _ _ hi,
      List.getD_eq_getElem _ _ (show i < clocks.length by omega)]
    omega

/-- **A move of the search** hits the first clocks of the queue: the motor takes a step for each, and is at the clock
of the last of them. -/
theorem move_spec (h : Waits sc clocks) (hne : clocks ≠ [])
    (hmove : compressBisectAdd sc.maxError (UInt32.ofNat sc.lastStepClock) sc.queue = some move) :
    checkLine sc.maxError (UInt32.ofNat sc.lastStepClock) sc.queue move = true ∧
      1 ≤ move.count.toNat ∧ move.count.toNat ≤ clocks.length ∧
      (∀ k, k < move.count.toNat → ∃ n : ℕ, reach move.interval.toNat move.add.toInt (k + 1) = n ∧ 0 < n ∧ n < 2 ^ 31 ∧
        sc.lastStepClock + n ≤ clocks.getD k 0 ∧ clocks.getD k 0 ≤ sc.lastStepClock + n + sc.maxError.toNat) ∧
      ∀ j k, j < k → k < move.count.toNat →
        reach move.interval.toNat move.add.toInt (j + 1) < reach move.interval.toNat move.add.toInt (k + 1) := by
  have hrising := h.rising hne
  have hlen : sc.queue.length = clocks.length := by rw [h.queue, List.length_map]
  obtain ⟨interval, count, add, hfound, rfl⟩ := compressBisectAdd_found hrising hmove
  refine ⟨checkLine_of_found hrising hfound, ?_⟩
  obtain ⟨⟨h0, hall⟩, hnum, hadd1, hadd2⟩ := hfound
  have hcount : (UInt16.ofNat count).toNat = count := by
    rw [UInt16.toNat_ofNat']
    omega
  have hadd : (Int16.ofInt add).toInt = add := Int16.toInt_ofInt_of_le (by omega) (by omega)
  have hs : Spaced (minmaxPoint sc.maxError (UInt32.ofNat sc.lastStepClock) sc.queue) (min sc.queue.length 65535) :=
    spaced_of_rising hrising (by omega) (Nat.min_le_left _ _)
  have hfirst := hall 0 h0
  rw [Quadratic.reach_one] at hfirst
  have hlimit0 := limits_eq sc.maxError hrising (show 0 < sc.queue.length by omega)
  have hnear0 := hrising.near 0 (by omega)
  have hint : ((UInt32.ofInt interval).toNat : ℤ) = interval := toNat_ofInt (hs.nonneg.trans hfirst.1) (by omega)
  simp only [hcount, hadd, hint]
  refine ⟨h0, by omega, fun k hk => ?_, fun j k hjk hk =>
    ((hall j (by omega)).2.trans_lt (hs.maxp_lt hjk (by omega))).trans_le (hall k hk).1⟩
  obtain ⟨h1, h2⟩ := hall k hk
  obtain ⟨hmin, hmax⟩ := limits_eq sc.maxError hrising (show k < sc.queue.length by omega)
  have hnear := hrising.near k (by omega)
  have hearly := early_le sc.maxError (UInt32.ofNat sc.lastStepClock) sc.queue k
  have hticks := h.ticks_eq (show k < clocks.length by omega)
  have hmem : clocks[k] ∈ clocks := List.getElem_mem (by omega)
  have hbehind := h.behind _ hmem
  rw [List.getD_eq_getElem _ _ (show k < clocks.length by omega)] at hticks ⊢
  -- a step is not early by more than half of its time
  exact ⟨(reach interval add (k + 1)).toNat, by omega, by omega, by omega, by omega, by omega⟩

/-- **`add_move`** is at the clock of its last step. -/
theorem addMove_clock (sc : Obj) {n : ℕ} (hfirst : (move.interval.toNat : ℤ) ≤ n)
    (hlast : reach move.interval.toNat move.add.toInt move.count.toNat = n) (hn : n < 2 ^ 31) :
    (sc.addMove (sc.lastStepClock + move.interval.toNat) move).lastStepClock = sc.lastStepClock + n := by
  have hticks : move.add.toInt * tri move.count.toNat + move.interval.toNat * (move.count.toNat - 1 : ℤ) =
      n - move.interval.toNat := by
    rw [← hlast]
    unfold reach
    ring
  have hnat : ((UInt32.ofInt ((n : ℤ) - move.interval.toNat)).toNat : ℤ) = n - move.interval.toNat :=
    toNat_ofInt (by omega) (by omega)
  simp only [Obj.addMove, hticks]
  omega

theorem ofInt_natCast (n : ℕ) : UInt32.ofInt (n : ℤ) = UInt32.ofNat n := by
  apply UInt32.toNat_inj.mp
  unfold UInt32.ofInt
  rw [UInt32.toNat_ofNat', UInt32.toNat_ofNat']
  omega

theorem int32_ofInt {x : ℤ} (h : -2 ^ 31 ≤ x) (h' : x < 2 ^ 31) : int32 (UInt32.ofInt x) = x := by
  have hnat : (UInt32.ofInt x).toBitVec.toNat = (x % 2 ^ 32).toNat := by
    rw [UInt32.toNat_toBitVec]
    unfold UInt32.ofInt
    rw [UInt32.toNat_ofNat']
    omega
  unfold int32
  rw [BitVec.toInt_eq_toNat_cond, hnat]
  split_ifs
  · omega
  · omega

/-- **One round of `queue_flush`**: the motor takes the first steps of the queue. -/
theorem round_spec (h : Waits sc clocks) (hne : clocks ≠ [])
    (hmove : compressBisectAdd sc.maxError (UInt32.ofNat sc.lastStepClock) sc.queue = some move) (invertSdir : Bool)
    (d : Bool) (offset : ℕ) :
    ∃ lsc emitted, Motor.step invertSdir ⟨UInt32.ofNat sc.lastStepClock, d⟩ (.queueStep move) =
        (⟨UInt32.ofNat lsc, d⟩, emitted) ∧
      (sc.addMove (sc.lastStepClock + move.interval.toNat) move).lastStepClock = lsc ∧ sc.lastStepClock < lsc ∧
      (∃ c ∈ clocks, lsc ≤ c) ∧
      List.Forall₂ (Close sc.maxError) ((clocks.take move.count.toNat).map fun c => (d, c)) emitted ∧
      Waits { sc.addMove (sc.lastStepClock + move.interval.toNat) move with
        queue := sc.queue.drop move.count.toNat, offset := offset } (clocks.drop move.count.toNat) := by
  obtain ⟨-, hcount, hlen, hsteps, hrise⟩ := move_spec h hne hmove
  obtain ⟨n, hn, hn0, hn31, hle, hclose⟩ := hsteps (move.count.toNat - 1) (by omega)
  rw [Nat.sub_add_cancel hcount] at hn
  have hfirst : (move.interval.toNat : ℤ) ≤ n := by
    have hone := Quadratic.reach_one move.interval.toNat move.add.toInt
    rcases Nat.lt_or_ge 1 move.count.toNat with h1 | h1
    · have hlt := hrise 0 (move.count.toNat - 1) (by omega) (by omega)
      rw [Nat.sub_add_cancel hcount, hone, hn] at hlt
      exact hlt.le
    · rw [show move.count.toNat = 1 by omega, hone] at hn
      exact hn.le
  have hclock := addMove_clock sc hfirst hn hn31
  have hlastmem : clocks.getD (move.count.toNat - 1) 0 ∈ clocks := by
    rw [List.getD_eq_getElem _ _ (show move.count.toNat - 1 < clocks.length by omega)]
    exact List.getElem_mem _
  refine ⟨sc.lastStepClock + n, _, by rw [Motor.step, hn, ofInt_natCast, UInt32.ofNat_add], hclock, by omega,
    ⟨_, hlastmem, hle⟩, ?_, ⟨?_, ?_, fun c hc => ?_, fun c hc => ?_⟩⟩
  · unfold Motor.stepClocks
    rw [List.forall₂_map_left_iff, List.forall₂_map_right_iff, List.forall₂_iff_get]
    refine ⟨by simp [hlen], fun k h1 h2 => ?_⟩
    have hk : k < move.count.toNat := by
      rw [List.length_map, List.length_range] at h2
      exact h2
    obtain ⟨n, hn, -, -, hle, hclose⟩ := hsteps k hk
    rw [List.getD_eq_getElem _ _ (show k < clocks.length by omega)] at hle hclose
    simp only [List.get_eq_getElem, List.getElem_take, List.getElem_map, List.getElem_range, hn]
    refine ⟨rfl, clocks[k] - (sc.lastStepClock + n), by omega, ?_⟩
    rw [ofInt_natCast, ← UInt32.ofNat_add, Nat.sub_sub_self hle]
  · simp only [h.queue, List.map_drop]
  · exact h.sorted.sublist (List.drop_sublist _ _)
  · -- the rest is behind the last step that was taken
    obtain ⟨j, hj, rfl⟩ := List.mem_iff_getElem.mp hc
    rw [List.length_drop] at hj
    have hlt := List.pairwise_iff_getElem.mp h.sorted (move.count.toNat - 1) (move.count.toNat + j) (by omega)
      (by omega)
      (by omega)
    rw [List.getD_eq_getElem _ _ (show move.count.toNat - 1 < clocks.length by omega)] at hle
    rw [List.getElem_drop]
    simp only [hclock]
    omega
  · have := h.near c (List.mem_of_mem_drop hc)
    simp only [hclock]
    omega

end Moves

/-! ## Flushing -/

section Flushes

variable {sc sc' sc'' : Obj} {clocks rest : List ℕ} {d : Bool} {ok : Bool} {moveClock : ℕ}

/-- What the functions that flush leave as it is. -/
structure SameInput (sc sc' : Obj) : Prop where
  maxError : sc'.maxError = sc.maxError
  filterTicks : sc'.filterTicks = sc.filterTicks
  expire : sc'.expire = sc.expire
  invertSdir : sc'.invertSdir = sc.invertSdir
  sdir : sc'.sdir = sc.sdir
  nextStepClock : sc'.nextStepClock = sc.nextStepClock
  nextStepDir : sc'.nextStepDir = sc.nextStepDir

/-- The motor takes the first of the steps that wait. -/
structure Flushed (sc sc' : Obj) (d : Bool) (clocks rest : List ℕ) : Prop where
  same : SameInput sc sc'
  waits : Waits sc' rest
  clock : sc.lastStepClock ≤ sc'.lastStepClock
  bound : ∀ b, sc.lastStepClock ≤ b → (∀ c ∈ clocks, c ≤ b) → sc'.lastStepClock ≤ b
  steps : ∃ taken msgs emitted, clocks = taken ++ rest ∧ sc'.msgQueue = sc.msgQueue ++ msgs ∧
    (∀ invertSdir, Motor.run invertSdir ⟨UInt32.ofNat sc.lastStepClock, d⟩ msgs =
      (⟨UInt32.ofNat sc'.lastStepClock, d⟩, emitted)) ∧
    List.Forall₂ (Close sc.maxError) (taken.map fun c => (d, c)) emitted ∧
    sc'.lastPosition = sc.lastPosition + travel emitted

theorem Flushed.refl (h : Waits sc clocks) : Flushed sc sc d clocks clocks :=
  ⟨⟨rfl, rfl, rfl, rfl, rfl, rfl, rfl⟩, h, le_rfl, fun _ hb _ => hb,
    [], [], [], rfl, (List.append_nil _).symm, fun _ => rfl, List.Forall₂.nil, (add_zero _).symm⟩

theorem Flushed.trans {clocks' : List ℕ} (h : Flushed sc sc' d clocks clocks') (h' : Flushed sc' sc'' d clocks' rest) :
    Flushed sc sc'' d clocks rest := by
  obtain ⟨⟨a1, a2, a3, a4, a5, a6, a7⟩, -, hc, hb, taken, msgs, emitted, hsplit, hmsgs, hrun, hclose, hpos⟩ := h
  obtain ⟨⟨b1, b2, b3, b4, b5, b6, b7⟩, hw, hc', hb', taken', msgs', emitted', hsplit', hmsgs', hrun', hclose',
    hpos'⟩ := h'
  refine ⟨⟨b1.trans a1, b2.trans a2, b3.trans a3, b4.trans a4, b5.trans a5, b6.trans a6, b7.trans a7⟩, hw, hc.trans hc',
    fun b h1 h2 => hb' b (hb b h1 h2) fun c hmem => h2 c (hsplit ▸ List.mem_append_right _ hmem),
    taken ++ taken', msgs ++ msgs', emitted ++ emitted', ?_, ?_, fun invertSdir => ?_, ?_, ?_⟩
  · rw [hsplit, hsplit', List.append_assoc]
  · rw [hmsgs', hmsgs, List.append_assoc]
  · rw [Motor.run_append, hrun, hrun']
  · rw [List.map_append]
    exact List.rel_append hclose (a1 ▸ hclose')
  · rw [hpos', hpos, travel_append, add_assoc]

/-- A round of the loop of `queue_flush`. -/
theorem flushed_round (h : Waits sc clocks) (hne : clocks ≠ []) (hdir : sc.sdir = some d) {move : StepMove}
    (hmove : compressBisectAdd sc.maxError (UInt32.ofNat sc.lastStepClock) sc.queue = some move) (offset : ℕ) :
    Flushed sc { sc.addMove (sc.lastStepClock + move.interval.toNat) move with
      queue := sc.queue.drop move.count.toNat, offset := offset } d clocks (clocks.drop move.count.toNat) := by
  obtain ⟨lsc, emitted, hstep, hclock, hlt, ⟨c, hc, hle⟩, hclose, hwaits⟩ := round_spec h hne hmove false d offset
  refine ⟨⟨rfl, rfl, rfl, rfl, rfl, rfl, rfl⟩, hwaits, ?_, fun b _ hb => ?_, clocks.take move.count.toNat, _, emitted,
    (List.take_append_drop _ _).symm, rfl, fun invertSdir => ?_, hclose, ?_⟩
  · simp only [hclock]
    exact hlt.le
  · simp only [hclock]
    exact hle.trans (hb c hc)
  · rw [Motor.run_singleton]
    exact hstep.trans (by rw [← hclock])
  · have hemitted : emitted = (Motor.stepClocks (UInt32.ofNat sc.lastStepClock) move).map fun c => (d, c) :=
      (congrArg Prod.snd hstep).symm
    have hlen : (Motor.stepClocks (UInt32.ofNat sc.lastStepClock) move).length = move.count.toNat := by
      unfold Motor.stepClocks
      rw [List.length_map, List.length_range]
    rw [hemitted, travel_same, hlen]
    simp only [Obj.addMove, hdir]
    cases d <;> simp

/-- **The loop of `queue_flush`.** -/
theorem flushLoop_spec {fuel : ℕ} (h : Waits sc clocks) (hne : clocks ≠ []) (hdir : sc.sdir = some d)
    (hfuel : clocks.length ≤ fuel) (hrun : Obj.flushLoop fuel moveClock sc = some (ok, sc')) :
    ok = true ∧ ∃ rest, Flushed sc sc' d clocks rest ∧ (rest = [] ∨ moveClock ≤ sc'.lastStepClock) := by
  induction fuel generalizing sc clocks with
  | zero => exact absurd (List.length_eq_zero_iff.mp (Nat.le_zero.mp hfuel)) hne
  | succ fuel ih =>
    rw [Obj.flushLoop] at hrun
    by_cases hclock : sc.lastStepClock < moveClock
    · rw [if_pos hclock] at hrun
      cases hmove : compressBisectAdd sc.maxError (UInt32.ofNat sc.lastStepClock) sc.queue with
      | none =>
        rw [hmove] at hrun
        cases hrun
      | some move =>
        obtain ⟨hcheck, hcount, hlen, -⟩ := move_spec h hne hmove
        have hqueue : (sc.addMove (sc.lastStepClock + move.interval.toNat) move).queue = sc.queue := rfl
        have hqlen : sc.queue.length = clocks.length := by rw [h.queue, List.length_map]
        simp only [hmove, hcheck, not_true_eq_false, if_false, hqueue, hqlen] at hrun
        split_ifs at hrun with hproducts hlast
        · cases hrun
          have hround := flushed_round h hne hdir hmove 0
          rw [List.drop_eq_nil_of_le (hqlen.le.trans hlast), List.drop_eq_nil_of_le hlast] at hround
          exact ⟨rfl, [], hround, Or.inl rfl⟩
        · have hround := flushed_round h hne hdir hmove (sc.offset + move.count.toNat)
          have hne' : clocks.drop move.count.toNat ≠ [] := fun hnil => hlast (List.drop_eq_nil_iff.mp hnil)
          obtain ⟨hok, rest, hrest, hdone⟩ := ih hround.waits hne' hdir (by rw [List.length_drop]; omega) hrun
          exact ⟨hok, rest, hround.trans hrest, hdone⟩
    · rw [if_neg hclock] at hrun
      cases hrun
      exact ⟨rfl, clocks, Flushed.refl h, Or.inr (not_lt.mp hclock)⟩

/-- The history is of no use here. -/
theorem Flushed.history (h : Flushed sc sc' d clocks rest) (hist : List HistorySteps) :
    Flushed sc { sc' with history := hist } d clocks rest := by
  obtain ⟨⟨a1, a2, a3, a4, a5, a6, a7⟩, ⟨b1, b2, b3, b4⟩, hc, hb, hsteps⟩ := h
  exact ⟨⟨a1, a2, a3, a4, a5, a6, a7⟩, ⟨b1, b2, b3, b4⟩, hc, hb, hsteps⟩

theorem calcLastStepPrintTime_eq (sc : Obj) : ∃ hist, sc.calcLastStepPrintTime = { sc with history := hist } := by
  unfold Obj.calcLastStepPrintTime
  cases sc.expire sc.lastStepClock with
  | none => exact ⟨sc.history, rfl⟩
  | some endClock => exact ⟨_, rfl⟩

/-- **`queue_flush` does not fail**: as many steps as there are before `moveClock`, at least, go to the motor. -/
theorem queueFlush_spec (h : Waits sc clocks) (hdir : clocks ≠ [] → sc.sdir = some d)
    (hrun : sc.queueFlush moveClock = some (ok, sc')) :
    ok = true ∧ ∃ rest, Flushed sc sc' d clocks rest ∧ (rest = [] ∨ moveClock ≤ sc'.lastStepClock) := by
  unfold Obj.queueFlush at hrun
  by_cases hempty : sc.queue = []
  · rw [if_pos hempty] at hrun
    cases hrun
    have hnil : clocks = [] := by
      rw [h.queue] at hempty
      exact List.map_eq_nil_iff.mp hempty
    exact ⟨rfl, clocks, Flushed.refl h, Or.inl hnil⟩
  · rw [if_neg hempty] at hrun
    have hne : clocks ≠ [] := by
      rintro rfl
      exact hempty (h.queue.trans List.map_nil)
    obtain ⟨⟨ok', sc''⟩, hloop, heq⟩ := Option.map_eq_some_iff.mp hrun
    obtain ⟨hok, rest, hflushed, hdone⟩ := flushLoop_spec h hne (hdir hne) (by rw [h.queue, List.length_map]) hloop
    obtain ⟨hist, hhist⟩ := calcLastStepPrintTime_eq sc''
    simp only [hok, if_true, hhist] at heq
    cases heq
    exact ⟨rfl, rest, hflushed.history hist, hdone⟩

end Flushes

end Cxsw.StepCompress
