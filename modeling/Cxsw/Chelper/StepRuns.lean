import Cxsw.Chelper.StepCompress

/-!
# Cxsw.Chelper.StepRuns — the life of a step queue (`klippy/chelper/stepcompress.c`, `klippy/stepper.py`)

`itersolve.c` appends and commits steps, `steppersync_flush` flushes them and takes the messages, and
`klippy/stepper.py` queues other commands, resets the step clock at the end of a homing move, and sets the position.

* `Stands`: how an object stands to the motor and to the steps that wait.
* `Advanced`: the first of the steps that wait become those of the motor.
* `World.run`: the calls of `itersolve.c`, `steppersync_flush` and `klippy/stepper.py`, in any order.
* `steps_within`: no function fails, and the motor takes every step in its direction, at most `max_error` ticks early.
* `flushed_in_time`: a flush leaves no step before its clock behind.
-/

namespace Cxsw.StepCompress

/-! ## The runs -/

section Defs

namespace Obj

/-- The step that is not in the queue yet. -/
def pending (sc : Obj) : List (Bool × ℕ) := if sc.nextStepClock = 0 then [] else [(sc.nextStepDir, sc.nextStepClock)]

/-- `MCU_stepper.note_homing_end`. -/
def noteHomingEnd (sc : Obj) : Result := andThen (sc.reset 0) fun sc => sc.queueMsg (.resetStepClock 0)

end Obj

inductive Event
  | append (sdir : Bool) (stepClock : ℕ)
  | commit
  | flush (moveClock : ℕ)
  | queueMsg (data : List UInt32)
  | noteHomingEnd
  | setLastPosition (clock : ℕ) (lastPosition : ℤ)
  | transmit
  deriving DecidableEq

/-- An object, the messages that were taken from it, the steps it was given without those it took back, and the position
of its caller. -/
structure World where
  sc : Obj
  sent : List StepMessage
  given : List (Bool × ℕ)
  position : ℤ

namespace World

def messages (w : World) : List StepMessage := w.sent ++ w.sc.msgQueue

def call (w : World) (r : Result) : Option (Bool × World) := r.map fun r => (r.1, { w with sc := r.2 })

def step (w : World) : Event → Option (Bool × World)
  | .append sdir stepClock =>
    { w with
      given := if w.sc.rollsBack sdir stepClock then w.given.dropLast else w.given ++ [(sdir, stepClock)]
      position := w.position + if sdir then 1 else -1 }.call (w.sc.append sdir stepClock)
  | .commit => w.call w.sc.commit
  | .flush moveClock => w.call (w.sc.flush moveClock)
  | .queueMsg data => w.call (w.sc.queueMsg (.other data))
  | .noteHomingEnd => w.call w.sc.noteHomingEnd
  | .setLastPosition clock lastPosition =>
    { w with position := lastPosition }.call (w.sc.setLastPosition clock lastPosition)
  | .transmit =>
    some (true, { w with sent := w.sent ++ w.sc.msgQueue.take 1, sc := { w.sc with msgQueue := w.sc.msgQueue.drop 1 } })

/-- A run ends where a function returns an error. -/
def run : World → List Event → Option (Bool × World)
  | w, [] => some (true, w)
  | w, e :: es =>
    match w.step e with
    | none => none
    | some (false, w) => some (false, w)
    | some (true, w) => w.run es

def init (maxError : UInt32) (invertSdir : Bool) (filterTicks : ℤ) (expire : ℕ → Option ℕ) : World where
  sc := .init maxError invertSdir filterTicks expire
  sent := []
  given := []
  position := 0

end World

/-- The clocks of the steps rise; at the end of a homing move they start again. -/
def Timed : ℕ → List Event → Prop
  | _, [] => True
  | latest, .append _ stepClock :: es => latest < stepClock ∧ stepClock < 2 ^ 63 ∧ Timed stepClock es
  | _, .noteHomingEnd :: es => Timed 0 es
  | latest, _ :: es => Timed latest es

/-- The steps that wait. -/
def waiting (sc : Obj) (m : Motor) (clocks : List ℕ) : List (Bool × ℕ) :=
  (clocks.map fun c => (m.dir, c)) ++ sc.pending

/-- How an object stands to the motor behind its messages, and to the clocks of its queue. -/
structure Stands (sc : Obj) (m : Motor) (clocks : List ℕ) (latest : ℕ) : Prop where
  waits : Waits sc clocks
  clock : m.clock = UInt32.ofNat sc.lastStepClock
  dir : sc.sdir = some m.dir ∨ (sc.sdir = none ∧ clocks = [])
  last : sc.lastStepClock ≤ latest
  queue : ∀ c ∈ clocks, c ≤ latest
  next : sc.nextStepClock ≠ 0 →
    sc.nextStepClock ≤ latest ∧ sc.lastStepClock < sc.nextStepClock ∧ ∀ c ∈ clocks, c < sc.nextStepClock
  bound : latest < 2 ^ 63

/-- The first of the steps that wait are taken by the motor. -/
structure Advanced (sc sc' : Obj) (m m' : Motor) (before after : List (Bool × ℕ)) : Prop where
  maxError : sc'.maxError = sc.maxError
  invertSdir : sc'.invertSdir = sc.invertSdir
  steps : ∃ taken msgs emitted, before = taken ++ after ∧ sc'.msgQueue = sc.msgQueue ++ msgs ∧
    Motor.run sc.invertSdir m msgs = (m', emitted) ∧ List.Forall₂ (Close sc.maxError) taken emitted ∧
    sc'.lastPosition = sc.lastPosition + travel emitted

end Defs

/-! ## What a function does -/

section Advances

variable {sc sc' sc'' : Obj} {m m' m'' : Motor} {a b c : List (Bool × ℕ)}

theorem Advanced.none (hmax : sc'.maxError = sc.maxError) (hinv : sc'.invertSdir = sc.invertSdir)
    (hmsgs : sc'.msgQueue = sc.msgQueue) (hpos : sc'.lastPosition = sc.lastPosition) : Advanced sc sc' m m a a :=
  ⟨hmax, hinv, [], [], [], rfl, by rw [hmsgs, List.append_nil], rfl, List.Forall₂.nil, by
    rw [hpos]
    exact (add_zero _).symm⟩

theorem Advanced.trans (h : Advanced sc sc' m m' a b) (h' : Advanced sc' sc'' m' m'' b c) :
    Advanced sc sc'' m m'' a c := by
  obtain ⟨h1, h2, taken, msgs, emitted, hsplit, hmsgs, hrun, hclose, hpos⟩ := h
  obtain ⟨h1', h2', taken', msgs', emitted', hsplit', hmsgs', hrun', hclose', hpos'⟩ := h'
  refine ⟨h1'.trans h1, h2'.trans h2, taken ++ taken', msgs ++ msgs', emitted ++ emitted', ?_, ?_, ?_, ?_, ?_⟩
  · rw [hsplit, hsplit', List.append_assoc]
  · rw [hmsgs', hmsgs, List.append_assoc]
  · rw [h2] at hrun'
    rw [Motor.run_append, hrun, hrun']
  · exact List.rel_append hclose (h1 ▸ hclose')
  · rw [hpos', hpos, travel_append, add_assoc]

theorem Advanced.behind (h : Advanced sc sc' m m' a b) (l : List (Bool × ℕ)) :
    Advanced sc sc' m m' (a ++ l) (b ++ l) := by
  obtain ⟨h1, h2, taken, msgs, emitted, hsplit, hrest⟩ := h
  exact ⟨h1, h2, taken, msgs, emitted, by rw [hsplit, List.append_assoc], hrest⟩

theorem Advanced.message (hmax : sc'.maxError = sc.maxError) (hinv : sc'.invertSdir = sc.invertSdir) (msg : StepMessage)
    (hmsgs : sc'.msgQueue = sc.msgQueue ++ [msg]) (hpos : sc'.lastPosition = sc.lastPosition)
    (hstep : m.step sc.invertSdir msg.command = (m', [])) : Advanced sc sc' m m' a a :=
  ⟨hmax, hinv, [], [msg], [], rfl, hmsgs, by rw [Motor.run_singleton, hstep], List.Forall₂.nil, by
    rw [hpos]
    exact (add_zero _).symm⟩

end Advances

section Functions

@[simp] theorem Obj.andThen_some (sc : Obj) (f : Obj → Result) : Obj.andThen (some (true, sc)) f = f sc := rfl

variable {sc sc' : Obj} {m m' : Motor} {clocks clocks' : List ℕ} {latest moveClock stepClock : ℕ} {ok sdir : Bool}

theorem Stands.clear (h : Stands sc m clocks latest) : Stands { sc with nextStepClock := 0 } m clocks latest :=
  ⟨⟨h.waits.queue, h.waits.sorted, h.waits.behind, h.waits.near⟩, h.clock, h.dir, h.last, h.queue,
    fun hne => absurd rfl hne, h.bound⟩

theorem Stands.pending_eq (hnext : sc.nextStepClock ≠ 0) : sc.pending = [(sc.nextStepDir, sc.nextStepClock)] :=
  if_neg hnext

/-- Every step that waits is behind the last one of the motor, and not behind the latest. -/
theorem Stands.mem_waiting (h : Stands sc m clocks latest) {s : Bool × ℕ} (hs : s ∈ waiting sc m clocks) :
    sc.lastStepClock < s.2 ∧ s.2 ≤ latest := by
  unfold waiting Obj.pending at hs
  rcases List.mem_append.mp hs with hq | hp
  · obtain ⟨c, hc, rfl⟩ := List.mem_map.mp hq
    exact ⟨h.waits.behind c hc, h.queue c hc⟩
  · split_ifs at hp with hnext
    · cases hp
    · rw [List.mem_singleton.mp hp]
      exact ⟨(h.next hnext).2.1, (h.next hnext).1⟩

/-- **`queue_flush`.** -/
theorem Stands.queueFlush (h : Stands sc m clocks latest) (hrun : sc.queueFlush moveClock = some (ok, sc')) :
    ok = true ∧ ∃ m' rest, Stands sc' m' rest latest ∧ m'.dir = m.dir ∧ SameInput sc sc' ∧
      sc.lastStepClock ≤ sc'.lastStepClock ∧
      (∀ b, sc.lastStepClock ≤ b → (∀ c ∈ clocks, c ≤ b) → sc'.lastStepClock ≤ b) ∧
      (rest = [] ∨ moveClock ≤ sc'.lastStepClock) ∧ rest ⊆ clocks ∧
      Advanced sc sc' m m' (clocks.map fun c => (m.dir, c)) (rest.map fun c => (m'.dir, c)) := by
  have hdir : clocks ≠ [] → sc.sdir = some m.dir := fun hne => h.dir.resolve_right fun hnone => hne hnone.2
  obtain ⟨hok, rest, ⟨hsame, hwaits, hle, hbound, taken, msgs, emitted, hsplit, hmsgs, hsteps, hclose, hpos⟩, hdone⟩ :=
    queueFlush_spec h.waits hdir hrun
  have hsub : rest ⊆ clocks := hsplit ▸ List.subset_append_right _ _
  refine ⟨hok, ⟨UInt32.ofNat sc'.lastStepClock, m.dir⟩, rest, ⟨hwaits, rfl, ?_, hbound _ h.last h.queue,
    fun c hc => h.queue c (hsub hc), fun hnext => ?_, h.bound⟩, rfl, hsame, hle, hbound, hdone, hsub,
    hsame.maxError, hsame.invertSdir, taken.map fun c => (m.dir, c), msgs, emitted, ?_, hmsgs, ?_, hclose, hpos⟩
  · rw [hsame.sdir]
    rcases h.dir with hsome | ⟨hnone, rfl⟩
    · exact Or.inl hsome
    · exact Or.inr ⟨hnone, List.subset_nil.mp hsub⟩
  · rw [hsame.nextStepClock] at hnext ⊢
    obtain ⟨h1, h2, h3⟩ := h.next hnext
    have hlt : sc'.lastStepClock ≤ sc.nextStepClock - 1 :=
      hbound _ (by omega) fun c hc => Nat.le_sub_one_of_lt (h3 c hc)
    exact ⟨h1, by omega, fun c hc => h3 c (hsub hc)⟩
  · rw [hsplit, List.map_append]
  · have heq : m = ⟨UInt32.ofNat sc.lastStepClock, m.dir⟩ := by rw [← h.clock]
    rw [heq]
    exact hsteps _

theorem Stands.push (h : Stands sc m clocks latest) (hdir : sc.sdir = some m.dir) (hnext : sc.nextStepClock = 0)
    (hbehind : sc.lastStepClock < stepClock) (hall : ∀ c ∈ clocks, c < stepClock)
    (hnear : stepClock < sc.lastStepClock + clockDiffMax) (hlatest : stepClock ≤ latest)
    (hrun : sc.push stepClock = some (ok, sc')) :
    ok = true ∧ sc'.nextStepClock = 0 ∧ Stands sc' m (clocks ++ [stepClock]) latest ∧
      ∀ l, Advanced sc sc' m m l l := by
  unfold Obj.push at hrun
  split_ifs at hrun
  cases hrun
  have hmem : ∀ {c}, c ∈ clocks ++ [stepClock] → c ∈ clocks ∨ c = stepClock := fun hc =>
    (List.mem_append.mp hc).imp_right List.mem_singleton.mp
  refine ⟨rfl, hnext, ⟨⟨?_, ?_, fun c hc => ?_, fun c hc => ?_⟩, h.clock, Or.inl hdir, h.last, fun c hc => ?_,
    fun hne => absurd hnext hne, h.bound⟩, fun l => Advanced.none rfl rfl rfl rfl⟩
  · simp only [h.waits.queue, List.map_append, List.map_cons, List.map_nil]
  · refine List.pairwise_append.mpr ⟨h.waits.sorted, List.pairwise_singleton _ _, fun c hc c' hc' => ?_⟩
    rw [List.mem_singleton.mp hc']
    exact hall c hc
  · rcases hmem hc with hc | rfl
    · exact h.waits.behind c hc
    · exact hbehind
  · rcases hmem hc with hc | rfl
    · exact h.waits.near c hc
    · exact hnear
  · rcases hmem hc with hc | rfl
    · exact h.queue c hc
    · exact hlatest

/-- What a function keeps: the steps that wait are in the queue, pending, or sent. -/
def Kept (sc sc' : Obj) (m : Motor) (clocks : List ℕ) (latest : ℕ) : Prop :=
  ∃ m' clocks', Stands sc' m' clocks' latest ∧
    Advanced sc sc' m m' (waiting sc m clocks) (waiting sc' m' clocks')

theorem Kept.refl (h : Stands sc m clocks latest) : Kept sc sc m clocks latest :=
  ⟨m, clocks, h, Advanced.none rfl rfl rfl rfl⟩

theorem Stands.pushNext (h : Stands sc m clocks latest) (hdir : sc.sdir = some m.dir) (hsame : sc.nextStepDir = m.dir)
    (hnext : sc.nextStepClock ≠ 0) (hnear : sc.nextStepClock < sc.lastStepClock + clockDiffMax)
    (hrun : sc.pushNext = some (ok, sc')) :
    ok = true ∧ sc'.nextStepClock = 0 ∧ Kept sc sc' m clocks latest := by
  obtain ⟨hlatest, hbehind, hall⟩ := h.next hnext
  obtain ⟨hok, hzero, hstands, hadv⟩ := h.clear.push hdir rfl hbehind hall hnear hlatest hrun
  refine ⟨hok, hzero, m, _, hstands, ?_⟩
  obtain ⟨h1, h2, h3⟩ := hadv (waiting sc m clocks)
  have heq : waiting sc' m (clocks ++ [sc.nextStepClock]) = waiting sc m clocks := by
    unfold waiting Obj.pending
    rw [if_neg hnext, if_pos hzero, hsame, List.map_append, List.append_nil]
    rfl
  rw [heq]
  exact ⟨h1, h2, h3⟩

theorem flushFar_spec (h : Stands sc m [] latest) (hdir : sc.sdir = some m.dir) (hnext : sc.nextStepClock = 0)
    (hbehind : sc.lastStepClock < stepClock) (hlatest : stepClock ≤ latest)
    (hrun : sc.flushFar stepClock = some (ok, sc')) :
    ok = true ∧ sc'.nextStepClock = 0 ∧ ∃ m', Stands sc' m' [] latest ∧
      Advanced sc sc' m m' [(m.dir, stepClock)] [] := by
  unfold Obj.flushFar at hrun
  set move : StepMove := ⟨UInt32.ofNat (stepClock - sc.lastStepClock), 1, 0⟩ with hmove
  obtain ⟨hist, hhist⟩ := calcLastStepPrintTime_eq (sc.addMove stepClock move)
  simp only [hhist] at hrun
  cases hrun
  have hcount : move.count.toNat = 1 := rfl
  have hreach : Quadratic.reach move.interval.toNat move.add.toInt 1 = (move.interval.toNat : ℤ) :=
    Quadratic.reach_one _ _
  -- the interval is that of 32 bits
  have hclock : m.clock + UInt32.ofInt (move.interval.toNat : ℤ) = UInt32.ofNat stepClock := by
    rw [h.clock, ofInt_natCast, hmove, UInt32.ofNat_toNat, ← UInt32.ofNat_add, Nat.add_sub_cancel' hbehind.le]
  have hlast : (sc.addMove stepClock move).lastStepClock = stepClock := by
    have hzero : move.add.toInt * Quadratic.tri move.count.toNat + move.interval.toNat *
        (move.count.toNat - 1 : ℤ) = 0 := by
      rw [hcount]
      norm_num [Quadratic.tri]
    simp only [Obj.addMove, hzero]
    rfl
  have hpos : (sc.addMove stepClock move).lastPosition = sc.lastPosition + travel [(m.dir, stepClock)] := by
    simp only [Obj.addMove, hcount, hdir]
    cases m.dir <;> simp [travel]
  refine ⟨rfl, hnext, ⟨UInt32.ofNat stepClock, m.dir⟩, ⟨⟨?_, List.Pairwise.nil, fun c hc => ?_, fun c hc => ?_⟩, ?_,
    Or.inl hdir, ?_, fun c hc => ?_, fun hne => absurd hnext hne, h.bound⟩, rfl, rfl, [(m.dir, stepClock)],
    [⟨.queueStep move, sc.lastStepClock, _⟩], [(m.dir, UInt32.ofNat stepClock)], rfl, rfl, ?_, ?_, hpos⟩
  · exact h.waits.queue
  · cases hc
  · cases hc
  · rw [hlast]
  · exact hlast.le.trans hlatest
  · cases hc
  · rw [Motor.run_singleton]
    simp only [Motor.step, Motor.stepClocks, hcount, List.range_one, List.map_cons, List.map_nil, hreach, hclock]
  · exact List.Forall₂.cons ⟨rfl, 0, Nat.zero_le _, rfl⟩ List.Forall₂.nil

/-- **`queue_append_far`.** -/
theorem queueAppendFar_spec (h : Stands sc m clocks latest) (hdir : sc.sdir = some m.dir)
    (hsame : sc.nextStepDir = m.dir)
    (hnext : sc.nextStepClock ≠ 0) (hrun : sc.queueAppendFar = some (ok, sc')) :
    ok = true ∧ sc'.nextStepClock = 0 ∧ Kept sc sc' m clocks latest := by
  unfold Obj.queueAppendFar at hrun
  obtain ⟨hlatest, hbehind, hall⟩ := h.next hnext
  cases hflush : Obj.queueFlush { sc with nextStepClock := 0 } (sc.nextStepClock - clockDiffMax + 1) with
  | none => simp [hflush, Obj.andThen] at hrun
  | some r =>
    obtain ⟨ok', sc1⟩ := r
    obtain ⟨rfl, m1, rest, hstands, hm1, hinput, -, hbound, hdone, hsub, hadv⟩ := h.clear.queueFlush hflush
    simp only [hflush, Obj.andThen] at hrun
    have hzero : sc1.nextStepClock = 0 := hinput.nextStepClock
    have hdir1 : sc1.sdir = some m1.dir := by
      rw [hinput.sdir, hm1]
      exact hdir
    have hbehind1 : sc1.lastStepClock < sc.nextStepClock := by
      have hle := hbound (sc.nextStepClock - 1) (Nat.le_sub_one_of_lt hbehind)
        fun c hc => Nat.le_sub_one_of_lt (hall c hc)
      omega
    have hadv1 : Advanced sc sc1 m m1 (waiting sc m clocks)
        ((rest.map fun c => (m1.dir, c)) ++ [(m1.dir, sc.nextStepClock)]) := by
      obtain ⟨h1, h2, h3⟩ := hadv.behind [(m1.dir, sc.nextStepClock)]
      unfold waiting
      rw [Stands.pending_eq hnext, hsame, ← hm1]
      rw [← hm1] at h3
      exact ⟨h1, h2, h3⟩
    split_ifs at hrun with hfar
    · -- it is still far: nothing was left in the queue
      have hrest : rest = [] := hdone.resolve_right (by omega)
      subst hrest
      obtain ⟨hok, hzero', m', hstands', hadv'⟩ := flushFar_spec hstands hdir1 hzero hbehind1 hlatest hrun
      refine ⟨hok, hzero', m', [], hstands', ?_⟩
      have heq : waiting sc' m' [] = [] := if_pos hzero'
      rw [heq]
      exact hadv1.trans hadv'
    · obtain ⟨hok, hzero', hstands', hadv'⟩ := hstands.push hdir1 hzero hbehind1 (fun c hc => hall c (hsub hc))
        (not_le.mp hfar) hlatest hrun
      refine ⟨hok, hzero', m1, _, hstands', ?_⟩
      have heq : waiting sc' m1 (rest ++ [sc.nextStepClock]) =
          (rest.map fun c => (m1.dir, c)) ++ [(m1.dir, sc.nextStepClock)] := by
        unfold waiting Obj.pending
        rw [if_pos hzero', List.map_append, List.append_nil]
        rfl
      rw [heq]
      exact hadv1.trans (hadv' _)

theorem makeRoom_eq (sc : Obj) : ∃ offset alloc, sc.makeRoom = { sc with offset := offset, alloc := alloc } := by
  unfold Obj.makeRoom
  by_cases hfull : sc.offset + sc.queue.length ≥ sc.alloc
  · rw [if_pos hfull]
    by_cases hoffset : sc.offset > 0
    · rw [if_pos hoffset]
      exact ⟨0, sc.alloc, rfl⟩
    · rw [if_neg hoffset]
      exact ⟨0, _, rfl⟩
  · rw [if_neg hfull]
    exact ⟨sc.offset, sc.alloc, rfl⟩

theorem Stands.room (h : Stands sc m clocks latest) (offset alloc : ℕ) :
    Stands { sc with offset := offset, alloc := alloc } m clocks latest :=
  ⟨⟨h.waits.queue, h.waits.sorted, h.waits.behind, h.waits.near⟩, h.clock, h.dir, h.last, h.queue, h.next, h.bound⟩

theorem Advanced.kept (hadv : Advanced sc sc' m m' (waiting sc m clocks) (waiting sc' m' clocks')) {sc'' : Obj}
    (h : Kept sc' sc'' m' clocks' latest) : Kept sc sc'' m clocks latest := by
  obtain ⟨m'', clocks'', hstands, hadv'⟩ := h
  exact ⟨m'', clocks'', hstands, hadv.trans hadv'⟩

/-- **`queue_append_extend`.** -/
theorem queueAppendExtend_spec (h : Stands sc m clocks latest) (hdir : sc.sdir = some m.dir)
    (hsame : sc.nextStepDir = m.dir) (hnext : sc.nextStepClock ≠ 0)
    (hnear : sc.nextStepClock < sc.lastStepClock + clockDiffMax) (hrun : sc.queueAppendExtend = some (ok, sc')) :
    ok = true ∧ sc'.nextStepClock = 0 ∧ Kept sc sc' m clocks latest := by
  have hpush : ∀ {sc1 : Obj} {m1 rest}, Stands sc1 m1 rest latest → m1.dir = m.dir → SameInput sc sc1 →
      sc.lastStepClock ≤ sc1.lastStepClock → sc1.makeRoom.pushNext = some (ok, sc') →
      ok = true ∧ sc'.nextStepClock = 0 ∧ Kept sc1 sc' m1 rest latest := by
    intro sc1 m1 rest hstands hm1 hinput hle hpush
    obtain ⟨offset, alloc, heq⟩ := makeRoom_eq sc1
    rw [heq] at hpush
    obtain ⟨hok, hzero, m', clocks', hstands', h1, h2, h3⟩ := (hstands.room offset alloc).pushNext
      (show sc1.sdir = _ by rw [hinput.sdir, hm1, hdir])
      (show sc1.nextStepDir = _ by rw [hinput.nextStepDir, hm1, hsame])
      (show sc1.nextStepClock ≠ 0 by rw [hinput.nextStepClock]; exact hnext)
      (show sc1.nextStepClock < sc1.lastStepClock + _ by rw [hinput.nextStepClock]; omega) hpush
    exact ⟨hok, hzero, m', clocks', hstands', h1, h2, h3⟩
  unfold Obj.queueAppendExtend at hrun
  by_cases hlong : sc.queue.length > 65535 + 2000
  · simp only [if_pos hlong] at hrun
    cases hflush : sc.queueFlush (sc.lastStepClock +
        (sc.queue.getD (sc.queue.length - 65535) 0 - UInt32.ofNat sc.lastStepClock).toNat) with
    | none =>
      rw [hflush] at hrun
      cases hrun
    | some r =>
      obtain ⟨ok', sc1⟩ := r
      obtain ⟨rfl, m1, rest, hstands, hm1, hinput, hle, -, -, -, hadv⟩ := h.queueFlush hflush
      rw [hflush, Obj.andThen_some] at hrun
      obtain ⟨hok, hzero, hkept⟩ := hpush hstands hm1 hinput hle hrun
      refine ⟨hok, hzero, Advanced.kept ?_ hkept⟩
      unfold waiting
      rw [show sc1.pending = sc.pending by unfold Obj.pending; rw [hinput.nextStepClock, hinput.nextStepDir]]
      exact hadv.behind _
  · simp only [if_neg hlong, Obj.andThen_some] at hrun
    exact hpush h rfl ⟨rfl, rfl, rfl, rfl, rfl, rfl, rfl⟩ le_rfl hrun

/-- **The end of `queue_append`.** -/
theorem queueAppendHere_spec (h : Stands sc m clocks latest) (hdir : sc.sdir = some m.dir)
    (hsame : sc.nextStepDir = m.dir) (hnext : sc.nextStepClock ≠ 0) (hrun : sc.queueAppendHere = some (ok, sc')) :
    ok = true ∧ sc'.nextStepClock = 0 ∧ Kept sc sc' m clocks latest := by
  unfold Obj.queueAppendHere at hrun
  split_ifs at hrun with hfar hfull
  · exact queueAppendFar_spec h hdir hsame hnext hrun
  · exact queueAppendExtend_spec h hdir hsame hnext (not_le.mp hfar) hrun
  · exact h.pushNext hdir hsame hnext (not_le.mp hfar) hrun

theorem Stands.queueFlush_all (h : Stands sc m clocks latest) (hrun : sc.queueFlush uint64Max = some (ok, sc')) :
    ok = true ∧ ∃ m', Stands sc' m' [] latest ∧ m'.dir = m.dir ∧ SameInput sc sc' ∧
      Advanced sc sc' m m' (clocks.map fun c => (m.dir, c)) [] := by
  obtain ⟨hok, m', rest, hstands, hm', hinput, -, -, hdone, -, hadv⟩ := h.queueFlush hrun
  have hrest : rest = [] := by
    refine hdone.resolve_right fun hle => ?_
    have hlast := hstands.last
    have hbound := h.bound
    unfold uint64Max at hle
    omega
  subst hrest
  exact ⟨hok, m', hstands, hm', hinput, hadv⟩

/-- **`set_next_step_dir`**, where the direction changes. -/
theorem setNextStepDir_spec (h : Stands sc m clocks latest) (hne : sc.sdir ≠ some sdir)
    (hrun : sc.setNextStepDir sdir = some (ok, sc')) :
    ok = true ∧ ∃ m', Stands sc' m' [] latest ∧ sc'.sdir = some m'.dir ∧ m'.dir = sdir ∧
      sc'.nextStepClock = sc.nextStepClock ∧ sc'.nextStepDir = sc.nextStepDir ∧
      Advanced sc sc' m m' (clocks.map fun c => (m.dir, c)) [] := by
  unfold Obj.setNextStepDir at hrun
  rw [if_neg hne] at hrun
  cases hflush : sc.queueFlush uint64Max with
  | none =>
    rw [hflush] at hrun
    cases hrun
  | some r =>
    obtain ⟨ok', sc1⟩ := r
    obtain ⟨rfl, m1, hstands, -, hinput, hadv⟩ := h.queueFlush_all hflush
    rw [hflush, Obj.andThen_some] at hrun
    cases hrun
    refine ⟨rfl, ⟨m1.clock, sdir⟩, ⟨⟨hstands.waits.queue, List.Pairwise.nil, fun c hc => ?_, fun c hc => ?_⟩,
      hstands.clock,
      Or.inl rfl, hstands.last, hstands.queue, hstands.next, hstands.bound⟩, rfl, rfl, hinput.nextStepClock,
      hinput.nextStepDir, hadv.trans (Advanced.message rfl rfl _ rfl rfl ?_)⟩
    · cases hc
    · cases hc
    · simp [Motor.step]

/-- **`queue_append`.** -/
theorem queueAppend_spec (h : Stands sc m clocks latest) (hnext : sc.nextStepClock ≠ 0)
    (hrun : sc.queueAppend = some (ok, sc')) : ok = true ∧ sc'.nextStepClock = 0 ∧ Kept sc sc' m clocks latest := by
  unfold Obj.queueAppend at hrun
  by_cases hdir : sc.sdir = some sc.nextStepDir
  · rw [if_neg (not_not.mpr hdir)] at hrun
    have hm : sc.nextStepDir = m.dir := by
      rcases h.dir with hsome | ⟨hnone, -⟩
      · exact Option.some.inj (hdir.symm.trans hsome)
      · rw [hnone] at hdir
        cases hdir
    exact queueAppendHere_spec h (hdir.trans (congrArg some hm)) hm hnext hrun
  · rw [if_pos hdir] at hrun
    cases hset : sc.setNextStepDir sc.nextStepDir with
    | none =>
      rw [hset] at hrun
      cases hrun
    | some r =>
      obtain ⟨ok', sc1⟩ := r
      obtain ⟨rfl, m1, hstands, hdir1, hm1, hclock1, hnext1, hadv⟩ := setNextStepDir_spec h hdir hset
      rw [hset, Obj.andThen_some] at hrun
      have hne1 : sc1.nextStepClock ≠ 0 := by
        rw [hclock1]
        exact hnext
      obtain ⟨hok, hzero, hkept⟩ := queueAppendHere_spec hstands hdir1 (hnext1.trans hm1.symm) hne1 hrun
      refine ⟨hok, hzero, Advanced.kept ?_ hkept⟩
      have hpending : sc1.pending = sc.pending := by
        unfold Obj.pending
        rw [hclock1, hnext1]
      unfold waiting
      rw [hpending]
      exact hadv.behind _

theorem appendPending_spec (h : Stands sc m clocks latest) {p : Prop} [Decidable p] (hp : p → sc.nextStepClock ≠ 0)
    (hrun : (if p then sc.queueAppend else some (true, sc)) = some (ok, sc')) :
    ok = true ∧ (p → sc'.nextStepClock = 0) ∧ (¬ p → sc' = sc) ∧ Kept sc sc' m clocks latest := by
  split_ifs at hrun with hcond
  · obtain ⟨hok, hzero, hkept⟩ := queueAppend_spec h (hp hcond) hrun
    exact ⟨hok, fun _ => hzero, fun hn => absurd hcond hn, hkept⟩
  · cases hrun
    exact ⟨rfl, fun hc => absurd hc hcond, fun _ => rfl, Kept.refl h⟩

/-- **`stepcompress_flush`** leaves no step before its clock. -/
theorem flush_spec (h : Stands sc m clocks latest) (hrun : sc.flush moveClock = some (ok, sc')) :
    ok = true ∧ ∃ m' clocks', Stands sc' m' clocks' latest ∧
      Advanced sc sc' m m' (waiting sc m clocks) (waiting sc' m' clocks') ∧
      ∀ s ∈ waiting sc' m' clocks', moveClock < s.2 := by
  unfold Obj.flush at hrun
  cases happend : (if sc.nextStepClock ≠ 0 ∧ moveClock ≥ sc.nextStepClock then sc.queueAppend else some (true, sc)) with
  | none =>
    rw [happend] at hrun
    cases hrun
  | some r =>
    obtain ⟨ok', sc1⟩ := r
    obtain ⟨rfl, hzero, hsame, m1, clocks1, hstands1, hadv1⟩ := appendPending_spec h And.left happend
    rw [happend, Obj.andThen_some] at hrun
    obtain ⟨hok, m', rest, hstands, hm', hinput, -, -, hdone, -, hadv⟩ := hstands1.queueFlush hrun
    have hpending : sc'.pending = sc1.pending := by
      unfold Obj.pending
      rw [hinput.nextStepClock, hinput.nextStepDir]
    refine ⟨hok, m', rest, hstands, hadv1.trans ?_, fun s hs => ?_⟩
    · unfold waiting
      rw [hpending]
      exact hadv.behind _
    · unfold waiting at hs
      rcases List.mem_append.mp hs with hq | hp
      · obtain ⟨c, hc, rfl⟩ := List.mem_map.mp hq
        have hbehind := hstands.waits.behind c hc
        rcases hdone with rfl | hle
        · cases hc
        · exact hle.trans_lt hbehind
      · -- a step is pending only where it was not appended
        rw [hpending] at hp
        unfold Obj.pending at hp
        by_cases hcond : sc.nextStepClock ≠ 0 ∧ moveClock ≥ sc.nextStepClock
        · rw [if_pos (hzero hcond)] at hp
          cases hp
        · rw [hsame hcond] at hp
          split_ifs at hp with hnext
          · cases hp
          · rw [List.mem_singleton.mp hp]
            exact not_le.mp fun hle => hcond ⟨hnext, hle⟩

theorem flush_all (h : Stands sc m clocks latest) (hrun : sc.flush uint64Max = some (ok, sc')) :
    ok = true ∧ ∃ m', Stands sc' m' [] latest ∧ sc'.nextStepClock = 0 ∧
      Advanced sc sc' m m' (waiting sc m clocks) [] := by
  obtain ⟨hok, m', clocks', hstands, hadv, hbehind⟩ := flush_spec h hrun
  have hnil : waiting sc' m' clocks' = [] := by
    refine List.eq_nil_iff_forall_not_mem.mpr fun s hs => ?_
    have h1 := hbehind s hs
    have h2 := (hstands.mem_waiting hs).2
    have h3 := h.bound
    unfold uint64Max at h1
    omega
  rw [hnil] at hadv
  obtain ⟨hclocks, hpending⟩ := List.append_eq_nil_iff.mp hnil
  have hzero : sc'.nextStepClock = 0 := by
    by_contra hne
    rw [Stands.pending_eq hne] at hpending
    cases hpending
  rw [List.map_eq_nil_iff.mp hclocks] at hstands
  exact ⟨hok, m', hstands, hzero, hadv⟩

/-- **`stepcompress_commit`.** -/
theorem commit_spec (h : Stands sc m clocks latest) (hrun : sc.commit = some (ok, sc')) :
    ok = true ∧ Kept sc sc' m clocks latest := by
  obtain ⟨hok, -, -, hkept⟩ := appendPending_spec h id hrun
  exact ⟨hok, hkept⟩

theorem Stands.append (h : Stands sc m clocks latest) (hnext : sc.nextStepClock = 0) (hlatest : latest < stepClock)
    (hbound : stepClock < 2 ^ 63) (sdir : Bool) :
    Stands { sc with nextStepClock := stepClock, nextStepDir := sdir } m clocks stepClock ∧
      waiting { sc with nextStepClock := stepClock, nextStepDir := sdir } m clocks =
        waiting sc m clocks ++ [(sdir, stepClock)] := by
  refine ⟨⟨⟨h.waits.queue, h.waits.sorted, h.waits.behind, h.waits.near⟩, h.clock, h.dir, h.last.trans hlatest.le,
    fun c hc => (h.queue c hc).trans hlatest.le,
    fun _ => ⟨le_rfl, h.last.trans_lt hlatest, fun c hc => (h.queue c hc).trans_lt hlatest⟩, hbound⟩, ?_⟩
  unfold waiting Obj.pending
  rw [if_neg (show stepClock ≠ 0 by omega), if_pos hnext, List.append_nil]

/-- **`stepcompress_append`**, where the last step is not taken back. -/
theorem append_spec (h : Stands sc m clocks latest) (hroll : ¬ sc.rollsBack sdir stepClock)
    (hlatest : latest < stepClock)
    (hbound : stepClock < 2 ^ 63) (hrun : sc.append sdir stepClock = some (ok, sc')) :
    ok = true ∧ ∃ m' clocks', Stands sc' m' clocks' stepClock ∧
      Advanced sc sc' m m' (waiting sc m clocks ++ [(sdir, stepClock)]) (waiting sc' m' clocks') := by
  unfold Obj.append at hrun
  rw [if_neg hroll] at hrun
  cases happend : (if sc.nextStepClock ≠ 0 then sc.queueAppend else some (true, sc)) with
  | none =>
    rw [happend] at hrun
    cases hrun
  | some r =>
    obtain ⟨ok', sc1⟩ := r
    obtain ⟨rfl, hzero, hsame, m1, clocks1, hstands, hadv⟩ := appendPending_spec h id happend
    rw [happend, Obj.andThen_some] at hrun
    cases hrun
    have hnext1 : sc1.nextStepClock = 0 := by
      by_cases hnext : sc.nextStepClock ≠ 0
      · exact hzero hnext
      · rw [hsame hnext]
        exact not_not.mp hnext
    obtain ⟨hstands', hwaiting⟩ := hstands.append hnext1 hlatest hbound sdir
    refine ⟨rfl, m1, clocks1, hstands', ?_⟩
    obtain ⟨h1, h2, h3⟩ := hadv.behind [(sdir, stepClock)]
    rw [hwaiting]
    exact ⟨h1, h2, h3⟩

theorem flushThen_spec (h : Stands sc m clocks latest) {f : Obj → Result}
    (hrun : Obj.andThen (sc.flush uint64Max) f = some (ok, sc')) :
    ∃ sc1 m1, Stands sc1 m1 [] latest ∧ sc1.nextStepClock = 0 ∧ Advanced sc sc1 m m1 (waiting sc m clocks) [] ∧
      f sc1 = some (ok, sc') := by
  cases hflush : sc.flush uint64Max with
  | none =>
    rw [hflush] at hrun
    cases hrun
  | some r =>
    obtain ⟨ok', sc1⟩ := r
    obtain ⟨rfl, m1, hstands, hzero, hadv⟩ := flush_all h hflush
    rw [hflush, Obj.andThen_some] at hrun
    exact ⟨sc1, m1, hstands, hzero, hadv, hrun⟩

theorem waits_nil (hqueue : sc.queue = []) : Waits sc [] :=
  ⟨hqueue, List.Pairwise.nil, fun _ hc => absurd hc List.not_mem_nil, fun _ hc => absurd hc List.not_mem_nil⟩

/-- **`stepcompress_queue_msg`**: a command that no step waits for. -/
theorem queueMsg_spec (h : Stands sc m clocks latest) (data : List UInt32)
    (hrun : sc.queueMsg (.other data) = some (ok, sc')) :
    ok = true ∧ ∃ m', Stands sc' m' [] latest ∧ sc'.nextStepClock = 0 ∧
      Advanced sc sc' m m' (waiting sc m clocks) [] := by
  obtain ⟨sc1, m1, hstands, hzero, hadv, hf⟩ := flushThen_spec h hrun
  cases hf
  exact ⟨rfl, m1, ⟨waits_nil hstands.waits.queue, hstands.clock, hstands.dir, hstands.last, hstands.queue,
    hstands.next, hstands.bound⟩,
    hzero, hadv.trans (Advanced.message rfl rfl _ rfl rfl rfl)⟩

/-- **The end of a homing move**: the clocks start again, in the queue and in the motor. -/
theorem noteHomingEnd_spec (h : Stands sc m clocks latest) (hrun : sc.noteHomingEnd = some (ok, sc')) :
    ok = true ∧ ∃ m', Stands sc' m' [] 0 ∧ sc'.nextStepClock = 0 ∧ Advanced sc sc' m m' (waiting sc m clocks) [] := by
  unfold Obj.noteHomingEnd at hrun
  cases hreset : sc.reset 0 with
  | none =>
    rw [hreset] at hrun
    cases hrun
  | some r =>
    obtain ⟨ok', sc1⟩ := r
    obtain ⟨sc2, m2, hstands, hzero, hadv, hf⟩ := flushThen_spec h hreset
    obtain ⟨hist, hhist⟩ := calcLastStepPrintTime_eq { sc2 with lastStepClock := 0, sdir := none }
    simp only [hhist] at hf
    cases hf
    rw [hreset, Obj.andThen_some] at hrun
    have hqueue : sc2.queue = [] := hstands.waits.queue
    -- there is nothing to flush again
    simp only [Obj.queueMsg, Obj.flush, Obj.queueFlush, hzero, hqueue, ne_eq, not_true_eq_false, false_and, if_false,
      if_true, Obj.andThen_some] at hrun
    cases hrun
    refine ⟨rfl, ⟨0, m2.dir⟩, ⟨waits_nil rfl, rfl, Or.inr ⟨rfl, rfl⟩, le_rfl, fun _ hc => absurd hc List.not_mem_nil,
      fun hne => absurd rfl hne, by norm_num⟩, rfl, ?_⟩
    exact hadv.trans (Advanced.message rfl rfl _ rfl rfl rfl)

/-- **`stepcompress_set_last_position`.** -/
theorem setLastPosition_spec (h : Stands sc m clocks latest) {clock : ℕ} {lastPosition : ℤ}
    (hrun : sc.setLastPosition clock lastPosition = some (ok, sc')) :
    ok = true ∧ ∃ sc1 m', Stands sc' m' [] latest ∧ sc'.nextStepClock = 0 ∧
      Advanced sc sc1 m m' (waiting sc m clocks) [] ∧ sc'.msgQueue = sc1.msgQueue ∧ sc'.maxError = sc1.maxError ∧
      sc'.invertSdir = sc1.invertSdir ∧ sc'.lastPosition = lastPosition := by
  obtain ⟨sc1, m1, hstands, hzero, hadv, hf⟩ := flushThen_spec h hrun
  cases hf
  exact ⟨rfl, sc1, m1, ⟨waits_nil hstands.waits.queue, hstands.clock, hstands.dir, hstands.last, hstands.queue,
    hstands.next, hstands.bound⟩, hzero, hadv, rfl, rfl, rfl, rfl⟩

end Functions

/-! ## Runs -/

section Runs

variable {w w' : World} {m0 m : Motor} {clocks : List ℕ} {latest : ℕ} {maxError : UInt32} {invertSdir ok : Bool}
  {filterTicks : ℤ} {expire : ℕ → Option ℕ} {es : List Event}

/-- **The steps that were given** are those of the motor and those that wait, and the position is the one of the
motor. -/
structure Tracks (maxError : UInt32) (invertSdir : Bool) (m0 : Motor) (w : World) (m : Motor) (clocks : List ℕ)
    (latest : ℕ) : Prop where
  error_eq : w.sc.maxError = maxError
  invert_eq : w.sc.invertSdir = invertSdir
  stands : Stands w.sc m clocks latest
  steps : ∃ done emitted, w.given = done ++ waiting w.sc m clocks ∧ m0.run invertSdir w.messages = (m, emitted) ∧
    List.Forall₂ (Close maxError) done emitted
  position : w.sc.lastPosition + travel (waiting w.sc m clocks) = w.position

/-- The steps that the motor takes keep their direction, so they go as far as they should. -/
theorem travel_close {done : List (Bool × ℕ)} {emitted : List (Bool × UInt32)}
    (h : List.Forall₂ (Close maxError) done emitted) : travel emitted = travel done := by
  induction h with
  | nil => rfl
  | @cons s t l l' hs _ ih =>
    have hcons : ∀ {α : Type} (s : Bool × α) l, travel (s :: l) =
      (if s.1 then (1 : ℤ) else -1) + travel l := fun _ _ => rfl
    rw [hcons, hcons, ih, hs.1]

/-- A function that takes some of the steps that wait; `l` are those it was given. -/
theorem Tracks.advance (h : Tracks maxError invertSdir m0 w m clocks latest) {sc' : Obj} {m' : Motor} {clocks' : List ℕ}
    {latest' : ℕ} {l : List (Bool × ℕ)} (hstands : Stands sc' m' clocks' latest')
    (hadv : Advanced w.sc sc' m m' (waiting w.sc m clocks ++ l) (waiting sc' m' clocks')) :
    Tracks maxError invertSdir m0 { w with sc := sc', given := w.given ++ l, position := w.position + travel l }
      m' clocks' latest' := by
  obtain ⟨hmax, hinv, -, ⟨done, emitted, hgiven, hrun, hclose⟩, hpos⟩ := h
  obtain ⟨hmax', hinv', taken, msgs, emitted', hsplit, hmsgs, hrun', hclose', hpos'⟩ := hadv
  refine ⟨hmax'.trans hmax, hinv'.trans hinv, hstands, ⟨done ++ taken, emitted ++ emitted', ?_, ?_, ?_⟩, ?_⟩
  · rw [hgiven, List.append_assoc, hsplit, List.append_assoc]
  · have hmessages : ({ w with sc := sc', given := w.given ++ l, position := w.position + travel l } : World).messages =
        w.messages ++ msgs := by
      unfold World.messages
      rw [hmsgs, List.append_assoc]
    rw [hinv] at hrun'
    rw [hmessages, Motor.run_append, hrun, hrun']
  · exact List.rel_append hclose (hmax ▸ hclose')
  · have htravel : travel (waiting w.sc m clocks) + travel l = travel taken + travel (waiting sc' m' clocks') := by
      rw [← travel_append, hsplit, travel_append]
    rw [← hpos, hpos', travel_close hclose']
    linarith

theorem Tracks.call (h : Tracks maxError invertSdir m0 w m clocks latest) {sc' : Obj} {m' : Motor} {clocks' : List ℕ}
    {latest' : ℕ} (hstands : Stands sc' m' clocks' latest')
    (hadv : Advanced w.sc sc' m m' (waiting w.sc m clocks) (waiting sc' m' clocks')) :
    Tracks maxError invertSdir m0 { w with sc := sc' } m' clocks' latest' := by
  have hadv' : Advanced w.sc sc' m m' (waiting w.sc m clocks ++ []) (waiting sc' m' clocks') := by
    rw [List.append_nil]
    exact hadv
  have hnext := h.advance hstands hadv'
  rw [List.append_nil, show travel ([] : List (Bool × ℕ)) = 0 from rfl, add_zero] at hnext
  exact hnext

theorem waiting_nil (sc : Obj) (hzero : sc.nextStepClock = 0) (m : Motor) : waiting sc m [] = [] := if_pos hzero

theorem World.call_eq {r : Result} (h : w.call r = some (ok, w')) :
    ∃ sc', r = some (ok, sc') ∧ w' = { w with sc := sc' } := by
  obtain ⟨⟨ok', sc'⟩, hr, heq⟩ := Option.map_eq_some_iff.mp h
  cases heq
  exact ⟨sc', hr, rfl⟩

/-- **The last step is taken back**: it and the new one go nowhere together. -/
theorem Tracks.rollBack (h : Tracks maxError invertSdir m0 w m clocks latest) {sdir : Bool} {stepClock : ℕ}
    (hroll : w.sc.rollsBack sdir stepClock) (hlatest : latest < stepClock) (hbound : stepClock < 2 ^ 63) :
    Tracks maxError invertSdir m0
      { w with
        given := w.given.dropLast
        position := w.position + if sdir then 1 else -1
        sc := { w.sc with nextStepClock := 0, nextStepDir := sdir } } m clocks stepClock := by
  obtain ⟨hnext, hdir, -⟩ := hroll
  obtain ⟨hmax, hinv, hstands, ⟨done, emitted, hgiven, hrun, hclose⟩, hpos⟩ := h
  have hwaiting : waiting w.sc m clocks = (clocks.map fun c => (m.dir, c)) ++
      [(w.sc.nextStepDir, w.sc.nextStepClock)] := by
    unfold waiting
    rw [Stands.pending_eq hnext]
  have hwaiting' : waiting { w.sc with nextStepClock := 0, nextStepDir := sdir } m clocks =
      clocks.map fun c => (m.dir, c) := by
    unfold waiting Obj.pending
    rw [if_pos rfl, List.append_nil]
  refine ⟨hmax, hinv, ⟨⟨hstands.waits.queue, hstands.waits.sorted, hstands.waits.behind, hstands.waits.near⟩,
    hstands.clock, hstands.dir, hstands.last.trans hlatest.le, fun c hc => (hstands.queue c hc).trans hlatest.le,
    fun hne => absurd rfl hne, hbound⟩, ⟨done, emitted, ?_, hrun, hclose⟩, ?_⟩
  · rw [hwaiting', hgiven, hwaiting, ← List.append_assoc, List.dropLast_concat]
  · rw [hwaiting, travel_append, travel_singleton] at hpos
    rw [hwaiting', ← hpos]
    revert hdir
    cases sdir <;> cases w.sc.nextStepDir <;> simp <;> ring

/-- **One call** does not fail, and the steps are kept. -/
theorem Tracks.step (h : Tracks maxError invertSdir m0 w m clocks latest) {e : Event} (htimed : Timed latest (e :: es))
    (hstep : w.step e = some (ok, w')) :
    ok = true ∧ ∃ m' clocks' latest', Tracks maxError invertSdir m0 w' m' clocks' latest' ∧ Timed latest' es := by
  cases e with
  | append sdir stepClock =>
    obtain ⟨hlatest, hbound, htimed⟩ := htimed
    obtain ⟨sc', hr, rfl⟩ := World.call_eq hstep
    by_cases hroll : w.sc.rollsBack sdir stepClock
    · unfold Obj.append at hr
      rw [if_pos hroll] at hr
      cases hr
      refine ⟨rfl, m, clocks, stepClock, ?_, htimed⟩
      rw [if_pos hroll]
      exact h.rollBack hroll hlatest hbound
    · obtain ⟨hok, m', clocks', hstands, hadv⟩ := append_spec h.stands hroll hlatest hbound hr
      refine ⟨hok, m', clocks', stepClock, ?_, htimed⟩
      have hnext := h.advance hstands hadv
      rw [travel_singleton] at hnext
      rw [if_neg hroll]
      exact hnext
  | commit =>
    obtain ⟨sc', hr, rfl⟩ := World.call_eq hstep
    obtain ⟨hok, m', clocks', hstands, hadv⟩ := commit_spec h.stands hr
    exact ⟨hok, m', clocks', latest, h.call hstands hadv, htimed⟩
  | flush moveClock =>
    obtain ⟨sc', hr, rfl⟩ := World.call_eq hstep
    obtain ⟨hok, m', clocks', hstands, hadv, -⟩ := flush_spec h.stands hr
    exact ⟨hok, m', clocks', latest, h.call hstands hadv, htimed⟩
  | queueMsg data =>
    obtain ⟨sc', hr, rfl⟩ := World.call_eq hstep
    obtain ⟨hok, m', hstands, hzero, hadv⟩ := queueMsg_spec h.stands data hr
    rw [← waiting_nil _ hzero m'] at hadv
    exact ⟨hok, m', [], latest, h.call hstands hadv, htimed⟩
  | noteHomingEnd =>
    obtain ⟨sc', hr, rfl⟩ := World.call_eq hstep
    obtain ⟨hok, m', hstands, hzero, hadv⟩ := noteHomingEnd_spec h.stands hr
    rw [← waiting_nil _ hzero m'] at hadv
    exact ⟨hok, m', [], 0, h.call hstands hadv, htimed⟩
  | setLastPosition clock lastPosition =>
    obtain ⟨sc', hr, rfl⟩ := World.call_eq hstep
    obtain ⟨hok, sc1, m', hstands, hzero, ⟨hmax, hinv, taken, msgs, emitted, hsplit, hmsgs, hrun, hclose, -⟩,
      hmsgs', hmax',
      hinv', hpos'⟩ := setLastPosition_spec h.stands hr
    -- the position is a new one, so only the steps are those of the flush
    have hadv : Advanced w.sc { sc' with lastPosition := w.sc.lastPosition + travel emitted } m m'
        (waiting w.sc m clocks) (waiting { sc' with lastPosition := w.sc.lastPosition + travel emitted } m' []) := by
      rw [waiting_nil { sc' with lastPosition := w.sc.lastPosition + travel emitted } hzero]
      exact ⟨hmax'.trans hmax, hinv'.trans hinv, taken, msgs, emitted, hsplit, hmsgs'.trans hmsgs, hrun, hclose, rfl⟩
    have hstands' : Stands { sc' with lastPosition := w.sc.lastPosition + travel emitted } m' [] latest :=
      ⟨waits_nil hstands.waits.queue, hstands.clock, hstands.dir, hstands.last, hstands.queue, hstands.next,
        hstands.bound⟩
    obtain ⟨h1, h2, -, h4, -⟩ := h.call hstands' hadv
    refine ⟨hok, m', [], latest, ⟨h1, h2, hstands, h4, ?_⟩, htimed⟩
    rw [waiting_nil _ hzero]
    exact (add_zero _).trans hpos'
  | transmit =>
    cases hstep
    obtain ⟨h1, h2, h3, ⟨done, emitted, hgiven, hrun, hclose⟩, h5⟩ := h
    have hmessages : ({ w with
        sent := w.sent ++ w.sc.msgQueue.take 1
        sc := { w.sc with msgQueue := w.sc.msgQueue.drop 1 } } : World).messages = w.messages := by
      unfold World.messages
      rw [List.append_assoc, List.take_append_drop]
    exact ⟨rfl, m, clocks, latest, ⟨h1, h2, ⟨⟨h3.waits.queue, h3.waits.sorted, h3.waits.behind, h3.waits.near⟩,
      h3.clock,
      h3.dir, h3.last, h3.queue, h3.next, h3.bound⟩, ⟨done, emitted, hgiven, by rw [hmessages]; exact hrun, hclose⟩,
        h5⟩,
      htimed⟩

theorem Tracks.init (d : Bool) (filterTicks : ℤ) (expire : ℕ → Option ℕ) :
    Tracks maxError invertSdir ⟨0, d⟩ (World.init maxError invertSdir filterTicks expire) ⟨0, d⟩ [] 0 :=
  ⟨rfl, rfl, ⟨waits_nil rfl, rfl, Or.inr ⟨rfl, rfl⟩, le_rfl, fun _ hc => absurd hc List.not_mem_nil,
    fun hne => absurd rfl hne, by norm_num⟩, ⟨[], [], rfl, rfl, List.Forall₂.nil⟩, rfl⟩

/-- **Every run.** -/
theorem Tracks.run (h : Tracks maxError invertSdir m0 w m clocks latest) (htimed : Timed latest es)
    (hrun : w.run es = some (ok, w')) :
    ok = true ∧ ∃ m' clocks' latest', Tracks maxError invertSdir m0 w' m' clocks' latest' := by
  induction es generalizing w m clocks latest with
  | nil =>
    cases hrun
    exact ⟨rfl, m, clocks, latest, h⟩
  | cons e es ih =>
    rw [World.run] at hrun
    cases hstep : w.step e with
    | none =>
      rw [hstep] at hrun
      cases hrun
    | some r =>
      obtain ⟨ok', w1⟩ := r
      obtain ⟨rfl, m1, clocks1, latest1, h1, htimed1⟩ := h.step htimed hstep
      rw [hstep] at hrun
      exact ih h1 htimed1 hrun

/-- **`steps_within`**: whatever the caller does, as long as the clocks of its steps rise and no behaviour is
undefined, no function returns an error; the motor takes the steps that were given, in their order and direction, each
one at most `max_error` ticks early, up to some that wait; and the position is that of the caller when these are taken
too. -/
theorem steps_within (d : Bool) (htimed : Timed 0 es)
    (hrun : (World.init maxError invertSdir filterTicks expire).run es = some (ok, w)) :
    ok = true ∧ ∃ done wait, w.given = done ++ wait ∧
      List.Forall₂ (Close maxError) done (Motor.run invertSdir ⟨0, d⟩ w.messages).2 ∧
      w.sc.lastPosition + travel wait = w.position := by
  obtain ⟨hok, m, clocks, latest, -, -, -, ⟨done, emitted, hgiven, hmotor, hclose⟩, hpos⟩ :=
    (Tracks.init d filterTicks expire).run htimed hrun
  exact ⟨hok, done, _, hgiven, by rw [hmotor]; exact hclose, hpos⟩

/-- Three steps, and one back that is still pending. -/
def threeSteps : List Event :=
  [.append true 1000, .append true 2100, .transmit, .append true 3000, .commit, .append false 9000]

theorem threeSteps_runs :
    ∃ w, (World.init 25 false 100 fun _ => none).run (threeSteps ++ [.flush 5000]) = some (true, w) := by
  have hsome : ((World.init 25 false 100 fun _ => none).run (threeSteps ++ [.flush 5000])).map Prod.fst =
      some true := by
    decide +kernel
  obtain ⟨⟨ok, w⟩, hrun, hok⟩ := Option.map_eq_some_iff.mp hsome
  cases hok
  exact ⟨w, hrun⟩

theorem steps_within_concreteCase :
    ∃ w, (World.init 25 false 100 fun _ => none).run (threeSteps ++ [.flush 5000]) = some (true, w) ∧
      ∃ done wait, w.given = done ++ wait ∧
        List.Forall₂ (Close 25) done (Motor.run false ⟨0, false⟩ w.messages).2 ∧
        w.sc.lastPosition + travel wait = w.position := by
  obtain ⟨w, hrun⟩ := threeSteps_runs
  exact ⟨w, hrun, (steps_within false (by simp [threeSteps, Timed]) hrun).2⟩

theorem World.run_append (w : World) (es : List Event) (e : Event) :
    w.run (es ++ [e]) =
      match w.run es with
      | none => none
      | some (false, w) => some (false, w)
      | some (true, w) => w.step e := by
  induction es generalizing w with
  | nil =>
    simp only [List.nil_append, World.run]
    rcases w.step e with _ | ⟨_ | _, w'⟩ <;> rfl
  | cons e' es ih =>
    rw [List.cons_append, World.run, World.run]
    rcases w.step e' with _ | ⟨_ | _, w'⟩
    · rfl
    · rfl
    · exact ih w'

/-- **`flushed_in_time`**: behind a flush the motor has every step up to its clock, and those that wait are behind
it. -/
theorem flushed_in_time (d : Bool) {moveClock : ℕ} (htimed : Timed 0 es)
    (hrun : (World.init maxError invertSdir filterTicks expire).run (es ++ [.flush moveClock]) = some (ok, w)) :
    ok = true ∧ ∃ done wait, w.given = done ++ wait ∧
      List.Forall₂ (Close maxError) done (Motor.run invertSdir ⟨0, d⟩ w.messages).2 ∧
      ∀ s ∈ wait, moveClock < s.2 := by
  rw [World.run_append] at hrun
  cases hbefore : (World.init maxError invertSdir filterTicks expire).run es with
  | none =>
    rw [hbefore] at hrun
    cases hrun
  | some r =>
    obtain ⟨ok', w1⟩ := r
    obtain ⟨rfl, m1, clocks1, latest1, h1⟩ := (Tracks.init d filterTicks expire).run htimed hbefore
    rw [hbefore] at hrun
    obtain ⟨sc', hr, rfl⟩ := World.call_eq hrun
    obtain ⟨hok, m', clocks', hstands, hadv, hbehind⟩ := flush_spec h1.stands hr
    obtain ⟨-, -, -, ⟨done, emitted, hgiven, hmotor, hclose⟩, -⟩ := h1.call hstands hadv
    exact ⟨hok, done, _, hgiven, by rw [hmotor]; exact hclose, hbehind⟩

theorem flushed_in_time_concreteCase :
    ∃ w, (World.init 25 false 100 fun _ => none).run (threeSteps ++ [.flush 5000]) = some (true, w) ∧
      ∃ done wait, w.given = done ++ wait ∧
        List.Forall₂ (Close 25) done (Motor.run false ⟨0, false⟩ w.messages).2 ∧ ∀ s ∈ wait, 5000 < s.2 := by
  obtain ⟨w, hrun⟩ := threeSteps_runs
  exact ⟨w, hrun, (flushed_in_time false (by simp [threeSteps, Timed]) hrun).2⟩

end Runs

end Cxsw.StepCompress
