import Mathlib.Algebra.GroupWithZero.Nat
import Mathlib.Data.Int.Notation
import Cxsw.Lib.Run

/-!
# Cxsw.CrLcd.CrKnobEvent — the knob (`CrLcd/KnobEvent/CrKnobEvent.c`, `CrController/CrController.cpp`)

A timer callback, `CrKnobEventScan`, looks at the pins and stores what it detects in the two fields of `KnobEvent`; the
controller thread has `KnobCmdGetKnobEvent` copy the fields and clear them, and passes one action code on.  The two
parties interleave statement by statement.

* `Delivered`: everything detected is handed over once or still on its way, and every event handed over makes an action.
* `delivered_run_iff`: the runs in which this holds in every state.
-/

namespace Cxsw.Knob

/-! ## The scan -/

section Scan

/-- `enum KnobMtion_t`. -/
inductive KnobMtion where
  | none
  | up
  | down
  deriving DecidableEq

/-- `struct KnobEvent_t`; the button is down or not. -/
structure KnobEvent where
  knobMtion : KnobMtion
  knobButton : Bool
  deriving DecidableEq

/-- The static variables of `CrKnobEventScan`; a pin is set or not. -/
structure ScanState where
  scanEvent : ℤ
  startTick : BitVec 32
  pinALast : Bool
  buttonLaststatus : Bool
  deriving DecidableEq

/-- The pins of a scan, and what the calls of `HAL_GetTick` return: at the falling edge, and in the two comparisons. -/
structure PinSample where
  pinA : Bool
  pinB : Bool
  button : Bool
  startTick : BitVec 32
  tick1 : BitVec 32
  tick2 : BitVec 32

/-- The first half of the scan: the detent that it detects. -/
def scanMtion (s : ScanState) (p : PinSample) : ScanState × KnobMtion :=
  if p.pinA ≠ s.pinALast then
    if p.pinA = false then
      ({ s with startTick := p.startTick, scanEvent := if p.pinB then 1 else -1, pinALast := p.pinA }, .none)
    else ({ s with pinALast := p.pinA }, .none)
  else if p.pinA ∧ p.pinB then
    if 5 < p.tick1 - s.startTick ∧ p.tick2 - s.startTick < 500 then
      ({ s with scanEvent := 0 },
        if s.scanEvent = 1 then .down else if s.scanEvent = -1 then .up else .none)
    else (s, .none)
  else (s, .none)

/-- The second half: whether it detects a press. -/
def scanButton (s : ScanState) (p : PinSample) : ScanState × Bool :=
  if p.button = false then
    if s.buttonLaststatus then ({ s with buttonLaststatus := false }, true) else (s, false)
  else if s.buttonLaststatus = false then ({ s with buttonLaststatus := true }, false)
  else (s, false)

end Scan

/-! ## The two parties -/

section Parties

/-- Which half of the scan comes next. -/
inductive ScanPc where
  | mtion
  | button
  deriving DecidableEq

/-- The next statement of the controller thread: the four of `KnobCmdGetKnobEvent`, and the handling of the copy. -/
inductive ReaderPc where
  | copyMtion
  | copyButton
  | clearButton
  | clearMtion
  | handle
  deriving DecidableEq

/-- How far a call of `KnobCmdGetKnobEvent` has come since the last event of a kind. -/
inductive Since where
  | event
  | begun
  | polled
  deriving DecidableEq

/-- The shared fields, the two parties and the copy of the controller.  No code reads the rest: the detents and the
number of presses detected, the copies handed over, the action codes passed on, and the polls since the last detent and
press. -/
structure System where
  knobEvent : KnobEvent
  scan : ScanState
  scanPc : ScanPc
  readerPc : ReaderPc
  copy : KnobEvent
  detents : List KnobMtion
  presses : ℕ
  handed : List KnobEvent
  actions : List ℕ
  sinceDetent : Since
  sincePress : Since

/-- `Ret` in `CrControllerHandle`: 0 nothing, 1 OK, 2 up, 3 down. -/
def actionCode (e : KnobEvent) : ℕ :=
  if e.knobMtion = .up then 2 else if e.knobMtion = .down then 3 else if e.knobButton then 1 else 0

/-- A step: the next half of the scan, or the next statement of the controller thread. -/
inductive Step where
  | scan (p : PinSample)
  | reader

/-- A detent that is detected is stored. -/
def System.storeDetent (s : System) (m : KnobMtion) : System :=
  { s with
    knobEvent := { s.knobEvent with knobMtion := m }
    detents := s.detents ++ [m]
    sinceDetent := .event }

/-- So is a press. -/
def System.storePress (s : System) : System :=
  { s with
    knobEvent := { s.knobEvent with knobButton := true }
    presses := s.presses + 1
    sincePress := .event }

/-- A half of the scan; it stores what it detects. -/
def scanStep (s : System) (p : PinSample) : System :=
  match s.scanPc with
  | .mtion =>
    let (scan, m) := scanMtion s.scan p
    let s := { s with scan := scan, scanPc := .button }
    if m = .none then s else s.storeDetent m
  | .button =>
    let (scan, pressed) := scanButton s.scan p
    let s := { s with scan := scan, scanPc := .mtion }
    if pressed then s.storePress else s

/-- A call begins: the events up to now are polled when it ends. -/
def Since.callBegins (c : Since) : Since := if c = .event then .begun else c

def Since.callEnds (c : Since) : Since := if c = .begun then .polled else c

/-- A statement of the controller thread. -/
def readerStep (s : System) : System :=
  match s.readerPc with
  | .copyMtion =>
    { s with
      copy := { s.copy with knobMtion := s.knobEvent.knobMtion }
      readerPc := .copyButton
      sinceDetent := s.sinceDetent.callBegins
      sincePress := s.sincePress.callBegins }
  | .copyButton =>
    { s with copy := { s.copy with knobButton := s.knobEvent.knobButton }, readerPc := .clearButton }
  | .clearButton => { s with knobEvent := { s.knobEvent with knobButton := false }, readerPc := .clearMtion }
  | .clearMtion =>
    { s with
      knobEvent := { s.knobEvent with knobMtion := .none }
      readerPc := .handle
      sinceDetent := s.sinceDetent.callEnds
      sincePress := s.sincePress.callEnds }
  | .handle =>
    { s with
      readerPc := .copyMtion
      handed := s.handed ++ [s.copy]
      actions := if actionCode s.copy = 0 then s.actions else s.actions ++ [actionCode s.copy] }

def step (s : System) (l : Step) : System :=
  match l with
  | .scan p => scanStep s p
  | .reader => readerStep s

/-- `KnobCmdScanStart`, before the first scan and the first poll. -/
def start : System where
  knobEvent := ⟨.none, false⟩
  scan := ⟨0, 0, false, false⟩
  scanPc := .mtion
  readerPc := .copyMtion
  copy := ⟨.none, false⟩
  detents := []
  presses := 0
  handed := []
  actions := []
  sinceDetent := .polled
  sincePress := .polled

end Parties

/-! ## What is delivered -/

section Delivered

/-- The detent of a field, if there is one. -/
def KnobMtion.detent (m : KnobMtion) : List KnobMtion := if m = .none then [] else [m]

/-- The detents on their way: in the field, or in the copy. -/
def pendingDetents (s : System) : List KnobMtion :=
  match s.readerPc with
  | .copyMtion => s.knobEvent.knobMtion.detent
  | .copyButton | .clearButton | .clearMtion => s.copy.knobMtion.detent
  | .handle => s.copy.knobMtion.detent ++ s.knobEvent.knobMtion.detent

/-- The presses on their way. -/
def pendingPresses (s : System) : ℕ :=
  match s.readerPc with
  | .copyMtion | .copyButton => s.knobEvent.knobButton.toNat
  | .clearButton => s.copy.knobButton.toNat
  | .clearMtion | .handle => s.copy.knobButton.toNat + s.knobEvent.knobButton.toNat

/-- The actions due for a copy: one for its detent, and one for its press. -/
def actionsDue (e : KnobEvent) : List ℕ :=
  e.knobMtion.detent.map (fun m => actionCode ⟨m, false⟩) ++ if e.knobButton then [1] else []

/-- Everything detected is handed over once or still on its way, and every event handed over makes one action. -/
structure Delivered (s : System) : Prop where
  detents : s.detents = s.handed.flatMap (fun e => e.knobMtion.detent) ++ pendingDetents s
  presses : s.presses = (s.handed.map fun e => e.knobButton.toNat).sum + pendingPresses s
  actions : s.actions = s.handed.flatMap actionsDue

/-- A half of the scan that detects something: a detent (`true`), or a press. -/
def Detects (s : System) (p : PinSample) (detent : Bool) : Prop :=
  if detent then s.scanPc = .mtion ∧ (scanMtion s.scan p).2 ≠ .none
  else s.scanPc = .button ∧ (scanButton s.scan p).2 = true

/-- Between two events of a kind there is a whole call of `KnobCmdGetKnobEvent`. -/
def Polled (s : System) (l : Step) : Prop :=
  match l with
  | .scan p => (Detects s p true → s.sinceDetent = .polled) ∧ (Detects s p false → s.sincePress = .polled)
  | .reader => True

/-- No detent is stored between the copy and the clearing of its field, no press between those of its field, and no copy
holds both. -/
def StepOk (s : System) (l : Step) : Prop :=
  match l with
  | .scan p =>
    (Detects s p true → s.readerPc = .copyMtion ∨ s.readerPc = .handle) ∧
      (Detects s p false → s.readerPc ≠ .clearButton)
  | .reader => s.readerPc = .handle → s.copy.knobMtion = .none ∨ s.copy.knobButton = false

instance (s : System) (p : PinSample) (detent : Bool) : Decidable (Detects s p detent) := by
  unfold Detects
  infer_instance

instance (s : System) (l : Step) : Decidable (Polled s l) :=
  match l with
  | .scan _ => inferInstanceAs (Decidable (_ ∧ _))
  | .reader => isTrue trivial

instance (s : System) (l : Step) : Decidable (StepOk s l) :=
  match l with
  | .scan _ => inferInstanceAs (Decidable (_ ∧ _))
  | .reader => inferInstanceAs (Decidable (_ → _))

/-- What a call has cleared: nothing is left in a field once the last event of its kind is polled. -/
structure Inv (s : System) : Prop where
  delivered : Delivered s
  detentPolled : s.sinceDetent = .polled → s.knobEvent.knobMtion = .none
  detentBegun : s.sinceDetent = .begun → s.readerPc ≠ .copyMtion ∧ s.readerPc ≠ .handle
  pressPolled : s.sincePress = .polled → s.knobEvent.knobButton = false
  pressBegun : s.sincePress = .begun → s.readerPc = .copyButton ∨ s.readerPc = .clearButton ∨
    s.readerPc = .clearMtion ∧ s.knobEvent.knobButton = false

variable {s : System}

@[simp] theorem detent_none : KnobMtion.none.detent = [] := rfl

theorem detent_of_ne {m : KnobMtion} (h : m ≠ .none) : m.detent = [m] := if_neg h

/-- A detent stored in an empty field is on its way unless the reader is about to clear the field. -/
theorem pendingDetents_storeDetent (hnone : s.knobEvent.knobMtion = .none) {m : KnobMtion} (hm : m ≠ .none) :
    pendingDetents (s.storeDetent m) =
      pendingDetents s ++ if s.readerPc = .copyMtion ∨ s.readerPc = .handle then [m] else [] := by
  unfold pendingDetents
  cases hr : s.readerPc <;> simp [System.storeDetent, hr, hnone, detent_of_ne hm]

theorem pendingPresses_storePress (hfalse : s.knobEvent.knobButton = false) :
    pendingPresses s.storePress = pendingPresses s + if s.readerPc = .clearButton then 0 else 1 := by
  unfold pendingPresses
  cases hr : s.readerPc <;> simp [System.storePress, hr, hfalse]

/-- A scan that detects nothing. -/
theorem Inv.scan_nothing (h : Inv s) (scan : ScanState) (pc : ScanPc) : Inv { s with scan := scan, scanPc := pc } :=
  ⟨⟨h.delivered.detents, h.delivered.presses, h.delivered.actions⟩, h.detentPolled, h.detentBegun, h.pressPolled,
    h.pressBegun⟩

theorem Inv.storeDetent (h : Inv s) (hpolled : s.sinceDetent = .polled) {m : KnobMtion} (hm : m ≠ .none) :
    (Delivered (s.storeDetent m) ↔ s.readerPc = .copyMtion ∨ s.readerPc = .handle) ∧
      (s.readerPc = .copyMtion ∨ s.readerPc = .handle → Inv (s.storeDetent m)) := by
  have hpending := pendingDetents_storeDetent (h.detentPolled hpolled) hm
  have hdetents : (s.storeDetent m).detents = s.detents ++ [m] := rfl
  have hhanded : (s.storeDetent m).handed = s.handed := rfl
  rw [h.delivered.detents, List.append_assoc] at hdetents
  have hiff : Delivered (s.storeDetent m) ↔ s.readerPc = .copyMtion ∨ s.readerPc = .handle := by
    constructor
    · intro hd
      by_contra hpc
      have hlost := hd.detents
      rw [hdetents, hhanded, hpending, if_neg hpc] at hlost
      simp at hlost
    · intro hpc
      refine ⟨?_, h.delivered.presses, h.delivered.actions⟩
      rw [hdetents, hhanded, hpending, if_pos hpc]
  refine ⟨hiff, fun hpc => ⟨hiff.mpr hpc, ?_, ?_, h.pressPolled, h.pressBegun⟩⟩
  · intro hp
    cases hp
  · intro hp
    cases hp

theorem Inv.storePress (h : Inv s) (hpolled : s.sincePress = .polled) :
    (Delivered s.storePress ↔ s.readerPc ≠ .clearButton) ∧ (s.readerPc ≠ .clearButton → Inv s.storePress) := by
  have hpending := pendingPresses_storePress (h.pressPolled hpolled)
  have hpresses : s.storePress.presses = s.presses + 1 := rfl
  have hhanded : s.storePress.handed = s.handed := rfl
  rw [h.delivered.presses] at hpresses
  have hiff : Delivered s.storePress ↔ s.readerPc ≠ .clearButton := by
    constructor
    · intro hd hpc
      have hlost := hd.presses
      rw [hpresses, hhanded, hpending, if_pos hpc] at hlost
      omega
    · intro hpc
      refine ⟨h.delivered.detents, ?_, h.delivered.actions⟩
      rw [hpresses, hhanded, hpending, if_neg hpc]
      omega
  refine ⟨hiff, fun hpc => ⟨hiff.mpr hpc, h.detentPolled, h.detentBegun, ?_, ?_⟩⟩
  · intro hp
    cases hp
  · intro hp
    cases hp

/-- A half of the scan. -/
theorem Inv.scanStep (h : Inv s) {p : PinSample} (hpolled : Polled s (.scan p)) :
    (Delivered (scanStep s p) ↔ StepOk s (.scan p)) ∧ (StepOk s (.scan p) → Inv (scanStep s p)) := by
  cases hpc : s.scanPc with
  | mtion =>
    have hnot : ¬ Detects s p false := by simp [Detects, hpc]
    have hquiet := h.scan_nothing (scanMtion s.scan p).1 .button
    by_cases hm : (scanMtion s.scan p).2 = .none
    · have hstep : Knob.scanStep s p = { s with scan := (scanMtion s.scan p).1, scanPc := .button } := by
        simp only [Knob.scanStep, hpc, hm, if_true]
      have hok : StepOk s (.scan p) := ⟨fun hd => absurd hm (by simpa [Detects, hpc] using hd),
        fun hd => absurd hd hnot⟩
      rw [hstep]
      exact ⟨iff_of_true hquiet.delivered hok, fun _ => hquiet⟩
    · have hstep : Knob.scanStep s p =
          ({ s with scan := (scanMtion s.scan p).1, scanPc := .button } : System).storeDetent (scanMtion s.scan
            p).2 := by
        simp only [Knob.scanStep, hpc, hm, if_false]
      have hdet : Detects s p true := by simpa [Detects, hpc] using hm
      have hok : StepOk s (.scan p) ↔ s.readerPc = .copyMtion ∨ s.readerPc = .handle :=
        ⟨fun hok => hok.1 hdet, fun hr => ⟨fun _ => hr, fun hd => absurd hd hnot⟩⟩
      rw [hstep, hok]
      exact hquiet.storeDetent (hpolled.1 hdet) hm
  | button =>
    have hnot : ¬ Detects s p true := by simp [Detects, hpc]
    have hquiet := h.scan_nothing (scanButton s.scan p).1 .mtion
    by_cases hb : (scanButton s.scan p).2 = true
    · have hstep : Knob.scanStep s p =
          ({ s with scan := (scanButton s.scan p).1, scanPc := .mtion } : System).storePress := by
        simp only [Knob.scanStep, hpc, hb, if_true]
      have hdet : Detects s p false := by simpa [Detects, hpc] using hb
      have hok : StepOk s (.scan p) ↔ s.readerPc ≠ .clearButton :=
        ⟨fun hok => hok.2 hdet, fun hr => ⟨fun hd => absurd hd hnot, fun _ => hr⟩⟩
      rw [hstep, hok]
      exact hquiet.storePress (hpolled.2 hdet)
    · have hstep : Knob.scanStep s p = { s with scan := (scanButton s.scan p).1, scanPc := .mtion } := by
        simp only [Knob.scanStep, hpc, hb, if_false, Bool.false_eq_true]
      have hok : StepOk s (.scan p) := ⟨fun hd => absurd hd hnot,
        fun hd => absurd (by simpa [Detects, hpc] using hd) hb⟩
      rw [hstep]
      exact ⟨iff_of_true hquiet.delivered hok, fun _ => hquiet⟩

/-- The action of a copy is the one due exactly if it holds no two events. -/
theorem action_due_iff (e : KnobEvent) (actions : List ℕ) :
    (if actionCode e = 0 then actions else actions ++ [actionCode e]) = actions ++ actionsDue e ↔
      e.knobMtion = .none ∨ e.knobButton = false := by
  rcases e with ⟨_ | _ | _, _ | _⟩ <;> simp [actionCode, actionsDue, KnobMtion.detent]

theorem callBegins_eq_polled {c : Since} : c.callBegins = .polled ↔ c = .polled := by
  cases c <;> simp [Since.callBegins]

theorem callEnds_eq_polled {c : Since} : c.callEnds = .polled ↔ c = .polled ∨ c = .begun := by
  cases c <;> simp [Since.callEnds]

theorem callEnds_ne_begun (c : Since) : c.callEnds ≠ .begun := by
  cases c <;> simp [Since.callEnds]

/-- The copy is handled: it makes the actions due exactly if it holds no two events. -/
theorem Inv.handle (h : Inv s) (hpc : s.readerPc = .handle) :
    (Delivered (readerStep s) ↔ s.copy.knobMtion = .none ∨ s.copy.knobButton = false) ∧
      (Delivered (readerStep s) → Inv (readerStep s)) := by
  have hdetents := h.delivered.detents
  have hpresses := h.delivered.presses
  simp only [pendingDetents, hpc] at hdetents
  simp only [pendingPresses, hpc] at hpresses
  constructor
  · rw [← action_due_iff s.copy s.actions]
    constructor
    · intro hd
      have hactions := hd.actions
      simpa [readerStep, hpc, h.delivered.actions] using hactions
    · intro hactions
      constructor
      · simp [readerStep, hpc, pendingDetents, hdetents]
      · simp [readerStep, hpc, pendingPresses, hpresses, Nat.add_assoc]
      · rw [h.delivered.actions] at hactions
        simp [readerStep, hpc, h.delivered.actions, hactions]
  · intro hd
    refine ⟨hd, ?_, ?_, ?_, ?_⟩ <;> simp only [readerStep, hpc]
    · exact h.detentPolled
    · intro hb
      exact absurd hpc (h.detentBegun hb).2
    · exact h.pressPolled
    · intro hb
      have := h.pressBegun hb
      simp [hpc] at this

/-- A statement of the controller thread. -/
theorem Inv.readerStep (h : Inv s) :
    (Delivered (readerStep s) ↔ StepOk s .reader) ∧ (StepOk s .reader → Inv (readerStep s)) := by
  by_cases hhandle : s.readerPc = .handle
  · have hiff : Delivered (Knob.readerStep s) ↔ StepOk s .reader := by
      rw [(h.handle hhandle).1]
      simp [StepOk, hhandle]
    exact ⟨hiff, fun hok => (h.handle hhandle).2 (hiff.mpr hok)⟩
  have hok : StepOk s .reader := fun hpc => absurd hpc hhandle
  have hdetents := h.delivered.detents
  have hpresses := h.delivered.presses
  -- the copies and the clearings move what is on its way and lose nothing
  have hinv : Inv (Knob.readerStep s) := by
    cases hpc : s.readerPc with
    | copyMtion =>
      simp only [pendingDetents, pendingPresses, hpc] at hdetents hpresses
      simp only [Knob.readerStep, hpc]
      refine ⟨⟨hdetents, hpresses, h.delivered.actions⟩, ?_, ?_, ?_, ?_⟩
      · exact fun hp => h.detentPolled (callBegins_eq_polled.mp hp)
      · simp
      · exact fun hp => h.pressPolled (callBegins_eq_polled.mp hp)
      · simp
    | copyButton =>
      simp only [pendingDetents, pendingPresses, hpc] at hdetents hpresses
      simp only [Knob.readerStep, hpc]
      refine ⟨⟨hdetents, hpresses, h.delivered.actions⟩, h.detentPolled, ?_, h.pressPolled, ?_⟩
      · simp
      · simp
    | clearButton =>
      simp only [pendingDetents, pendingPresses, hpc] at hdetents hpresses
      simp only [Knob.readerStep, hpc]
      refine ⟨⟨hdetents, hpresses, h.delivered.actions⟩, h.detentPolled, ?_, ?_, ?_⟩
      · simp
      · simp
      · simp
    | clearMtion =>
      simp only [pendingDetents, pendingPresses, hpc] at hdetents hpresses
      simp only [Knob.readerStep, hpc]
      refine ⟨⟨?_, hpresses, h.delivered.actions⟩, ?_, ?_, ?_, ?_⟩
      · simp [pendingDetents, hdetents]
      · simp
      · exact fun hb => absurd hb (callEnds_ne_begun _)
      · intro hp
        rcases callEnds_eq_polled.mp hp with hp | hb
        · exact h.pressPolled hp
        · simpa [hpc] using h.pressBegun hb
      · exact fun hb => absurd hb (callEnds_ne_begun _)
    | handle => exact absurd hpc hhandle
  exact ⟨iff_of_true hinv.delivered hok, fun _ => hinv⟩

theorem inv_start : Inv start := by
  refine ⟨⟨rfl, rfl, rfl⟩, fun _ => rfl, ?_, fun _ => rfl, ?_⟩
  · intro hb
    cases hb
  · intro hb
    cases hb

theorem Inv.step {l : Step} (h : Inv s) (hpolled : Polled s l) :
    (Delivered (step s l) ↔ StepOk s l) ∧ (StepOk s l → Inv (step s l)) := by
  cases l with
  | scan p => exact h.scanStep hpolled
  | reader => exact h.readerStep

/-- **Delivery**: in the runs that poll between two events of a kind, every event is delivered in every state exactly if
no step is one of the three that go wrong. -/
theorem delivered_run_iff {ls : List Step} (h : AllSteps step Polled start ls) :
    AllSteps step (fun s l => Delivered (step s l)) start ls ↔ AllSteps step StepOk start ls :=
  allSteps_iff_of_assumed (fun _ _ hI hp => hI.step hp) inv_start h

/-- The pins at rest. -/
def PinSample.rest : PinSample := ⟨true, true, true, 0, 0, 0⟩

/-- The knob is turned by one detent and polled: the falling edge at tick 10, the rest position at tick 20. -/
def oneDetent : List Step :=
  [.scan .rest, .scan .rest, .scan ⟨false, true, true, 10, 0, 0⟩, .scan .rest, .scan .rest, .scan .rest,
    .scan ⟨true, true, true, 0, 20, 20⟩, .scan .rest, .reader, .reader, .reader, .reader, .reader]

theorem oneDetent_delivered : AllSteps step (fun s l => Delivered (step s l)) start oneDetent :=
  (delivered_run_iff (by decide)).mpr (by decide)

/-- Turned and pressed before one poll: the poll hands both over, and the controller makes one action. -/
def turnedAndPressed : List Step :=
  [.scan .rest, .scan .rest, .scan ⟨false, true, true, 10, 0, 0⟩, .scan .rest, .scan .rest, .scan .rest,
    .scan ⟨true, true, true, 0, 20, 20⟩, .scan ⟨true, true, false, 0, 0, 0⟩,
    .reader, .reader, .reader, .reader, .reader]

/-- Turned while the reader stands between the copy and the clearing of the field: the detent is gone. -/
def turnedDuringPoll : List Step :=
  [.scan .rest, .scan .rest, .scan ⟨false, true, true, 10, 0, 0⟩, .scan .rest, .scan .rest, .scan .rest, .reader,
    .scan ⟨true, true, true, 0, 20, 20⟩, .reader, .reader, .reader, .reader]

theorem press_dropped_and_detent_lost :
    AllSteps step Polled start turnedAndPressed ∧
      (turnedAndPressed.foldl step start).handed = [⟨.down, true⟩] ∧
      (turnedAndPressed.foldl step start).actions = [3] ∧
      ¬ Delivered (turnedAndPressed.foldl step start) ∧
    AllSteps step Polled start turnedDuringPoll ∧
      (turnedDuringPoll.foldl step start).detents = [.down] ∧
      (turnedDuringPoll.foldl step start).handed = [⟨.none, false⟩] ∧
      ¬ Delivered (turnedDuringPoll.foldl step start) := by
  refine ⟨by decide, by decide, by decide, fun hd => ?_, by decide, by decide, by decide, fun hd => ?_⟩
  · have hactions := hd.actions
    revert hactions
    decide
  · have hdetents := hd.detents
    revert hdetents
    decide

end Delivered

end Cxsw.Knob
