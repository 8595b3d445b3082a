import Mathlib.Tactic.Common
import Cxsw.Lib.Run

/-!
# Cxsw.CrMenu.ShowAction — the items that the main menu shows (`CrMenu/Show/ShowAction.cpp`)

The bits of `HideMask` hide items of the main menu.  Two functions of the show timer move them: `GetSdCardStatus`, when
the reported card status differs from its own static `Status`, and `GetPrintInfo`, when the print status differs from
`ShowInfo.DevStatus.Reserve`.

* `Shows`: the items that belong to a card status and a print status.
* `shows_step_iff`, `shows_run_iff`: the replies after which these are the items shown, in one step and in a run.
-/

namespace Cxsw.ShowAction

/-! ## The mask -/

section Mask

/-- The items of the main menu that have a bit of their own. -/
inductive MainItem where
  | prepare
  | tune
  | notfCard
  | printfFromTf
  | pausePrintf
  | resumePrintf
  | stopPrintf
  deriving DecidableEq

/-- The bit of an item, `0x01 << n`. -/
def MainItem.bit : MainItem → ℕ
  | .prepare => 1
  | .tune => 2
  | .notfCard => 3
  | .printfFromTf => 4
  | .pausePrintf => 5
  | .resumePrintf => 6
  | .stopPrintf => 7

/-- `MAINMENU_ITEM_…_HID_MASK`. -/
def MainItem.hidMask (i : MainItem) : BitVec 32 := BitVec.twoPow 32 i.bit

/-- `HideMask |= MAINMENU_ITEM_…_HID_MASK`. -/
def hide (i : MainItem) (mask : BitVec 32) : BitVec 32 := mask ||| i.hidMask

/-- `HideMask &= ~MAINMENU_ITEM_…_HID_MASK`. -/
def unhide (i : MainItem) (mask : BitVec 32) : BitVec 32 := mask &&& ~~~i.hidMask

/-- The test of `ShowItems`, `SwitchPageSub` and `SwitchPorcess`. -/
def Visible (i : MainItem) (mask : BitVec 32) : Prop := i.hidMask &&& mask = 0

instance (i : MainItem) (mask : BitVec 32) : Decidable (Visible i mask) := inferInstanceAs (Decidable (_ = _))

variable {i j : MainItem} {mask : BitVec 32}

theorem MainItem.bit_lt (i : MainItem) : i.bit < 32 := by
  cases i <;> decide

theorem MainItem.bit_injective : Function.Injective MainItem.bit := by
  intro i j h
  cases i <;> cases j <;> first | rfl | exact absurd h (by decide)

theorem visible_iff : Visible i mask ↔ mask.getLsbD i.bit = false := by
  unfold Visible MainItem.hidMask
  rw [BitVec.twoPow_and]
  cases hbit : mask.getLsbD i.bit with
  | false => simp
  | true =>
    simp only [if_true, Bool.true_eq_false, iff_false]
    intro h
    have hzero := congrArg (fun v : BitVec 32 => v.getLsbD i.bit) h
    simp [i.bit_lt] at hzero

theorem visible_zero (i : MainItem) : Visible i 0#32 := BitVec.and_zero

@[simp] theorem visible_hide : Visible j (hide i mask) ↔ Visible j mask ∧ i ≠ j := by
  rw [visible_iff, visible_iff]
  unfold hide MainItem.hidMask
  by_cases h : i = j
  · subst h
    simp [i.bit_lt]
  · have hbit : i.bit ≠ j.bit := fun hb => h (MainItem.bit_injective hb)
    simp [h, hbit]

@[simp] theorem visible_unhide : Visible j (unhide i mask) ↔ Visible j mask ∨ i = j := by
  rw [visible_iff, visible_iff]
  unfold unhide MainItem.hidMask
  by_cases h : i = j
  · subst h
    simp [i.bit_lt]
  · have hbit : j.bit ≠ i.bit := fun hb => h (MainItem.bit_injective hb).symm
    simp [h, hbit, j.bit_lt]

end Mask

/-! ## The two functions -/

section Functions

/-- `enum PrintStatus_t`. -/
def stopPrint : BitVec 32 := 0
def printing : BitVec 32 := 1
def pausePrint : BitVec 32 := 2
def resumePrint : BitVec 32 := 3

/-- `struct PrintInfoMsg_t`. -/
structure PrintInfoMsg where
  status : BitVec 32
  progress : BitVec 32
  timeElapsed : BitVec 32

/-- The fields of `ShowInfo` that are written. -/
structure ShowPrintInfo where
  sdStatus : BitVec 8
  progress : BitVec 32
  hour : BitVec 32
  minter : BitVec 32
  second : BitVec 32
  reserve : BitVec 8

/-- The mask, the static `Status` of `GetSdCardStatus`, and `ShowInfo`.  No code reads `card` and `print`, the card
status and the print status of the latest replies. -/
structure View where
  hideMask : BitVec 32
  status : BitVec 8
  showInfo : ShowPrintInfo
  card : BitVec 8
  print : BitVec 32

/-- `GetSdCardStatus`; there is no reply if a queue is missing, the request is not sent or nothing is received. -/
def getSdCardStatus (v : View) (reply : Option (BitVec 8)) : View :=
  match reply with
  | none => v
  | some inserted =>
    let v := { v with card := inserted }
    if inserted = v.status then v
    else
      { v with
        showInfo := { v.showInfo with sdStatus := inserted }
        hideMask :=
          if v.status ≠ 0 then
            unhide .notfCard (hide .stopPrintf (hide .resumePrintf (hide .pausePrintf (hide .printfFromTf v.hideMask))))
          else
            hide .stopPrintf (hide .resumePrintf (hide .pausePrintf (hide .notfCard (unhide .printfFromTf v.hideMask))))
        status := inserted }

/-- The mask that `GetPrintInfo` sets for a status. -/
def printMask (status mask : BitVec 32) : BitVec 32 :=
  if status = stopPrint then
    let mask := if ¬ Visible .notfCard mask then unhide .printfFromTf mask else hide .printfFromTf mask
    hide .tune (unhide .prepare (hide .stopPrintf (hide .resumePrintf (hide .pausePrintf mask))))
  else if status = pausePrint then
    unhide .stopPrintf (unhide .resumePrintf (hide .pausePrintf (hide .printfFromTf mask)))
  else if status = printing ∨ status = resumePrint then
    unhide .tune (hide .prepare
      (unhide .stopPrintf (hide .resumePrintf (unhide .pausePrintf (hide .printfFromTf mask)))))
  else
    hide .tune (hide .stopPrintf
      (hide .resumePrintf (hide .pausePrintf (unhide .prepare (unhide .printfFromTf mask)))))

/-- `GetPrintInfo`, with or without a reply. -/
def getPrintInfo (v : View) (reply : Option PrintInfoMsg) : View :=
  match reply with
  | none => v
  | some info =>
    let v := { v with
      print := info.status
      showInfo := { v.showInfo with
        progress := info.progress
        hour := info.timeElapsed.sdiv 3600
        minter := (info.timeElapsed.srem 3600).sdiv 60
        second := (info.timeElapsed.srem 3600).srem 60 } }
    if info.status = v.showInfo.reserve.signExtend 32 then v
    else
      { v with
        hideMask := printMask info.status v.hideMask
        showInfo := { v.showInfo with
          reserve :=
            if info.status ∈ [stopPrint, printing, pausePrint, resumePrint] then info.status.setWidth 8
            else v.showInfo.reserve } }

/-- The calls of the show timer, each with its reply. -/
inductive Reply where
  | sdStatus (reply : Option (BitVec 8))
  | printInfo (reply : Option PrintInfoMsg)

def step (v : View) (r : Reply) : View :=
  match r with
  | .sdStatus reply => getSdCardStatus v reply
  | .printInfo reply => getPrintInfo v reply

/-- `CrShowViewInit`, for the bits of the main menu; no card, no print. -/
def start : View where
  hideMask := hide .stopPrintf (hide .resumePrintf (hide .pausePrintf (hide .printfFromTf (hide .tune 0))))
  status := 0
  showInfo := ⟨0, 0, 0, 0, 0, 0⟩
  card := 0
  print := 0

end Functions

/-! ## What is shown -/

section Shown

/-- The items that belong to a card status and a print status. -/
structure Shows (card : BitVec 8) (print mask : BitVec 32) : Prop where
  printfFromTf : Visible .printfFromTf mask ↔ print = stopPrint ∧ card ≠ 0
  notfCard : Visible .notfCard mask ↔ card = 0
  pausePrintf : Visible .pausePrintf mask ↔ print = printing ∨ print = resumePrint
  resumePrintf : Visible .resumePrintf mask ↔ print = pausePrint
  stopPrintf : Visible .stopPrintf mask ↔ print ≠ stopPrint
  prepareOrTune : Visible .prepare mask ↔ ¬ Visible .tune mask

/-- The mask after a reply shows what belongs to the latest replies. -/
def ShownAfter (v : View) (r : Reply) : Prop := Shows (step v r).card (step v r).print (step v r).hideMask

/-- The card changes, between inserted and not inserted, only while no print is under way, and a print status is one of
the four. -/
def ReplyOk (v : View) (r : Reply) : Prop :=
  match r with
  | .sdStatus (some inserted) => inserted ≠ v.card → v.print = stopPrint ∧ (inserted = 0 ∨ v.card = 0)
  | .printInfo (some info) => info.status ∈ [stopPrint, printing, pausePrint, resumePrint]
  | .sdStatus none | .printInfo none => True

instance (v : View) (r : Reply) : Decidable (ReplyOk v r) :=
  match r with
  | .sdStatus none | .printInfo none => isTrue trivial
  | .sdStatus (some _) => inferInstanceAs (Decidable (_ → _))
  | .printInfo (some _) => inferInstanceAs (Decidable (_ ∈ _))

/-- The two functions remember the latest replies, and show what belongs to them. -/
structure Inv (v : View) : Prop where
  shows : Shows v.card v.print v.hideMask
  status : v.status = v.card
  reserve : v.showInfo.reserve.signExtend 32 = v.print
  print : v.print ∈ [stopPrint, printing, pausePrint, resumePrint]

variable {v : View}

theorem shows_removed {card print mask} (inserted : BitVec 8) (h : Shows card print mask) :
    Shows inserted print
      (unhide .notfCard (hide .stopPrintf (hide .resumePrintf (hide .pausePrintf (hide .printfFromTf mask))))) ↔
      print = stopPrint ∧ inserted = 0 := by
  have hone := h.prepareOrTune
  constructor
  · rintro ⟨-, hnotf, -, -, hstop, -⟩
    simp only [visible_unhide, visible_hide, ne_eq, not_true_eq_false, and_false, or_true, true_iff, reduceCtorEq,
      or_false, false_iff, not_not] at hnotf hstop
    exact ⟨hstop, hnotf⟩
  · rintro ⟨rfl, rfl⟩
    constructor <;> simp [hone, stopPrint, printing, pausePrint, resumePrint]

theorem shows_inserted {print mask} {inserted : BitVec 8} (h : Shows 0 print mask) (hne : inserted ≠ 0#8) :
    Shows inserted print
      (hide .stopPrintf (hide .resumePrintf (hide .pausePrintf (hide .notfCard (unhide .printfFromTf mask))))) ↔
      print = stopPrint := by
  have hone := h.prepareOrTune
  constructor
  · rintro ⟨-, -, -, -, hstop, -⟩
    simpa using hstop
  · rintro rfl
    constructor <;> simp [hone, hne, stopPrint, printing, pausePrint, resumePrint]

/-- A card status shows what belongs to it exactly on the condition. -/
theorem Inv.shown_sdStatus (h : Inv v) (inserted : BitVec 8) :
    ShownAfter v (.sdStatus (some inserted)) ↔ ReplyOk v (.sdStatus (some inserted)) := by
  unfold ShownAfter ReplyOk
  simp only [step, getSdCardStatus, h.status]
  by_cases hsame : inserted = v.card
  · simp [hsame, h.shows]
  simp only [ne_eq, hsame, not_false_eq_true, true_implies]
  by_cases hcard : v.card = 0#8
  · have hshows := h.shows
    rw [hcard] at hshows hsame
    simp [hcard, shows_inserted hshows hsame]
  · have hremoved := shows_removed inserted h.shows
    simpa [hcard] using hremoved

/-- The mask of a print status shows what belongs to it exactly if it is one of the four. -/
theorem shows_printMask {card print mask status} (h : Shows card print mask) :
    Shows card status (printMask status mask) ↔ status ∈ [stopPrint, printing, pausePrint, resumePrint] := by
  have hnotf := h.notfCard
  have hone := h.prepareOrTune
  unfold printMask
  by_cases hstop : status = stopPrint
  · subst hstop
    by_cases hcard : card = 0#8
    · simp only [if_true, hnotf, hcard, List.mem_cons, true_or, iff_true]
      constructor <;> simp [hnotf, hcard, stopPrint, printing, pausePrint, resumePrint]
    · simp only [if_true, hnotf, List.mem_cons, true_or, iff_true]
      constructor <;> simp [hnotf, hcard, stopPrint, printing, pausePrint, resumePrint]
  rw [if_neg hstop]
  by_cases hpause : status = pausePrint
  · subst hpause
    simp only [if_true, List.mem_cons, true_or, or_true, iff_true]
    constructor <;> simp [hnotf, hone, stopPrint, printing, pausePrint, resumePrint]
  rw [if_neg hpause]
  by_cases hprinting : status = printing ∨ status = resumePrint
  · rw [if_pos hprinting]
    have hmem : status ∈ [stopPrint, printing, pausePrint, resumePrint] := by
      rcases hprinting with rfl | rfl <;> simp
    simp only [hmem, iff_true]
    constructor <;> simp [hnotf, hprinting, hstop, hpause]
  · rw [if_neg hprinting]
    have hmem : status ∉ [stopPrint, printing, pausePrint, resumePrint] := by
      simp_all
    simp only [hmem, iff_false]
    intro hshows
    have hhidden := hshows.stopPrintf
    simp [hstop] at hhidden

/-- A print status shows what belongs to it exactly on the condition. -/
theorem Inv.shown_printInfo (h : Inv v) (info : PrintInfoMsg) :
    ShownAfter v (.printInfo (some info)) ↔ ReplyOk v (.printInfo (some info)) := by
  unfold ShownAfter ReplyOk
  simp only [step, getPrintInfo, h.reserve]
  by_cases hsame : info.status = v.print
  · simp only [hsame, if_true, h.print, iff_true]
    exact h.shows
  · simp only [if_neg hsame]
    exact shows_printMask h.shows

/-- **Step lemma**: a reply shows what belongs to the latest ones exactly on the condition, and then the invariant is
kept. -/
theorem Inv.step (h : Inv v) (r : Reply) : (ShownAfter v r ↔ ReplyOk v r) ∧ (ReplyOk v r → Inv (step v r)) := by
  rcases r with ⟨_ | inserted⟩ | ⟨_ | info⟩
  · exact ⟨iff_of_true h.shows trivial, fun _ => h⟩
  · have hshown := h.shown_sdStatus inserted
    refine ⟨hshown, fun hok => ⟨hshown.mpr hok, ?_, ?_, ?_⟩⟩
    · simp only [ShowAction.step, getSdCardStatus]
      split
      · next heq => exact heq.symm
      · rfl
    · simp only [ShowAction.step, getSdCardStatus]
      split <;> exact h.reserve
    · simp only [ShowAction.step, getSdCardStatus]
      split <;> exact h.print
  · exact ⟨iff_of_true h.shows trivial, fun _ => h⟩
  · have hshown := h.shown_printInfo info
    refine ⟨hshown, fun hok => ⟨hshown.mpr hok, ?_, ?_, ?_⟩⟩
    · simp only [ShowAction.step, getPrintInfo]
      split <;> exact h.status
    · have hmem : info.status ∈ [stopPrint, printing, pausePrint, resumePrint] := hok
      simp only [ShowAction.step, getPrintInfo]
      split
      · next heq => exact heq.symm
      · simp only [List.mem_cons, List.not_mem_nil, or_false] at hmem
        rcases hmem with hs | hs | hs | hs <;> rw [hs] <;> rfl
    · have hmem : info.status ∈ [stopPrint, printing, pausePrint, resumePrint] := hok
      simp only [ShowAction.step, getPrintInfo]
      split <;> exact hmem

theorem inv_start : Inv start := by
  refine ⟨?_, rfl, rfl, by simp [start, stopPrint]⟩
  constructor <;> simp [start, visible_zero, stopPrint, printing, pausePrint, resumePrint]

/-- **Every run**: after each reply the mask shows what belongs to the latest ones exactly when every reply meets the
condition. -/
theorem shows_run_iff (rs : List Reply) :
    AllSteps step ShownAfter start rs ↔ AllSteps step ReplyOk start rs :=
  allSteps_iff_of_invariant (fun _ r hinv => hinv.step r) inv_start rs

/-- A card is inserted, a print runs, and the card is taken out. -/
def cardTakenOut : List Reply := [.sdStatus (some 1), .printInfo (some ⟨printing, 0, 0⟩), .sdStatus (some 0)]

/-- The print can no longer be paused or stopped. -/
theorem pause_hidden_while_printing : ¬ AllSteps step ShownAfter start cardTakenOut := by
  intro h
  have hok : AllSteps step ReplyOk start cardTakenOut :=
    (allSteps_iff_of_invariant (fun _ r hinv => hinv.step r) inv_start _).mp h
  revert hok
  decide

end Shown

end Cxsw.ShowAction
