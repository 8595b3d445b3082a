import Cxsw.Lib.CString
import Cxsw.Lib.Lines
import Cxsw.Lib.Ring
import Cxsw.Lib.Run

/-!
# Cxsw.CrModel.GcodeSource — commands from the serial port (`CrModel/GcodeSource.cpp`)

`GcodeUart::GetCmd` is polled.  Each call takes bytes from the port up to a line terminator or until the port is
empty; a line that is cut off is kept in `Buff` until the next call.  `CrSerialIoctl(SERIAL_AVAILABLE)` is true
while the port holds bytes, and `CrSerialRead` then takes one.

* `getCmd`: one call.
* `Holds`: what `Buff` contains between two calls, given the bytes consumed so far.
* `getCmd_reassembles`: the commands returned are the lines of the stream, however it arrives.
* `getCmd_drops_nul`: a zero byte in a line that is cut after it is lost, because `Buff` is a C string.
-/

namespace Cxsw.Gcode

open CString Lines

/-! ## The reader -/

section Defs

/-- `MAX_STRING_LENGTH`. -/
def maxStringLength : ℕ := 64

/-- The object's `Buff` and the bytes the serial port holds. -/
structure GcodeUart where
  rx : List UInt8
  buff : List UInt8
  deriving DecidableEq

/-- The state after the constructor. -/
def initUart : GcodeUart := ⟨[], List.replicate maxStringLength 0⟩

/-- A line terminator. -/
def isEnd (char : UInt8) : Bool := char = ascii '\n' ∨ char = ascii '\r'

/-- What `GetCmd` does with a part of a line when the port is empty: append it to `Buff` and put a zero one past
the end. -/
def stash (buff serialDate : List UInt8) : List UInt8 :=
  if serialDate = [] then buff
  else
    let buff := Ring.splice buff (strlen buff) serialDate
    buff.set (strlen buff + 1) 0

/-- The loop of `GetCmd`.  `serialDate` is the `Count` bytes of `SerialDate` filled so far.  The first component is
what `CmdBuff` receives; its length is the value returned.  The test `Char < 0` never holds: `char` is unsigned on
this target. -/
def getCmdLoop (buff : List UInt8) : List UInt8 → List UInt8 → List UInt8 × GcodeUart
  | serialDate, [] => ([], ⟨[], stash buff serialDate⟩)
  | serialDate, char :: rx =>
    if isEnd char then
      if strlen buff ≠ 0 then
        (buff.take (strlen buff) ++ serialDate, ⟨rx, List.replicate maxStringLength 0⟩)
      else (serialDate, ⟨rx, buff⟩)
    else getCmdLoop buff (serialDate ++ [char]) rx

/-- `GetCmd`. -/
def getCmd (u : GcodeUart) : List UInt8 × GcodeUart := getCmdLoop u.buff [] u.rx

/-- What happens at the serial port. -/
inductive UartEvent
  /-- Bytes arrive. -/
  | arrive (bytes : List UInt8)
  /-- The polling thread calls `GetCmd`. -/
  | poll

/-- One event; the output is the command returned, empty when there is none. -/
def uartStep (u : GcodeUart) : UartEvent → GcodeUart × List UInt8
  | .arrive bytes => ({ u with rx := u.rx ++ bytes }, [])
  | .poll => ((getCmd u).2, (getCmd u).1)

/-- The byte stream that arrived. -/
def arrived : List UartEvent → List UInt8
  | [] => []
  | .arrive bytes :: es => bytes ++ arrived es
  | .poll :: es => arrived es

/-- The commands among the values returned: the caller drops the empty ones. -/
def commands (outs : List (List UInt8)) : List (List UInt8) := outs.filter (· ≠ [])

end Defs

/-! ## One call -/

section Call

/-- `Buff` holds the text `p` and zeros behind it. -/
structure Holds (buff p : List UInt8) : Prop where
  eq : buff = p ++ List.replicate (maxStringLength - p.length) 0
  nonzero : ∀ b ∈ p, b ≠ 0
  short : p.length + 1 < maxStringLength

theorem holds_nil : Holds (List.replicate maxStringLength 0) [] where
  eq := by simp
  nonzero := by simp
  short := by decide

theorem Holds.strlen {buff p : List UInt8} (h : Holds buff p) : strlen buff = p.length := by
  rw [h.eq, strlen_append_zeros h.nonzero]

theorem Holds.take {buff p : List UInt8} (h : Holds buff p) : buff.take p.length = p := by
  rw [h.eq, List.take_left]

theorem Holds.splice {buff p s : List UInt8} (h : Holds buff p)
    (hlen : (p ++ s).length + 1 < maxStringLength) :
    Ring.splice buff (CString.strlen buff) s =
      (p ++ s) ++ List.replicate (maxStringLength - (p ++ s).length) 0 := by
  rw [List.length_append] at hlen
  unfold Ring.splice
  rw [h.strlen, h.take, h.eq, List.drop_append, List.drop_of_length_le (by omega), List.drop_replicate]
  simp only [List.nil_append, List.length_append]
  congr 2
  omega

theorem Holds.stash {buff p s : List UInt8} (h : Holds buff p) (hs : ∀ b ∈ s, b ≠ 0)
    (hlen : (p ++ s).length + 1 < maxStringLength) : Holds (stash buff s) (p ++ s) := by
  have hnz : ∀ b ∈ p ++ s, b ≠ 0 := by
    intro b hb
    rcases List.mem_append.mp hb with hb | hb
    · exact h.nonzero b hb
    · exact hs b hb
  refine ⟨?_, hnz, hlen⟩
  unfold Gcode.stash
  split_ifs with h0
  · rw [h0, List.append_nil, ← h.eq]
  · -- the zero lands on a byte that is zero already
    simp only [h.splice hlen]
    rw [strlen_append_zeros hnz, List.set_append_right _ _ (by omega), List.set_replicate_self]

/-- **One pass of the loop.**  `consumed` are the bytes taken in earlier calls and in this one so far; the loop
takes a prefix of what is left and returns the line it completes.  A zero byte does harm only when the port is
emptied before the line ends. -/
theorem getCmdLoop_spec {buff p : List UInt8} (hb : Holds buff p) (rx : List UInt8) :
    ∀ (consumed serialDate : List UInt8), openLine isEnd consumed = p ++ serialDate →
      ((∀ b ∈ rx, isEnd b = false) → ∀ b ∈ serialDate ++ rx, b ≠ 0) →
      (∀ c, c <+: consumed ++ rx → (openLine isEnd c).length + 1 < maxStringLength) →
      ∃ taken p', rx = taken ++ (getCmdLoop buff serialDate rx).2.rx ∧
        Holds (getCmdLoop buff serialDate rx).2.buff p' ∧
        openLine isEnd (consumed ++ taken) = p' ∧
        completeLines isEnd (consumed ++ taken) =
          completeLines isEnd consumed ++ commands [(getCmdLoop buff serialDate rx).1] ∧
        (rx ≠ [] → taken ≠ []) := by
  induction rx with
  | nil =>
    intro consumed serialDate hopen hnz hlen
    have hl := hlen consumed (by simp)
    rw [hopen] at hl
    refine ⟨[], p ++ serialDate, rfl, ?_, by simpa using hopen, by simp [getCmdLoop, commands], by simp⟩
    exact hb.stash (by simpa using hnz (by simp)) hl
  | cons char rx ih =>
    intro consumed serialDate hopen hnz hlen
    unfold getCmdLoop
    by_cases hc : isEnd char = true
    · -- the terminator completes the line kept so far
      have hline : (if strlen buff ≠ 0 then
            (buff.take (strlen buff) ++ serialDate, (⟨rx, List.replicate maxStringLength 0⟩ : GcodeUart))
          else (serialDate, ⟨rx, buff⟩)) = (p ++ serialDate, ⟨rx, List.replicate maxStringLength 0⟩) := by
        rw [hb.strlen, hb.take]
        split_ifs with hp
        · rfl
        · have hp0 : p = [] := by simpa using hp
          rw [hp0, List.nil_append, hb.eq, hp0]
          simp
      rw [if_pos hc, hline]
      refine ⟨[char], [], rfl, holds_nil, openLine_concat_end hc consumed, ?_, by simp⟩
      rw [completeLines_concat_end hc, hopen]
      split_ifs with h0 <;> simp [commands, h0]
    · have hc' : isEnd char = false := by simpa using hc
      rw [if_neg hc]
      obtain ⟨taken, p', hrx, hh, ho, hcl, -⟩ := ih (consumed ++ [char]) (serialDate ++ [char])
        (by rw [openLine_concat hc', hopen, List.append_assoc])
        (fun hr => by simpa using hnz (by simpa [hc'] using hr)) (by simpa using hlen)
      refine ⟨char :: taken, p', by rw [List.cons_append, ← hrx], hh, by simpa using ho, ?_, by simp⟩
      rw [completeLines_concat hc'] at hcl
      simpa using hcl

end Call

/-! ## The stream -/

section Stream

/-- Between two events: what was consumed, what `Buff` holds and which commands were returned. -/
def StreamInv (stream : List UInt8) (u : GcodeUart) (outs : List (List UInt8)) : Prop :=
  ∃ consumed, stream = consumed ++ u.rx ∧ Holds u.buff (openLine isEnd consumed) ∧
    commands outs = completeLines isEnd consumed

/-- No line of the stream reaches the size `len` of the command buffer. -/
def ShortLines (len : ℕ) (stream : List UInt8) : Prop := ∀ line ∈ stream.splitOnP isEnd, line.length < len

/-- What a call of `GetCmd` keeps for the next one is text: when the port holds only a part of a line, that part
has no zero byte. -/
def CleanCut (u : GcodeUart) : Prop := (∀ b ∈ u.rx, isEnd b = false) → ∀ b ∈ u.rx, b ≠ 0

/-- `CleanCut` at every call. -/
def CleanCuts : GcodeUart → List UartEvent → Prop
  | _, [] => True
  | u, .arrive bytes :: es => CleanCuts (uartStep u (.arrive bytes)).1 es
  | u, .poll :: es => CleanCut u ∧ CleanCuts (uartStep u .poll).1 es

theorem ShortLines.prefix {len : ℕ} {s t : List UInt8} (h : ShortLines len (s ++ t)) (c : List UInt8)
    (hc : c <+: s) : (openLine isEnd c).length < len := by
  obtain ⟨r, rfl⟩ := hc
  obtain ⟨l, hl, hpre⟩ := openLine_prefix (p := isEnd) c (r ++ t)
  have h1 := h l (by rw [List.append_assoc]; exact hl)
  have h2 := hpre.length_le
  omega

/-- Bytes that arrive are not consumed yet; a call that returns nothing adds no command. -/
theorem StreamInv.arrive {stream : List UInt8} {u : GcodeUart} {outs : List (List UInt8)}
    (h : StreamInv stream u outs) (bytes : List UInt8) :
    StreamInv (stream ++ bytes) (uartStep u (.arrive bytes)).1 (outs ++ [[]]) := by
  obtain ⟨consumed, hs, hb, hc⟩ := h
  refine ⟨consumed, ?_, hb, ?_⟩
  · rw [hs, List.append_assoc]
    rfl
  · rw [← hc]
    simp [commands]

/-- One call keeps the invariant and takes at least one byte when there is one. -/
theorem streamInv_poll {len : ℕ} {stream : List UInt8} (rest : List UInt8) {u : GcodeUart} {outs : List (List UInt8)}
    (hlen : len < maxStringLength) (ht : ShortLines len (stream ++ rest)) (hu : CleanCut u)
    (h : StreamInv stream u outs) :
    StreamInv stream (getCmd u).2 (outs ++ [(getCmd u).1]) ∧
      (getCmd u).2.rx.length ≤ u.rx.length - 1 := by
  obtain ⟨consumed, hs, hb, hc⟩ := h
  have hshort : ∀ c, c <+: consumed ++ u.rx → (openLine isEnd c).length + 1 < maxStringLength := by
    intro c hpre
    have := ht.prefix c (by rw [hs]; exact hpre)
    omega
  obtain ⟨taken, p', hrx, hh, ho, hcl, hne⟩ := getCmdLoop_spec hb u.rx consumed [] (by simp) hu hshort
  refine ⟨⟨consumed ++ taken, ?_, ?_, ?_⟩, ?_⟩
  · rw [hs, List.append_assoc]
    exact congrArg (consumed ++ ·) hrx
  · rw [ho]
    exact hh
  · rw [hcl, ← hc]
    simp [commands, getCmd]
  · have h1 := congrArg List.length hrx
    rw [List.length_append] at h1
    by_cases h0 : u.rx = []
    · rw [h0, List.length_nil] at h1
      unfold getCmd
      rw [h0, List.length_nil]
      omega
    · have := List.length_pos_of_ne_nil (hne h0)
      unfold getCmd
      omega

theorem streamInv_run {len : ℕ} (hlen : len < maxStringLength) (es : List UartEvent) :
    ∀ (stream : List UInt8) (u : GcodeUart) (outs : List (List UInt8)),
      ShortLines len (stream ++ arrived es) → CleanCuts u es → StreamInv stream u outs →
      StreamInv (stream ++ arrived es) (mealy uartStep u es).1 (outs ++ (mealy uartStep u es).2) := by
  induction es with
  | nil =>
    intro stream u outs _ _ h
    simpa [arrived, mealy] using h
  | cons e es ih =>
    intro stream u outs ht hu h
    cases e with
    | arrive bytes =>
      have h2 := ih _ _ _ (by simpa [arrived] using ht) hu (h.arrive bytes)
      simpa [arrived, mealy, uartStep] using h2
    | poll =>
      obtain ⟨h1, -⟩ := streamInv_poll (arrived es) hlen (by simpa [arrived] using ht) hu.1 h
      have h2 := ih _ _ _ (by simpa [arrived] using ht) hu.2 h1
      simpa [arrived, mealy, uartStep] using h2

theorem arrived_append (es fs : List UartEvent) : arrived (es ++ fs) = arrived es ++ arrived fs := by
  induction es with
  | nil => rfl
  | cons e es ih => cases e <;> simp [arrived, ih]

theorem arrived_polls (n : ℕ) : arrived (List.replicate n .poll) = [] := by
  induction n with
  | zero => rfl
  | succ n ih => rw [List.replicate_succ, arrived, ih]

theorem cleanCuts_append {u : GcodeUart} {es fs : List UartEvent} :
    CleanCuts u (es ++ fs) ↔ CleanCuts u es ∧ CleanCuts (mealy uartStep u es).1 fs := by
  induction es generalizing u with
  | nil => simp [CleanCuts, mealy]
  | cons e es ih => cases e <;> simp [CleanCuts, mealy, ih, and_assoc]

theorem polls_drain {len : ℕ} (hlen : len < maxStringLength) {stream : List UInt8}
    (ht : ShortLines len stream) (n : ℕ) :
    ∀ (u : GcodeUart) (outs : List (List UInt8)), StreamInv stream u outs →
      CleanCuts u (List.replicate n .poll) → u.rx.length ≤ n →
      (mealy uartStep u (List.replicate n .poll)).1.rx = [] := by
  induction n with
  | zero =>
    intro u _ _ _ hn
    simpa [mealy] using hn
  | succ n ih =>
    intro u outs h hu hn
    obtain ⟨h1, h2⟩ := streamInv_poll [] hlen (by simpa using ht) hu.1 h
    have h3 : (uartStep u .poll).1.rx.length ≤ n := by
      change (getCmd u).2.rx.length ≤ n
      omega
    exact ih _ _ h1 hu.2 h3

/-- What a call leaves in the port is the end of what was there. -/
theorem getCmdLoop_rx_suffix (buff : List UInt8) :
    ∀ rx serialDate : List UInt8, (getCmdLoop buff serialDate rx).2.rx <:+ rx := by
  intro rx
  induction rx with
  | nil => exact fun _ => List.suffix_rfl
  | cons c rx ih =>
    intro serialDate
    unfold getCmdLoop
    split_ifs
    · exact List.suffix_cons c rx
    · exact List.suffix_cons c rx
    · exact (ih _).trans (List.suffix_cons c rx)

theorem cleanCuts_of_text (es : List UartEvent) :
    ∀ u : GcodeUart, (∀ b ∈ u.rx ++ arrived es, b ≠ 0) → CleanCuts u es := by
  induction es with
  | nil => exact fun _ _ => trivial
  | cons e es ih =>
    intro u h
    cases e with
    | arrive bytes => exact ih _ (by simpa [arrived, uartStep] using h)
    | poll =>
      refine ⟨fun _ b hb => h b (by simp [hb]), ih _ fun b hb => h b ?_⟩
      rcases List.mem_append.mp hb with hb | hb
      · exact List.mem_append_left _ ((getCmdLoop_rx_suffix _ _ _).subset hb)
      · exact List.mem_append_right _ hb

/-- **Reassembly.**  For every stream of short lines and every way it arrives between the calls of `GetCmd`, the
commands returned at any time are the complete non-empty lines of what was consumed, and once the port has been
polled often enough they are those of the whole stream: where the cuts between calls fall makes no difference. -/
theorem getCmd_reassembles (len : ℕ) (hlen : len < maxStringLength) (es : List UartEvent)
    (ht : ShortLines len (arrived es)) :
    (CleanCuts initUart es →
      ∃ consumed, arrived es = consumed ++ (mealy uartStep initUart es).1.rx ∧
        commands (mealy uartStep initUart es).2 = completeLines isEnd consumed) ∧
    ∀ n, (arrived es).length ≤ n → CleanCuts initUart (es ++ List.replicate n .poll) →
      commands (mealy uartStep initUart (es ++ List.replicate n .poll)).2 = completeLines isEnd (arrived es) := by
  have h0 : StreamInv [] initUart [] := ⟨[], rfl, by rw [openLine_nil]; exact holds_nil, by simp [commands]⟩
  have h1 : CleanCuts initUart es →
      StreamInv (arrived es) (mealy uartStep initUart es).1 (mealy uartStep initUart es).2 := by
    intro hu
    simpa using streamInv_run hlen es [] initUart [] (by simpa using ht) hu h0
  refine ⟨fun hu => ?_, fun n hn hu => ?_⟩
  · obtain ⟨consumed, hs, -, hc⟩ := h1 hu
    exact ⟨consumed, hs, hc⟩
  · have hsum : arrived (es ++ List.replicate n .poll) = arrived es := by
      rw [arrived_append, arrived_polls, List.append_nil]
    have h2 := streamInv_run hlen (es ++ List.replicate n .poll) [] initUart [] (by simpa [hsum] using ht) hu h0
    rw [List.nil_append, List.nil_append, hsum] at h2
    obtain ⟨hu1, hu2⟩ := cleanCuts_append.mp hu
    have hrx : (mealy uartStep initUart (es ++ List.replicate n .poll)).1.rx = [] := by
      rw [mealy_append]
      refine polls_drain hlen ht n _ _ (h1 hu1) hu2 ?_
      obtain ⟨consumed, hs, -, -⟩ := h1 hu1
      have := congrArg List.length hs
      rw [List.length_append] at this
      omega
    obtain ⟨consumed, hs, -, hc⟩ := h2
    rw [hrx, List.append_nil] at hs
    rw [hc, hs]

/-- The line `G28` arrives in two parts, a call between them. -/
theorem getCmd_reassembles_g28 :
    ShortLines 50 (arrived [.arrive (text "G2"), .poll, .arrive (text "8\n")]) ∧
    CleanCuts initUart ([.arrive (text "G2"), .poll, .arrive (text "8\n")] ++ List.replicate 4 .poll) ∧
    commands (mealy uartStep initUart
        ([.arrive (text "G2"), .poll, .arrive (text "8\n")] ++ List.replicate 4 .poll)).2 =
      completeLines isEnd (arrived [.arrive (text "G2"), .poll, .arrive (text "8\n")]) := by
  have hs : ShortLines 50 (arrived [.arrive (text "G2"), .poll, .arrive (text "8\n")]) := by
    unfold ShortLines
    decide
  have hc : CleanCuts initUart ([.arrive (text "G2"), .poll, .arrive (text "8\n")] ++ List.replicate 4 .poll) :=
    cleanCuts_of_text _ _ (by decide +kernel)
  exact ⟨hs, hc, (getCmd_reassembles 50 (by decide) _ hs).2 4 (by decide) hc⟩

/-- A zero byte before a cut is lost: of the line `G`, zero, `1` the caller gets `G1`. -/
theorem getCmd_drops_nul :
    commands (mealy uartStep initUart [.arrive [71, 0], .poll, .arrive [49, 10], .poll]).2 ≠
      completeLines isEnd (arrived [.arrive [71, 0], .poll, .arrive [49, 10], .poll]) ∧
    (mealy uartStep initUart [.arrive [71, 0], .poll, .arrive [49, 10], .poll]).1.rx = [] ∧
    commands (mealy uartStep initUart [.arrive [71, 0, 49, 10], .poll]).2 =
      completeLines isEnd (arrived [.arrive [71, 0, 49, 10], .poll]) := by
  decide

end Stream

end Cxsw.Gcode
