import Cxsw.Lib.CString
import Cxsw.CrModel.PauseTemper

/-!
# Cxsw.CrModel.CrSdCard — the file that is printed (`CrModel/CrSdCard.cpp`, `CrModel/CrPrinter.cpp`)

`SetPrintFile` opens a file, hands it to the printer and stores its name for the screen.  A path may have separators of
both kinds.

A pointer into a text is the text from there on.  Whether the file can be opened is up to the file system.

* `setPrintFile`, `startPrint`: the code.
* `setPrintFile_selects`: a call that fails changes nothing; after one that succeeds the stored names are the path and
  its last part exactly for the paths that meet `NamedRight`.
* `not_setPrintFile_selects`: a path with two backslashes keeps its directory in the file name.
-/

namespace Cxsw.SdPrint

open CString Print

/-! ## The code -/

section Defs

/-- `MAX_PATH_LENGTH`. -/
def maxPathLength : ℕ := 128

/-- `FILE_NAME_LENGTH`. -/
def fileNameLength : ℕ := 32

/-- `GcodeFile`, by what it is made from. -/
structure GcodeFile where
  name : List UInt8
  offset : ℕ
  deriving DecidableEq

/-- `CrPrinter`: the members that `StartPrint` uses. -/
structure CrPrinter where
  printSource : Option GcodeFile
  status : PrintStatus
  progress : ℚ
  usedTime : ℕ
  deriving DecidableEq

/-- `CrSdCard`: the texts in its two buffers, and the printer. -/
structure CrSdCard where
  fileName : List UInt8
  fullName : List UInt8
  print : Option CrPrinter
  deriving DecidableEq

/-- `CrPrinter::StartPrint`. -/
def startPrint (p : CrPrinter) (source : Option GcodeFile) : ℕ × CrPrinter :=
  match source, p.printSource with
  | none, _ => (0, p)
  | some _, some _ => (0, p)
  | some source, none =>
    (1, { p with printSource := some source, status := .printing, progress := 0, usedTime := 0 })

/-- `strstr` for a text of one byte. -/
def strFrom (s : List UInt8) (c : UInt8) : Option (List UInt8) :=
  match s.dropWhile (fun b => decide (b ≠ c)) with
  | [] => none
  | b :: t => some (b :: t)

theorem strFrom_length_le {s p : List UInt8} {c : UInt8} (h : strFrom s c = some p) : p.length ≤ s.length := by
  unfold strFrom at h
  split at h
  · cases h
  · rename_i b t hd
    cases h
    rw [← hd]
    exact (List.dropWhile_suffix _).length_le

/-- The loop `while ( Index2 )`: from one occurrence to the last. -/
def lastFrom (c : UInt8) : List UInt8 → List UInt8
  | [] => []
  | b :: t =>
    match _h : strFrom t c with
    | some index => lastFrom c index
    | none => b :: t
  termination_by p => p.length
  decreasing_by
    have := strFrom_length_le _h
    simp only [List.length_cons]
    omega

/-- What `FileName` is copied from.  The second loop looks for a slash as the first one does. -/
def nameFrom (fullFileName : List UInt8) : List UInt8 :=
  match strFrom fullFileName (ascii '/'), strFrom fullFileName (ascii '\\') with
  | none, none => fullFileName
  | some index, _ => (lastFrom (ascii '/') index).tail
  | none, some index2 => (lastFrom (ascii '/') index2).tail

/-- `CrSdCard::SetPrintFile`.  `gcode` is what `new GcodeFile` and `IsOpened` come to: no object, or whether its file is
open.  There is no result without a printer: the call through `Print` is not defined. -/
def setPrintFile (card : CrSdCard) (fullFileName : Option (List UInt8)) (fileOffset : ℕ) (gcode : Option Bool) :
    Option (ℕ × CrSdCard) :=
  match fullFileName with
  | none => some (0, card)
  | some fullFileName =>
    if (∃ p ∈ card.print, p.status ≠ .stopPrint) then some (0, card)
    else if gcode ≠ some true then some (0, card)
    else
      card.print.bind fun p =>
        let started := startPrint p (some ⟨fullFileName, fileOffset⟩)
        let card := { card with print := some started.2 }
        if started.1 = 0 then some (0, card)
        else
          some (1, { card with
            fullName := fullFileName.take (maxPathLength - 1)
            fileName := (nameFrom fullFileName).take (fileNameLength - 1) })

end Defs

/-! ## The searches -/

section Search

variable {s t u v p : List UInt8} {c : UInt8}

theorem strFrom_eq_none : strFrom s c = none ↔ c ∉ s := by
  unfold strFrom
  constructor
  · intro h hc
    split at h
    · rename_i hd
      have := List.dropWhile_eq_nil_iff.mp hd c hc
      simp at this
    · cases h
  · intro hc
    have hd : s.dropWhile (fun b => decide (b ≠ c)) = [] := by
      refine List.dropWhile_eq_nil_iff.mpr ?_
      intro b hb
      refine decide_eq_true ?_
      rintro rfl
      exact hc hb
    rw [hd]

/-- A search that succeeds cuts the text at the first occurrence. -/
theorem strFrom_eq_some (h : strFrom s c = some p) : ∃ u v, s = u ++ c :: v ∧ p = c :: v ∧ c ∉ u := by
  unfold strFrom at h
  split at h
  · cases h
  · rename_i b t hd
    cases h
    have hb : b = c := by
      have := List.head?_dropWhile_not (fun b => decide (b ≠ c)) s
      rw [hd] at this
      simpa using this
    have hcut := List.takeWhile_append_dropWhile (p := fun b => decide (b ≠ c)) (l := s)
    rw [hd, hb] at hcut
    refine ⟨s.takeWhile (fun b => decide (b ≠ c)), t, hcut.symm, by rw [hb], ?_⟩
    · intro hc
      simpa using List.mem_takeWhile_imp hc

/-- The separators of one kind. -/
def isByte (c : UInt8) : UInt8 → Bool := fun b => decide (b = c)

theorem lastFrom_tail (c b : UInt8) (t : List UInt8) : (lastFrom c (b :: t)).tail = afterLast (isByte c) t := by
  induction hn : t.length using Nat.strong_induction_on generalizing b t with
  | _ n ih =>
    rw [lastFrom]
    split
    · rename_i index hfound
      obtain ⟨u, v, ht, rfl, -⟩ := strFrom_eq_some hfound
      have hlt : v.length < n := by
        rw [← hn, ht]
        simp
        omega
      rw [ih v.length hlt c v rfl, ht]
      exact (afterLast_append_cons (by simp [isByte])).symm
    · rename_i hnone
      rw [afterLast_of_none]
      · rfl
      · intro a ha
        refine decide_eq_false ?_
        rintro rfl
        exact strFrom_eq_none.mp hnone ha

end Search

/-! ## The last part of a path -/

section Names

/-- The separators of a path. -/
def isSeparator (b : UInt8) : Bool := decide (b = ascii '/') || decide (b = ascii '\\')

/-- The text behind the last slash or, in a path without one, behind the first backslash. -/
def restOf (path : List UInt8) : List UInt8 :=
  if ascii '/' ∈ path then afterLast (isByte (ascii '/')) path
  else (strFrom path (ascii '\\')).elim path List.tail

theorem nameFrom_eq (path : List UInt8) : nameFrom path = restOf path := by
  unfold nameFrom restOf
  cases hslash : strFrom path (ascii '/') with
  | some index =>
    obtain ⟨u, v, hpath, rfl, -⟩ := strFrom_eq_some hslash
    have hmem : ascii '/' ∈ path := by rw [hpath]; simp
    rw [if_pos hmem]
    simp only [lastFrom_tail]
    rw [hpath]
    exact (afterLast_append_cons (by simp [isByte])).symm
  | none =>
    have hno := strFrom_eq_none.mp hslash
    rw [if_neg hno]
    cases hback : strFrom path (ascii '\\') with
    | none => rfl
    | some index =>
      obtain ⟨u, v, hpath, rfl, -⟩ := strFrom_eq_some hback
      simp only [Option.elim_some, lastFrom_tail]
      refine afterLast_of_none ?_
      intro a ha
      refine decide_eq_false ?_
      rintro rfl
      exact hno (by rw [hpath]; simp [ha])

theorem slash_not_mem_restOf (path : List UInt8) : ascii '/' ∉ restOf path := by
  unfold restOf
  split_ifs with hslash
  · obtain ⟨w, a, -, -, hnone⟩ := @exists_split_afterLast _ (isByte (ascii '/')) path ⟨_, hslash, by simp [isByte]⟩
    intro hmem
    have := hnone _ hmem
    simp [isByte] at this
  · cases hback : strFrom path (ascii '\\') with
    | none => exact hslash
    | some index =>
      obtain ⟨u, v, hpath, rfl, -⟩ := strFrom_eq_some hback
      simp only [Option.elim_some, List.tail_cons]
      intro hmem
      exact hslash (by rw [hpath]; simp [hmem])

/-- The last separator of a path is the last backslash of the text that is searched, if it has one. -/
theorem afterLast_isSeparator (path : List UInt8) :
    afterLast isSeparator path = afterLast (isByte (ascii '\\')) (restOf path) := by
  have hkinds : afterLast isSeparator (restOf path) = afterLast (isByte (ascii '\\')) (restOf path) := by
    refine afterLast_congr ?_
    intro a ha
    have hslash : a ≠ ascii '/' := by
      rintro rfl
      exact slash_not_mem_restOf path ha
    simp [isSeparator, isByte, hslash]
  rw [← hkinds]
  unfold restOf
  split_ifs with hslash
  · obtain ⟨w, a, hpath, ha, -⟩ := @exists_split_afterLast _ (isByte (ascii '/')) path ⟨_, hslash, by simp [isByte]⟩
    have hsep : isSeparator a = true := by
      simp only [isByte, decide_eq_true_eq] at ha
      simp [isSeparator, ha]
    conv_lhs => rw [hpath]
    exact afterLast_append_cons hsep
  · cases hback : strFrom path (ascii '\\') with
    | none => rfl
    | some index =>
      obtain ⟨u, v, hpath, rfl, -⟩ := strFrom_eq_some hback
      conv_lhs => rw [hpath]
      exact afterLast_append_cons (by simp [isSeparator])

end Names

/-! ## A call -/

section Calls

/-- The last part of the path and the whole path are stored. -/
def Selected (path : List UInt8) (card : CrSdCard) : Prop :=
  card.fileName = (afterLast isSeparator path).take (fileNameLength - 1) ∧ card.fullName = path

/-- The paths that are stored right: they fit, and behind the last slash or, without one, behind the first backslash
there is no further backslash, or what fits of that text stands behind its last backslash once more. -/
def NamedRight (path : List UInt8) : Prop :=
  path.length < maxPathLength ∧
    (ascii '\\' ∉ restOf path ∨
      ∃ u v, restOf path = u ++ ascii '\\' :: v ∧ ascii '\\' ∉ v ∧ fileNameLength - 1 ≤ u.length ∧
        u.take (fileNameLength - 1) = v.take (fileNameLength - 1))

theorem take_restOf_iff {n : ℕ} (path : List UInt8) :
    (restOf path).take n = (afterLast isSeparator path).take n ↔
      ascii '\\' ∉ restOf path ∨
        ∃ u v, restOf path = u ++ ascii '\\' :: v ∧ ascii '\\' ∉ v ∧ n ≤ u.length ∧ u.take n = v.take n := by
  rw [afterLast_isSeparator, take_eq_take_afterLast_iff]
  constructor
  · rintro (hnone | ⟨u, a, hrest, ha, hlen, hrep⟩)
    · left
      intro hmem
      have := hnone _ hmem
      simp [isByte] at this
    · simp only [isByte, decide_eq_true_eq] at ha
      subst ha
      refine Or.inr ⟨u, _, hrest, ?_, hlen, hrep⟩
      have hmem : ascii '\\' ∈ restOf path := by rw [hrest]; simp
      obtain ⟨-, -, -, -, hnone⟩ := @exists_split_afterLast _ (isByte (ascii '\\')) _ ⟨_, hmem, by simp [isByte]⟩
      intro hmem
      have := hnone _ hmem
      simp [isByte] at this
  · rintro (hno | ⟨u, v, hrest, hv, hlen, hrep⟩)
    · left
      intro a ha
      refine decide_eq_false ?_
      rintro rfl
      exact hno ha
    · have hlast : afterLast (isByte (ascii '\\')) (restOf path) = v := by
        rw [hrest, afterLast_append_cons (by simp [isByte])]
        refine afterLast_of_none ?_
        intro a ha
        refine decide_eq_false ?_
        rintro rfl
        exact hv ha
      exact Or.inr ⟨u, ascii '\\', by rw [hlast]; exact hrest, by simp [isByte], hlen, by rw [hlast]; exact hrep⟩

/-- A printer without a job takes the file; one with a job keeps it. -/
theorem startPrint_cases (p : CrPrinter) (source : GcodeFile) :
    startPrint p (some source) = (0, p) ∨
      p.printSource = none ∧
        startPrint p (some source) =
          (1, { p with printSource := some source, status := .printing, progress := 0, usedTime := 0 }) := by
  unfold startPrint
  cases hp : p.printSource with
  | none => exact Or.inr ⟨rfl, rfl⟩
  | some s => exact Or.inl rfl

theorem setPrintFile_cases {card card' : CrSdCard} {fullFileName : Option (List UInt8)} {fileOffset r : ℕ}
    {gcode : Option Bool} (h : setPrintFile card fullFileName fileOffset gcode = some (r, card')) :
    (r = 0 ∧ card' = card) ∨
      ∃ path p, fullFileName = some path ∧ card.print = some p ∧ p.status = .stopPrint ∧ p.printSource = none ∧
        gcode = some true ∧ r = 1 ∧
        card' =
          { print := some { p with
              printSource := some ⟨path, fileOffset⟩, status := .printing, progress := 0, usedTime := 0 }
            fullName := path.take (maxPathLength - 1)
            fileName := (nameFrom path).take (fileNameLength - 1) } := by
  unfold setPrintFile at h
  cases fullFileName with
  | none =>
    simp only [Option.some.injEq, Prod.mk.injEq] at h
    exact Or.inl ⟨h.1.symm, h.2.symm⟩
  | some path =>
    simp only at h
    split_ifs at h with hbusy hopen
    · simp only [Option.some.injEq, Prod.mk.injEq] at h
      exact Or.inl ⟨h.1.symm, h.2.symm⟩
    · simp only [Option.some.injEq, Prod.mk.injEq] at h
      exact Or.inl ⟨h.1.symm, h.2.symm⟩
    · obtain ⟨p, hp, hrest⟩ := Option.bind_eq_some_iff.mp h
      obtain hkeep | ⟨hfree, hstart⟩ := startPrint_cases p ⟨path, fileOffset⟩
      · simp only [hkeep, if_true, Option.some.injEq, Prod.mk.injEq] at hrest
        obtain ⟨rfl, rfl⟩ := hrest
        refine Or.inl ⟨rfl, ?_⟩
        rw [← hp]
      · simp only [hstart, one_ne_zero, if_false, Option.some.injEq, Prod.mk.injEq] at hrest
        obtain ⟨rfl, rfl⟩ := hrest
        have hstop : p.status = .stopPrint := by
          by_contra hne
          exact hbusy ⟨p, hp, hne⟩
        exact Or.inr ⟨path, p, rfl, hp, hstop, hfree, by simpa using hopen, rfl, rfl⟩

/-- A call that fails leaves the names and the printer as they are.  After one that succeeds the last part of the path
and the path are stored exactly for the paths that meet `NamedRight`. -/
theorem setPrintFile_selects {card card' : CrSdCard} {fullFileName : Option (List UInt8)} {fileOffset r : ℕ}
    {gcode : Option Bool} (h : setPrintFile card fullFileName fileOffset gcode = some (r, card')) :
    (r = 0 → card' = card) ∧
      (r ≠ 0 → ∃ path, fullFileName = some path ∧ (Selected path card' ↔ NamedRight path)) := by
  obtain ⟨rfl, rfl⟩ | ⟨path, p, hpath, -, -, -, -, rfl, rfl⟩ := setPrintFile_cases h
  · exact ⟨fun _ => rfl, fun hr => absurd rfl hr⟩
  · refine ⟨fun hr => absurd hr one_ne_zero, fun _ => ⟨path, hpath, ?_⟩⟩
    have hfull : path.take (maxPathLength - 1) = path ↔ path.length < maxPathLength := by
      rw [List.take_eq_self_iff]
      unfold maxPathLength
      omega
    unfold Selected NamedRight
    rw [nameFrom_eq, hfull, take_restOf_iff, and_comm]

/-- A stopped printer. -/
def idle : CrPrinter := ⟨none, .stopPrint, 0, 0⟩

theorem setPrintFile_idle (path : List UInt8) :
    setPrintFile ⟨[], [], some idle⟩ (some path) 0 (some true) =
      some (1, ⟨(restOf path).take (fileNameLength - 1), path.take (maxPathLength - 1),
        some ⟨some ⟨path, 0⟩, .printing, 0, 0⟩⟩) := by
  simp [setPrintFile, startPrint, idle, nameFrom_eq]

theorem setPrintFile_selects_slash :
    setPrintFile ⟨[], [], some idle⟩ (some (text "a/b")) 0 (some true) =
        some (1, ⟨text "b", text "a/b", some ⟨some ⟨text "a/b", 0⟩, .printing, 0, 0⟩⟩) ∧
      (Selected (text "a/b") ⟨text "b", text "a/b", some ⟨some ⟨text "a/b", 0⟩, .printing, 0, 0⟩⟩ ↔
        NamedRight (text "a/b")) := by
  have hcall : setPrintFile ⟨[], [], some idle⟩ (some (text "a/b")) 0 (some true) =
      some (1, ⟨text "b", text "a/b", some ⟨some ⟨text "a/b", 0⟩, .printing, 0, 0⟩⟩) := by
    rw [setPrintFile_idle]
    decide
  obtain ⟨path, hpath, hiff⟩ := (setPrintFile_selects hcall).2 one_ne_zero
  cases hpath
  exact ⟨hcall, hiff⟩

/-- Of two directories before the file only the first one is cut off where the separators are backslashes. -/
theorem not_setPrintFile_selects :
    ∃ card', setPrintFile ⟨[], [], some idle⟩ (some (text "a\\b\\c")) 0 (some true) = some (1, card') ∧
      card'.fileName = text "b\\c" ∧ ¬ Selected (text "a\\b\\c") card' := by
  refine ⟨⟨text "b\\c", text "a\\b\\c", some ⟨some ⟨text "a\\b\\c", 0⟩, .printing, 0, 0⟩⟩, ?_, rfl, ?_⟩
  · rw [setPrintFile_idle]
    decide
  · unfold Selected
    decide

end Calls

end Cxsw.SdPrint
