import Mathlib.Data.Finset.Sort
import Mathlib.Data.Finset.Max
import Mathlib.Order.Interval.Finset.Nat
import Mathlib.Order.Lattice.Nat
import Cxsw.Lib.FixedText

/-!
# Cxsw.Moonraker.Timelapse — the frames that are rendered (`moonraker1/moonraker/components/timelapse.py`)

`render` fills the gaps between the frames with copies, adds copies of the last frame, and removes these after the
encoder has run.  Frames are files with their number in the name; the list of the files is sorted by the names.

The files are the set of their numbers with the content of each.  Copying and removing a file that is there succeeds.

* `render`: the code.
* `fill_spec`: the gaps are filled from below, if there is a first or second frame.
* `render_iff`: the runs in which the encoder finds the frames without a gap and nothing is lost or left behind.
* `lastFrame_eq_max`: below a million the last name is that of the highest number.
* `captured_frame_removed`: a frame is removed as a duplicate.
-/

namespace Cxsw.Moonraker

/-! ## The code -/

section Defs

variable {C : Type*}

/-- The frame files: their numbers and the content of each. -/
structure Frames (C : Type*) where
  numbers : Finset ℕ
  content : ℕ → C

/-- `shutil.copyfile` and `shutil.copy`, between different files. -/
def Frames.copy (fs : Frames C) (source target : ℕ) : Frames C where
  numbers := insert target fs.numbers
  content := Function.update fs.content target (fs.content source)

/-- `os.remove` of several files; one that is not there is passed over. -/
def Frames.remove (fs : Frames C) (files : List ℕ) : Frames C := { fs with numbers := fs.numbers \ files.toFinset }

/-- `"frame" + str(n).zfill(6) + ".jpg"`, which is `"frame%06d.jpg" % n`. -/
def frameName (n : ℕ) : List Char := "frame".toList ++ ((Nat.toDigits 10 n).leftpad 6 '0' ++ ".jpg".toList)

/-- `sorted(glob.glob(...))`. -/
def filelist (numbers : Finset ℕ) : List ℕ := numbers.sort.insertionSort fun a b => frameName a ≤ frameName b

/-- `filelist[-1]`. -/
def lastFrame (numbers : Finset ℕ) : ℕ := (filelist numbers).getLast?.getD 0

/-- The loop that fills the gaps; it ends with an exception where there is no file to copy. -/
def fill (fs : Frames C) : List ℕ → Frames C × Bool
  | [] => (fs, true)
  | i :: is =>
    if i ∈ fs.numbers then fill fs is
    else if i - 1 ∈ fs.numbers then fill (fs.copy (i - 1) i) is
    else (fs, false)

/-- The loop that duplicates the last frame; copying a file onto itself fails, which is logged. -/
def duplicate (fs : Frames C) (lastframe : ℕ) : List ℕ → Frames C
  | [] => fs
  | j :: js => duplicate (if j = lastframe then fs else fs.copy lastframe j) lastframe js

/-- The settings that `render` reads: `output_framerate`, `duplicatelastframe`, `variable_fps` and `targetlength`. -/
structure Config where
  fps : ℕ
  duplicatelastframe : ℕ
  variableFps : Bool
  targetlength : ℤ

/-- What else decides: whether a render is running, `ffmpeg` is installed and the path of the frames contains `frame`
(which makes the number unreadable), and which calls raise an exception. -/
structure Surroundings where
  renderisrunning : Bool
  ffmpegInstalled : Bool
  frameInPath : Bool
  /-- The question for the name of the printed file. -/
  queryRaises : Bool
  /-- `build_shell_command`: `shlex.split` finds a quotation that is not closed, as with the file `Bob's part.gcode`. -/
  commandRaises : Bool
  /-- Running the encoder, or the command for the preview image after it. -/
  encoderRaises : Bool

/-- A run: the files when the encoder is called, if it is, the files that were duplicates, and the files at the end. -/
structure Run (C : Type*) where
  atEncoder : Option (Frames C)
  duplicates : List ℕ
  after : Frames C

/-- `last_number`. -/
def lastNumber (fps : ℕ) (numbers : Finset ℕ) : ℕ := if numbers.card < fps * 2 then fps * 2 else lastFrame numbers

/-- `range(2, last_number + 1)`, unless `last_number` is the number of the files. -/
def fillRange (fps : ℕ) (numbers : Finset ℕ) : List ℕ :=
  if lastNumber fps numbers ≠ numbers.card then List.range' 2 (lastNumber fps numbers - 1) else []

/-- `render`.  An exception leaves the files as they are; the one of `build_shell_command` is not caught, and if running
the encoder raises one, `cmdstatus` is not bound. -/
def render (cfg : Config) (sur : Surroundings) (fs : Frames C) : Run C :=
  if fs.numbers = ∅ ∨ sur.renderisrunning ∨ !sur.ffmpegInstalled ∨ sur.frameInPath then ⟨none, [], fs⟩
  else
    let filled := fill fs (fillRange cfg.fps fs.numbers)
    if !filled.2 ∨ sur.queryRaises then ⟨none, [], filled.1⟩
    else
      let fs := filled.1
      let duplicates := (List.range cfg.duplicatelastframe).map fun i => fs.numbers.card + i + 1
      let fs := duplicate fs (lastFrame fs.numbers) duplicates
      if cfg.variableFps ∧ cfg.targetlength = 0 ∨ sur.commandRaises then ⟨none, duplicates, fs⟩
      else ⟨some fs, duplicates, if sur.encoderRaises then fs else fs.remove duplicates⟩

end Defs

/-! ## Where a frame comes from -/

section Source

variable {S : Finset ℕ} {m n : ℕ}

/-- The nearest number of `S` that is not above `n`. -/
def source (S : Finset ℕ) (n : ℕ) : ℕ := (S.filter (· ≤ n)).sup id

theorem le_source (hm : m ∈ S) (hle : m ≤ n) : m ≤ source S n :=
  Finset.le_sup (f := id) (Finset.mem_filter.mpr ⟨hm, hle⟩)

theorem source_le (S : Finset ℕ) (n : ℕ) : source S n ≤ n := by
  refine Finset.sup_le fun m hm => ?_
  exact (Finset.mem_filter.mp hm).2

theorem source_mem (hm : m ∈ S) (hle : m ≤ n) : source S n ∈ S := by
  have hne : (S.filter (· ≤ n)).Nonempty := ⟨m, Finset.mem_filter.mpr ⟨hm, hle⟩⟩
  obtain ⟨k, hk, hsup⟩ := Finset.exists_mem_eq_sup _ hne id
  have hsource : source S n = k := hsup
  rw [hsource]
  exact (Finset.mem_filter.mp hk).1

theorem source_self (hn : n ∈ S) : source S n = n := le_antisymm (source_le S n) (le_source hn le_rfl)

/-- A number that is not in the set has the source of the one before. -/
theorem source_succ (hn : n + 1 ∉ S) : source S (n + 1) = source S n := by
  have hfilter : S.filter (· ≤ n + 1) = S.filter (· ≤ n) := by
    refine Finset.filter_congr fun m hm => ?_
    constructor
    · intro hle
      rcases Nat.lt_or_ge m (n + 1) with hlt | hge
      · omega
      · have heq : m = n + 1 := by omega
        exact absurd (heq ▸ hm) hn
    · omega
  unfold source
  rw [hfilter]

end Source

/-! ## The loops -/

section Loops

variable {C : Type*} {fs : Frames C} {T : ℕ}

/-- `fs` is `fs₀` with the numbers from 2 to `T` filled in, each with the content of its source. -/
structure Filled (fs₀ fs : Frames C) (T : ℕ) : Prop where
  numbers : fs.numbers = fs₀.numbers ∪ Finset.Icc 2 T
  content : ∀ n ∈ fs.numbers, fs.content n = fs₀.content (source fs₀.numbers n)

theorem filled_one (fs : Frames C) : Filled fs fs 1 where
  numbers := by simp
  content n hn := by rw [source_self hn]

theorem fill_append (fs : Frames C) (l l' : List ℕ) :
    fill fs (l ++ l') = if (fill fs l).2 then fill (fill fs l).1 l' else fill fs l := by
  induction l generalizing fs with
  | nil => simp [fill]
  | cons i l ih =>
    simp only [List.cons_append, fill]
    split_ifs <;> simp_all

theorem Filled.step {fs₀ : Frames C} (hfirst : 1 ∈ fs₀.numbers ∨ 2 ∈ fs₀.numbers) (hT : 1 ≤ T)
    (h : Filled fs₀ fs T) : (fill fs [T + 1]).2 = true ∧ Filled fs₀ (fill fs [T + 1]).1 (T + 1) := by
  have hIcc : Finset.Icc 2 (T + 1) = insert (T + 1) (Finset.Icc 2 T) := by
    ext n
    simp only [Finset.mem_Icc, Finset.mem_insert]
    omega
  by_cases hin : T + 1 ∈ fs.numbers
  · have hfill : fill fs [T + 1] = (fs, true) := by simp [fill, hin]
    rw [hfill]
    refine ⟨rfl, ?_, h.content⟩
    have hnumbers : insert (T + 1) fs.numbers = fs.numbers := Finset.insert_eq_of_mem hin
    rw [hIcc, Finset.union_insert, ← h.numbers, hnumbers]
  · have hnot : T + 1 ∉ fs₀.numbers := fun hmem => hin (by rw [h.numbers]; exact Finset.mem_union_left _ hmem)
    have hbefore : T ∈ fs.numbers := by
      rw [h.numbers, Finset.mem_union, Finset.mem_Icc]
      by_cases hone : T = 1
      · subst hone
        exact Or.inl (hfirst.resolve_right hnot)
      · exact Or.inr ⟨by omega, le_rfl⟩
    have hfill : fill fs [T + 1] = (fs.copy T (T + 1), true) := by simp [fill, hin, hbefore]
    rw [hfill]
    refine ⟨rfl, ?_, ?_⟩
    · simp only [Frames.copy]
      rw [hIcc, Finset.union_insert, ← h.numbers]
    · intro n hn
      simp only [Frames.copy] at hn ⊢
      by_cases heq : n = T + 1
      · rw [heq, Function.update_self, source_succ hnot, h.content T hbefore]
      · rw [Function.update_of_ne heq]
        exact h.content n (Finset.mem_of_mem_insert_of_ne hn heq)

/-- The gaps are filled from below, if there is a first or second frame. -/
theorem fill_spec (hfirst : 1 ∈ fs.numbers ∨ 2 ∈ fs.numbers) (k : ℕ) :
    (fill fs (List.range' 2 k)).2 = true ∧ Filled fs (fill fs (List.range' 2 k)).1 (k + 1) := by
  induction k with
  | zero => exact ⟨rfl, filled_one fs⟩
  | succ k ih =>
    obtain ⟨hok, hfilled⟩ := ih
    rw [List.range'_1_concat, fill_append, if_pos hok, show 2 + k = k + 1 + 1 by omega]
    exact hfilled.step hfirst (by omega)

theorem fill_fails (h1 : 1 ∉ fs.numbers) (h2 : 2 ∉ fs.numbers) {k : ℕ} (hk : 0 < k) :
    fill fs (List.range' 2 k) = (fs, false) := by
  obtain ⟨k, rfl⟩ := Nat.exists_eq_succ_of_ne_zero hk.ne'
  simp [List.range'_succ, fill, h1, h2]

/-- The duplicates have the content of the last frame, the other files keep theirs. -/
theorem duplicate_spec {last : ℕ} (hlast : last ∈ fs.numbers) (js : List ℕ) :
    (duplicate fs last js).numbers = fs.numbers ∪ js.toFinset ∧
      ∀ n, (duplicate fs last js).content n = if n ∈ js then fs.content last else fs.content n := by
  induction js generalizing fs with
  | nil => simp [duplicate]
  | cons j js ih =>
    by_cases hj : j = last
    · have hdup : duplicate fs last (j :: js) = duplicate fs last js := by simp [duplicate, hj]
      obtain ⟨hnumbers, hcontent⟩ := ih hlast
      rw [hdup, hnumbers]
      refine ⟨?_, fun n => ?_⟩
      · rw [List.toFinset_cons, Finset.union_insert, hj]
        exact (Finset.insert_eq_of_mem (Finset.mem_union_left _ hlast)).symm
      · rw [hcontent n]
        by_cases hn : n = j
        · subst hn
          simp [hj]
        · simp [hn]
    · have hdup : duplicate fs last (j :: js) = duplicate (fs.copy last j) last js := by simp [duplicate, hj]
      have hlast' : last ∈ (fs.copy last j).numbers := Finset.mem_insert_of_mem hlast
      obtain ⟨hnumbers, hcontent⟩ := ih hlast'
      rw [hdup, hnumbers]
      refine ⟨?_, fun n => ?_⟩
      · simp only [Frames.copy, List.toFinset_cons, Finset.union_insert, Finset.insert_union]
      · rw [hcontent n]
        simp only [Frames.copy, Function.update_of_ne (Ne.symm hj)]
        by_cases hn : n = j
        · subst hn
          simp
        · simp [hn]

end Loops

/-! ## The last frame -/

section LastFrame

variable {S : Finset ℕ}

theorem mem_filelist {n : ℕ} : n ∈ filelist S ↔ n ∈ S := by
  unfold filelist
  rw [List.mem_insertionSort, Finset.mem_sort]

theorem lastFrame_spec (hS : S.Nonempty) : lastFrame S ∈ S ∧ ∀ n ∈ S, frameName n ≤ frameName (lastFrame S) := by
  obtain ⟨m, hm⟩ := hS
  have hne : filelist S ≠ [] := List.ne_nil_of_mem (mem_filelist.mpr hm)
  have hlast : lastFrame S = (filelist S).getLast hne := by
    rw [lastFrame, List.getLast?_eq_some_getLast hne, Option.getD_some]
  have hsorted : (filelist S).Pairwise fun a b => frameName a ≤ frameName b := List.pairwise_insertionSort _ _
  rw [hlast]
  refine ⟨mem_filelist.mp (List.getLast_mem hne), fun n hn => ?_⟩
  have hmem := mem_filelist.mpr hn
  rw [← List.dropLast_append_getLast hne] at hsorted hmem
  rcases List.mem_append.mp hmem with hfront | hlast
  · exact (List.pairwise_append.mp hsorted).2.2 n hfront _ List.mem_cons_self
  · rw [List.mem_singleton.mp hlast]

/-- Up to 999999 the names are in the order of the numbers. -/
theorem frameName_lt {m n : ℕ} (hlt : m < n) (hn : n < 10 ^ 6) : frameName m < frameName n := by
  refine List.Lex.append_left _ ?_ _
  refine lt_of_ofDigitChars_lt ?_ ?_ ?_ ?_ _ _
  · rw [length_decimals (by decide) (hlt.trans hn), length_decimals (by decide) hn]
  · exact isDigit_of_mem_leftpad
  · exact isDigit_of_mem_leftpad
  · rw [ofDigitChars_leftpad, ofDigitChars_leftpad]
    exact hlt

/-- Below a million the last name is that of the highest number. -/
theorem lastFrame_eq_max (hS : S.Nonempty) (hbound : ∀ n ∈ S, n < 10 ^ 6) : lastFrame S = S.max' hS := by
  obtain ⟨hmem, hgreatest⟩ := lastFrame_spec hS
  refine le_antisymm (S.le_max' _ hmem) ?_
  by_contra hlt
  have hmax := S.max'_mem hS
  exact absurd (hgreatest _ hmax) (not_le.mpr (frameName_lt (not_le.mp hlt) (hbound _ hmax)))

end LastFrame

/-! ## A run -/

section Runs

variable {C : Type*}

/-- The frames that were captured: at least one, with positive numbers. -/
structure Captured (C : Type*) where
  frames : Frames C
  nonempty : frames.numbers.Nonempty
  pos : ∀ n ∈ frames.numbers, 0 < n

namespace Captured

variable (S : Captured C)

/-- The numbers. -/
def numbers : Finset ℕ := S.frames.numbers

/-- The highest number. -/
def highest : ℕ := S.numbers.max' S.nonempty

/-- The nearest captured number that is not above `n`, or the lowest one if there is none. -/
def origin (n : ℕ) : ℕ := if ∃ m ∈ S.numbers, m ≤ n then source S.numbers n else S.numbers.min' S.nonempty

end Captured

/-- What the encoder finds: the numbers from 1 on without a gap, at least twice the frame rate; the captured frames as
they were, and copies of the ones they stand behind. -/
def Numbered (S : Captured C) (fps : ℕ) (enc : Frames C) : Prop :=
  ∃ N, enc.numbers = Finset.Icc 1 N ∧ fps * 2 ≤ N ∧
    (∀ n ∈ S.numbers, n ∈ enc.numbers ∧ enc.content n = S.frames.content n) ∧
    ∀ n ∈ enc.numbers, n ∉ S.numbers → enc.content n = S.frames.content (S.origin n)

/-- A run is right: the encoder finds the frames numbered, if it is called; afterwards the duplicates are gone, unless
they were captured, and the captured frames are as they were. -/
structure RendersRight (S : Captured C) (fps : ℕ) (run : Run C) : Prop where
  atEncoder : ∀ enc, run.atEncoder = some enc → Numbered S fps enc
  gone : ∀ n ∈ run.duplicates, n ∉ S.numbers → n ∉ run.after.numbers
  kept : ∀ n ∈ S.numbers, n ∈ run.after.numbers ∧ run.after.content n = S.frames.content n

/-- The number up to which gaps are filled; 1 where none are. -/
def filledTo (fps : ℕ) (S : Captured C) : ℕ :=
  if lastNumber fps S.numbers ≠ S.numbers.card then lastNumber fps S.numbers else 1

/-- The frames that are there when the gaps have been filled. -/
def completed (fps : ℕ) (S : Captured C) : Finset ℕ := S.numbers ∪ Finset.Icc 2 (filledTo fps S)

/-- The render stops before it changes anything: it is not begun, or there is nothing to fill the first gap with. -/
def Stops (fps : ℕ) (sur : Surroundings) (S : Captured C) : Prop :=
  sur.renderisrunning ∨ !sur.ffmpegInstalled ∨ sur.frameInPath ∨
    1 ∉ S.numbers ∧ 2 ∉ S.numbers ∧ 2 ≤ filledTo fps S

/-- The captured frames leave no gap but from 2 on where gaps are filled. -/
def Gapless (fps : ℕ) (S : Captured C) : Prop :=
  ∀ n, 1 ≤ n → n ≤ S.highest → n ∈ S.numbers ∨ 2 ≤ n ∧ n ≤ filledTo fps S

/-- The file with the last name has the content of the highest captured frame. -/
def LastRight (fps : ℕ) (S : Captured C) : Prop :=
  S.frames.content (source S.numbers (lastFrame (Finset.Icc 1 (max S.highest (filledTo fps S))))) =
    S.frames.content S.highest

/-- Duplicating changes nothing: the files that would be written are captured frames with the content of the last
file. -/
def NothingWritten (cfg : Config) (S : Captured C) : Prop :=
  ∀ i < cfg.duplicatelastframe, (completed cfg.fps S).card + i + 1 ∈ S.numbers ∧
    S.frames.content ((completed cfg.fps S).card + i + 1) =
      S.frames.content (source S.numbers (lastFrame (completed cfg.fps S)))

/-- The runs that are right: those that stop before they change anything, or with the gaps filled; those that a target
length of 0 or the quotation stops, where duplicating changes nothing; and those that reach the encoder without a gap,
where with duplicates the last name is that of the highest frame and the encoder raises no exception. -/
def RenderOk (cfg : Config) (sur : Surroundings) (S : Captured C) : Prop :=
  Stops cfg.fps sur S ∨ sur.queryRaises ∨
    if cfg.variableFps ∧ cfg.targetlength = 0 ∨ sur.commandRaises then NothingWritten cfg S
    else Gapless cfg.fps S ∧ (cfg.duplicatelastframe = 0 ∨ LastRight cfg.fps S ∧ sur.encoderRaises = false)

end Runs

/-! ## Numbers without a gap -/

section Gaps

variable {C : Type*} {S : Captured C} {fps : ℕ}

theorem Captured.mem_le (S : Captured C) {n : ℕ} (hn : n ∈ S.numbers) : 1 ≤ n ∧ n ≤ S.highest :=
  ⟨S.pos n hn, S.numbers.le_max' n hn⟩

theorem Captured.highest_mem (S : Captured C) : S.highest ∈ S.numbers := S.numbers.max'_mem S.nonempty

theorem Captured.origin_above (S : Captured C) {n : ℕ} (hn : S.highest ≤ n) : S.origin n = S.highest := by
  have hex : ∃ m ∈ S.numbers, m ≤ n := ⟨S.highest, S.highest_mem, hn⟩
  rw [Captured.origin, if_pos hex]
  exact le_antisymm (S.mem_le (source_mem S.highest_mem hn)).2 (le_source S.highest_mem hn)

/-- Numbers that are added behind as many as there are fill no gap. -/
theorem exists_Icc_iff (A : Finset ℕ) (d : ℕ) :
    (∃ N, A ∪ Finset.Icc (A.card + 1) (A.card + d) = Finset.Icc 1 N) ↔ A = Finset.Icc 1 A.card := by
  constructor
  · rintro ⟨N, hN⟩
    have hsub : A ⊆ Finset.Icc 1 N := by
      rw [← hN]
      exact Finset.subset_union_left
    have hcard := Finset.card_le_card hsub
    rw [Nat.card_Icc] at hcard
    -- as many numbers as `A` has are below the added ones
    have hlow : Finset.Icc 1 A.card ⊆ A := by
      intro n hn
      rw [Finset.mem_Icc] at hn
      have hmem : n ∈ A ∪ Finset.Icc (A.card + 1) (A.card + d) := by
        rw [hN, Finset.mem_Icc]
        omega
      rcases Finset.mem_union.mp hmem with hA | hadded
      · exact hA
      · rw [Finset.mem_Icc] at hadded
        omega
    refine (Finset.eq_of_subset_of_card_le hlow ?_).symm
    rw [Nat.card_Icc]
    omega
  · intro h
    refine ⟨A.card + d, ?_⟩
    ext n
    rw [Finset.mem_union, Finset.mem_Icc, Finset.mem_Icc]
    have hmem : n ∈ A ↔ 1 ≤ n ∧ n ≤ A.card := by
      conv_lhs => rw [h]
      rw [Finset.mem_Icc]
    rw [hmem]
    omega

theorem completed_eq (h : Gapless fps S) : completed fps S = Finset.Icc 1 (max S.highest (filledTo fps S)) := by
  ext n
  unfold completed
  rw [Finset.mem_union, Finset.mem_Icc, Finset.mem_Icc, le_max_iff]
  have hhighest := S.mem_le S.highest_mem
  constructor
  · rintro (hS | hfilled)
    · have := S.mem_le hS
      omega
    · omega
  · rintro ⟨hn, hle⟩
    by_cases hhigh : n ≤ S.highest
    · exact h n hn hhigh
    · right
      omega

theorem gapless_iff : completed fps S = Finset.Icc 1 (completed fps S).card ↔ Gapless fps S := by
  constructor
  · intro h n hn hle
    have hmax : S.highest ∈ completed fps S := Finset.mem_union_left _ S.highest_mem
    rw [h, Finset.mem_Icc] at hmax
    have hmem : n ∈ completed fps S := by
      rw [h, Finset.mem_Icc]
      omega
    rcases Finset.mem_union.mp hmem with hS | hfilled
    · exact Or.inl hS
    · exact Or.inr (Finset.mem_Icc.mp hfilled)
  · intro h
    have hIcc := completed_eq h
    rw [hIcc, Nat.card_Icc, Nat.add_sub_cancel]

theorem filledTo_pos (fps : ℕ) (S : Captured C) : 1 ≤ filledTo fps S := by
  have hcard : 0 < S.numbers.card := Finset.card_pos.mpr S.nonempty
  have hlast : 0 < lastFrame S.numbers := S.pos _ (lastFrame_spec S.nonempty).1
  unfold filledTo lastNumber
  split_ifs <;> omega

theorem fillRange_eq (fps : ℕ) (S : Captured C) :
    fillRange fps S.numbers = List.range' 2 (filledTo fps S - 1) := by
  unfold fillRange filledTo
  split_ifs <;> rfl

/-- There are at least twice as many frames as the frame rate. -/
theorem fps_le_card (h : Gapless fps S) : fps * 2 ≤ (completed fps S).card := by
  by_cases hfew : S.numbers.card < fps * 2
  · have hto : filledTo fps S = fps * 2 := by
      have hlast : lastNumber fps S.numbers = fps * 2 := if_pos hfew
      rw [filledTo, hlast, if_pos (by omega)]
    rw [completed_eq h, Nat.card_Icc, hto]
    have := le_max_right S.highest (fps * 2)
    omega
  · have hsub : S.numbers ⊆ completed fps S := Finset.subset_union_left
    have := Finset.card_le_card hsub
    omega

end Gaps

/-! ## The runs that are right -/

section Render

variable {C : Type*} {S : Captured C} {cfg : Config} {sur : Surroundings}

/-- The numbers of the duplicates. -/
def duplicateNumbers (cfg : Config) (count : ℕ) : List ℕ :=
  (List.range cfg.duplicatelastframe).map fun i => count + i + 1

theorem mem_duplicateNumbers {count n : ℕ} :
    n ∈ duplicateNumbers cfg count ↔ count < n ∧ n ≤ count + cfg.duplicatelastframe := by
  unfold duplicateNumbers
  rw [List.mem_map]
  constructor
  · rintro ⟨i, hi, rfl⟩
    have := List.mem_range.mp hi
    omega
  · rintro ⟨hlo, hhi⟩
    exact ⟨n - count - 1, List.mem_range.mpr (by omega), by omega⟩

theorem render_stops (h : Stops cfg.fps sur S) : render cfg sur S.frames = ⟨none, [], S.frames⟩ := by
  by_cases hbegun : S.frames.numbers = ∅ ∨ sur.renderisrunning ∨ !sur.ffmpegInstalled ∨ sur.frameInPath
  · unfold render
    rw [if_pos hbegun]
  · have hfill : 1 ∉ S.numbers ∧ 2 ∉ S.numbers ∧ 2 ≤ filledTo cfg.fps S := by
      rcases h with h | h | h | h
      · exact absurd (Or.inr (Or.inl h)) hbegun
      · exact absurd (Or.inr (Or.inr (Or.inl h))) hbegun
      · exact absurd (Or.inr (Or.inr (Or.inr h))) hbegun
      · exact h
    have hfails : fill S.frames (fillRange cfg.fps S.frames.numbers) = (S.frames, false) := by
      have hrange : fillRange cfg.fps S.frames.numbers = _ := fillRange_eq cfg.fps S
      rw [hrange]
      exact fill_fails hfill.1 hfill.2.1 (by omega)
    unfold render
    rw [if_neg hbegun, hfails]
    simp

/-- Any other run fills the gaps, duplicates the last frame and, unless an exception stops it, removes the
duplicates. -/
theorem render_goes (h : ¬ Stops cfg.fps sur S) : ∃ fs, Filled S.frames fs (filledTo cfg.fps S) ∧
    render cfg sur S.frames =
      if sur.queryRaises then ⟨none, [], fs⟩
      else
        let duplicates := duplicateNumbers cfg fs.numbers.card
        let fs' := duplicate fs (lastFrame fs.numbers) duplicates
        if cfg.variableFps ∧ cfg.targetlength = 0 ∨ sur.commandRaises then ⟨none, duplicates, fs'⟩
        else ⟨some fs', duplicates, if sur.encoderRaises then fs' else fs'.remove duplicates⟩ := by
  unfold Stops at h
  push Not at h
  obtain ⟨hrunning, hffmpeg, hpath, hfirst⟩ := h
  have hbegun : ¬ (S.frames.numbers = ∅ ∨ sur.renderisrunning ∨ !sur.ffmpegInstalled ∨ sur.frameInPath) := by
    rintro (h | h | h | h)
    · exact absurd h S.nonempty.ne_empty
    · exact hrunning h
    · exact hffmpeg h
    · exact hpath h
  have hpos := filledTo_pos cfg.fps S
  have hrange : fillRange cfg.fps S.frames.numbers = List.range' 2 (filledTo cfg.fps S - 1) := fillRange_eq cfg.fps S
  have hfill : (fill S.frames (fillRange cfg.fps S.frames.numbers)).2 = true ∧
      Filled S.frames (fill S.frames (fillRange cfg.fps S.frames.numbers)).1 (filledTo cfg.fps S) := by
    rw [hrange]
    by_cases h1 : 1 ∈ S.numbers
    · have hspec := fill_spec (Or.inl h1) (filledTo cfg.fps S - 1)
      rwa [Nat.sub_add_cancel hpos] at hspec
    · by_cases h2 : 2 ∈ S.numbers
      · have hspec := fill_spec (Or.inr h2) (filledTo cfg.fps S - 1)
        rwa [Nat.sub_add_cancel hpos] at hspec
      · have hone : filledTo cfg.fps S = 1 := by
          have := hfirst h1 h2
          omega
        rw [hone]
        exact ⟨rfl, filled_one S.frames⟩
  refine ⟨_, hfill.2, ?_⟩
  unfold render
  rw [if_neg hbegun]
  simp only [hfill.1, Bool.not_true, Bool.false_eq_true, false_or]
  rfl

/-- What the duplicates and the other frames hold. -/
structure Duplicated (cfg : Config) (S : Captured C) (fs' : Frames C) : Prop where
  mem : ∀ n, n ∈ fs'.numbers ↔ n ∈ completed cfg.fps S ∨ n ∈ duplicateNumbers cfg (completed cfg.fps S).card
  duplicates : ∀ n ∈ duplicateNumbers cfg (completed cfg.fps S).card,
    fs'.content n = S.frames.content (source S.numbers (lastFrame (completed cfg.fps S)))
  others : ∀ n ∈ completed cfg.fps S, n ∉ duplicateNumbers cfg (completed cfg.fps S).card →
    fs'.content n = S.frames.content (source S.numbers n)

theorem Filled.duplicated {fs : Frames C} (h : Filled S.frames fs (filledTo cfg.fps S)) :
    Duplicated cfg S (duplicate fs (lastFrame fs.numbers) (duplicateNumbers cfg fs.numbers.card)) := by
  have hnumbers : fs.numbers = completed cfg.fps S := h.numbers
  have hne : fs.numbers.Nonempty := by
    rw [hnumbers]
    exact ⟨_, Finset.mem_union_left _ S.highest_mem⟩
  have hlast := (lastFrame_spec hne).1
  obtain ⟨hdup, hcontent⟩ := duplicate_spec hlast (duplicateNumbers cfg fs.numbers.card)
  refine ⟨fun n => ?_, fun n hn => ?_, fun n hn hnot => ?_⟩
  · rw [hdup, Finset.mem_union, List.mem_toFinset, hnumbers]
  · rw [← hnumbers] at hn ⊢
    rw [hcontent, if_pos hn]
    exact h.content _ hlast
  · rw [← hnumbers] at hn hnot
    rw [hcontent, if_neg hnot]
    exact h.content n hn

/-- Without a gap the captured frames are as they were, and the duplicates are none of them. -/
theorem Duplicated.captured {fs' : Frames C} (h : Duplicated cfg S fs') (hgapless : Gapless cfg.fps S) {n : ℕ}
    (hn : n ∈ S.numbers) : n ∉ duplicateNumbers cfg (completed cfg.fps S).card ∧ n ∈ fs'.numbers ∧
      fs'.content n = S.frames.content n := by
  have hcard : (completed cfg.fps S).card = max S.highest (filledTo cfg.fps S) := by
    rw [completed_eq hgapless, Nat.card_Icc, Nat.add_sub_cancel]
  have hle := (S.mem_le hn).2
  have hhigh := le_max_left S.highest (filledTo cfg.fps S)
  have hnot : n ∉ duplicateNumbers cfg (completed cfg.fps S).card := by
    rw [mem_duplicateNumbers]
    omega
  have hmem : n ∈ completed cfg.fps S := Finset.mem_union_left _ hn
  refine ⟨hnot, (h.mem n).mpr (Or.inl hmem), ?_⟩
  rw [h.others n hmem hnot, source_self hn]

/-- What the encoder finds is numbered exactly if there is no gap and the last name is that of the highest frame. -/
theorem Duplicated.numbered_iff {fs' : Frames C} (h : Duplicated cfg S fs') :
    Numbered S cfg.fps fs' ↔ Gapless cfg.fps S ∧ (cfg.duplicatelastframe = 0 ∨ LastRight cfg.fps S) := by
  have hset : fs'.numbers = completed cfg.fps S ∪
      Finset.Icc ((completed cfg.fps S).card + 1) ((completed cfg.fps S).card + cfg.duplicatelastframe) := by
    ext n
    rw [h.mem, Finset.mem_union, Finset.mem_Icc, mem_duplicateNumbers]
    exact Iff.rfl
  have hgap : (∃ N, fs'.numbers = Finset.Icc 1 N) ↔ Gapless cfg.fps S := by
    rw [hset, exists_Icc_iff, gapless_iff]
  constructor
  · rintro ⟨N, hN, -, -, hcopies⟩
    have hgapless := hgap.mp ⟨N, hN⟩
    refine ⟨hgapless, ?_⟩
    by_cases hzero : cfg.duplicatelastframe = 0
    · exact Or.inl hzero
    · right
      -- the first duplicate is a copy of the highest frame
      have hcompleted := completed_eq hgapless
      have hcard : (completed cfg.fps S).card = max S.highest (filledTo cfg.fps S) := by
        rw [hcompleted, Nat.card_Icc, Nat.add_sub_cancel]
      have hfirst : (completed cfg.fps S).card + 1 ∈ duplicateNumbers cfg (completed cfg.fps S).card :=
        mem_duplicateNumbers.mpr (by omega)
      have hhigh := le_max_left S.highest (filledTo cfg.fps S)
      have hnot : (completed cfg.fps S).card + 1 ∉ S.numbers := by
        intro hmem
        have := (S.mem_le hmem).2
        omega
      have hcopy := hcopies _ ((h.mem _).mpr (Or.inr hfirst)) hnot
      rw [h.duplicates _ hfirst, S.origin_above (by omega), hcompleted] at hcopy
      exact hcopy
  · rintro ⟨hgapless, hlast⟩
    obtain ⟨N, hN⟩ := hgap.mpr hgapless
    have hcard : (completed cfg.fps S).card = max S.highest (filledTo cfg.fps S) := by
      rw [completed_eq hgapless, Nat.card_Icc, Nat.add_sub_cancel]
    have hhigh := le_max_left S.highest (filledTo cfg.fps S)
    have hsub : completed cfg.fps S ⊆ Finset.Icc 1 N := by
      rw [← hN]
      exact fun n hn => (h.mem n).mpr (Or.inl hn)
    have hle := Finset.card_le_card hsub
    rw [Nat.card_Icc, Nat.add_sub_cancel] at hle
    refine ⟨N, hN, (fps_le_card hgapless).trans hle, fun n hn => (h.captured hgapless hn).2, fun n hn hnot => ?_⟩
    by_cases hdup : n ∈ duplicateNumbers cfg (completed cfg.fps S).card
    · have hpos := mem_duplicateNumbers.mp hdup
      have hright := hlast.resolve_left (by omega)
      rw [h.duplicates n hdup, S.origin_above (by omega), completed_eq hgapless]
      exact hright
    · have hmem := ((h.mem n).mp hn).resolve_right hdup
      have hone : 1 ∈ S.numbers := by
        rcases hgapless 1 le_rfl (S.mem_le S.highest_mem).1 with h1 | h1
        · exact h1
        · omega
      have hn1 : 1 ≤ n := (Finset.mem_Icc.mp (hsub hmem)).1
      rw [h.others n hmem hdup, Captured.origin, if_pos ⟨1, hone, hn1⟩]

/-- A run that stops with the gaps filled leaves the captured frames as they were. -/
theorem Filled.stopped {fs : Frames C} (h : Filled S.frames fs (filledTo cfg.fps S)) :
    RendersRight S cfg.fps ⟨none, [], fs⟩ := by
  refine ⟨fun _ hnone => (by cases hnone), fun _ hnil => (by cases hnil), fun n hn => ?_⟩
  have hmem : n ∈ fs.numbers := by
    rw [h.numbers]
    exact Finset.mem_union_left _ hn
  exact ⟨hmem, by rw [h.content n hmem, source_self (show n ∈ S.frames.numbers from hn)]⟩

/-- A run that stops before the encoder leaves the duplicates. -/
theorem Duplicated.stopped_iff {fs' : Frames C} (h : Duplicated cfg S fs') :
    RendersRight S cfg.fps ⟨none, duplicateNumbers cfg (completed cfg.fps S).card, fs'⟩ ↔ NothingWritten cfg S := by
  constructor
  · intro hright i hi
    have hmem : (completed cfg.fps S).card + i + 1 ∈ duplicateNumbers cfg (completed cfg.fps S).card :=
      mem_duplicateNumbers.mpr (by omega)
    have hcaptured : (completed cfg.fps S).card + i + 1 ∈ S.numbers := by
      by_contra hnot
      exact hright.gone _ hmem hnot ((h.mem _).mpr (Or.inr hmem))
    refine ⟨hcaptured, ?_⟩
    rw [← (hright.kept _ hcaptured).2]
    exact h.duplicates _ hmem
  · intro hnothing
    have hcaptured : ∀ n ∈ duplicateNumbers cfg (completed cfg.fps S).card, n ∈ S.numbers ∧
        S.frames.content n = S.frames.content (source S.numbers (lastFrame (completed cfg.fps S))) := by
      intro n hn
      obtain ⟨i, hi, rfl⟩ := List.mem_map.mp hn
      exact hnothing i (List.mem_range.mp hi)
    refine ⟨fun _ hnone => (by cases hnone), fun n hn hnot => absurd (hcaptured n hn).1 hnot, fun n hn => ?_⟩
    have hmem : n ∈ completed cfg.fps S := Finset.mem_union_left _ hn
    refine ⟨(h.mem n).mpr (Or.inl hmem), ?_⟩
    by_cases hdup : n ∈ duplicateNumbers cfg (completed cfg.fps S).card
    · exact (h.duplicates n hdup).trans (hcaptured n hdup).2.symm
    · rw [h.others n hmem hdup, source_self hn]

/-- So does one in which the encoder raises an exception. -/
theorem Duplicated.raised_iff {fs' : Frames C} (h : Duplicated cfg S fs') :
    RendersRight S cfg.fps ⟨some fs', duplicateNumbers cfg (completed cfg.fps S).card, fs'⟩ ↔
      Gapless cfg.fps S ∧ cfg.duplicatelastframe = 0 := by
  constructor
  · intro hright
    obtain ⟨hgapless, -⟩ := h.numbered_iff.mp (hright.atEncoder _ rfl)
    refine ⟨hgapless, ?_⟩
    by_contra hzero
    have hmem : (completed cfg.fps S).card + 1 ∈ duplicateNumbers cfg (completed cfg.fps S).card :=
      mem_duplicateNumbers.mpr (by omega)
    by_cases hcaptured : (completed cfg.fps S).card + 1 ∈ S.numbers
    · exact (h.captured hgapless hcaptured).1 hmem
    · exact hright.gone _ hmem hcaptured ((h.mem _).mpr (Or.inr hmem))
  · rintro ⟨hgapless, hzero⟩
    refine ⟨fun enc henc => ?_, fun n hn => ?_, fun n hn => (h.captured hgapless hn).2⟩
    · rw [← Option.some.inj henc]
      exact h.numbered_iff.mpr ⟨hgapless, Or.inl hzero⟩
    · have := mem_duplicateNumbers.mp hn
      omega

theorem Duplicated.ran_iff {fs' : Frames C} (h : Duplicated cfg S fs') :
    RendersRight S cfg.fps ⟨some fs', duplicateNumbers cfg (completed cfg.fps S).card,
        fs'.remove (duplicateNumbers cfg (completed cfg.fps S).card)⟩ ↔
      Gapless cfg.fps S ∧ (cfg.duplicatelastframe = 0 ∨ LastRight cfg.fps S) := by
  rw [← h.numbered_iff]
  constructor
  · exact fun hright => hright.atEncoder _ rfl
  · intro hnumbered
    have hgapless := (h.numbered_iff.mp hnumbered).1
    refine ⟨fun enc henc => ?_, fun n hn _ => ?_, fun n hn => ?_⟩
    · rw [← Option.some.inj henc]
      exact hnumbered
    · simp only [Frames.remove, Finset.mem_sdiff, List.mem_toFinset, not_and, not_not]
      exact fun _ => hn
    · obtain ⟨hnot, hmem, hcontent⟩ := h.captured hgapless hn
      refine ⟨?_, hcontent⟩
      simp only [Frames.remove, Finset.mem_sdiff, List.mem_toFinset]
      exact ⟨hmem, hnot⟩

/-- **The frames of a render**, for any captured frames, settings and surroundings. -/
theorem render_iff (cfg : Config) (sur : Surroundings) (S : Captured C) :
    RendersRight S cfg.fps (render cfg sur S.frames) ↔ RenderOk cfg sur S := by
  unfold RenderOk
  by_cases hstops : Stops cfg.fps sur S
  · rw [render_stops hstops]
    exact ⟨fun _ => Or.inl hstops,
      fun _ => ⟨fun _ hnone => (by cases hnone), fun _ hnil => (by cases hnil), fun n hn => ⟨hn, rfl⟩⟩⟩
  · obtain ⟨fs, hfilled, hrender⟩ := render_goes hstops
    have hdup := hfilled.duplicated
    have hcount : fs.numbers.card = (completed cfg.fps S).card := congrArg Finset.card hfilled.numbers
    rw [hrender]
    simp only [hstops, false_or, hcount] at hdup ⊢
    generalize duplicate fs _ _ = fs' at hdup ⊢
    by_cases hquery : sur.queryRaises = true
    · rw [if_pos hquery]
      exact ⟨fun _ => Or.inl hquery, fun _ => hfilled.stopped⟩
    rw [if_neg hquery, or_iff_right hquery]
    split_ifs with hstop hraises
    · exact hdup.stopped_iff
    · rw [hdup.raised_iff, hraises]
      simp
    · rw [hdup.ran_iff, Bool.eq_false_iff.mpr hraises]
      simp

/-- The frames 2 and 3. -/
def twoThree : Captured ℕ := ⟨⟨{2, 3}, id⟩, by decide, by decide⟩

/-- Two frames at one frame a second, one duplicate: there is no frame 1, and frame 3 is removed as the duplicate of
itself. -/
theorem captured_frame_removed :
    3 ∉ (render ⟨1, 1, false, 10⟩ ⟨false, true, false, false, false, false⟩ twoThree.frames).after.numbers ∧
      ¬ RendersRight twoThree 1 (render ⟨1, 1, false, 10⟩ ⟨false, true, false, false, false,
        false⟩ twoThree.frames) := by
  have hremoved : 3 ∉ (render ⟨1, 1, false, 10⟩ ⟨false, true, false, false, false,
      false⟩ twoThree.frames).after.numbers := by
    have hlast : lastFrame {2, 3} = 3 := lastFrame_eq_max (by decide) (by decide)
    have hrange : fillRange 1 {2, 3} = [2, 3] := by
      rw [fillRange, lastNumber, hlast]
      decide
    have hfill : fill (⟨{2, 3}, id⟩ : Frames ℕ) [2, 3] = (⟨{2, 3}, id⟩, true) := by simp [fill]
    simp [render, twoThree, hrange, hfill, hlast, duplicate, Frames.remove]
  exact ⟨hremoved, fun h => hremoved (h.kept 3 (by decide)).1⟩

end Render

end Cxsw.Moonraker
