import Cxsw.Lib.Words
import Cxsw.CrGcode.GcodeG1Handle

/-!
# Cxsw.CrGcode.GcodeWords — what `GcodeG1Parse` reads from a line

The parser cuts off one option after another, each at a space, and looks at its first letter.  It looks for the sign of
a comment there only, and copies the option to 20 bytes and the name to 8, whatever their length.

* `optsEnd_parseOpts`: the loop ends.
* `parseOpts_eq`: it reads the `codeWords` of the line.
* `g1_parse_iff`: when these are the words before the comment.
-/

namespace Cxsw.Gcode

open CString Words Cxsw.Motion

/-! ## Lines and what is in them -/

section Spec

/-- A line in the buffer of a caller: no caller's buffer has more bytes than an `S16` counts. -/
structure CmdLine where
  bytes : List UInt8
  nul : (0 : UInt8) ∉ bytes
  short : bytes.length < 32768

/-- The letters of `G1`: one for each axis, and `F`. -/
def letter : Option Axis → UInt8
  | some .X => ascii 'X'
  | some .Y => ascii 'Y'
  | some .Z => ascii 'Z'
  | some .E => ascii 'E'
  | none => ascii 'F'

/-- `HasX` and the others. -/
def ArgG1AndG0.given (arg : ArgG1AndG0) : Option Axis → Bool
  | some a => arg.has a
  | none => arg.hasF

/-- The value that is stored for a letter. -/
def ArgG1AndG0.value (arg : ArgG1AndG0) : Option Axis → ℚ
  | some a => arg.coord a
  | none => arg.f

/-- The words of a `G1` before the comment, the name apart; a line feed at the end of the line does not count. -/
def g1Words (line : List UInt8) : List (List UInt8) :=
  match plainWords (ascii ' ') (ascii ';') (chomp line) with
  | name :: words => if name = text "G1" then words else []
  | [] => []

/-- The arguments follow the words: a letter is given exactly if a word starts with it, and its value is that of the
last such word. -/
def Follows (atof : List UInt8 → ℚ) (words : List (List UInt8)) (arg : ArgG1AndG0) : Prop :=
  ∀ o, (arg.given o = true ↔ ∃ word ∈ words, word.head? = some (letter o)) ∧
    ∀ value, (valuesOf (letter o) words).getLast? = some value → arg.value o = atof value

/-- The arguments after a call, which starts from zeros. -/
def argsOf : Except ParseError ArgG1AndG0 → ArgG1AndG0
  | .ok arg => arg
  | .error _ => .zero

/-- The loop over the options ends with a result. -/
inductive OptsEnd (atof : List UInt8 → ℚ) : List UInt8 → ArgG1AndG0 → Except ParseError ArgG1AndG0 → Prop
  | done (arg : ArgG1AndG0) : OptsEnd atof [] arg (.ok arg)
  | stop {buff : List UInt8} {arg : ArgG1AndG0} (hbuff : buff ≠ []) (hopt : getCmdOpt buff = none) :
      OptsEnd atof buff arg (.ok arg)
  | overflow {buff opt : List UInt8} {arg : ArgG1AndG0} (hbuff : buff ≠ []) (hopt : getCmdOpt buff = some opt)
      (hlen : ¬opt.length < optLen) : OptsEnd atof buff arg (.error .overflow)
  | next {buff opt : List UInt8} {arg : ArgG1AndG0} {r : Except ParseError ArgG1AndG0} (hbuff : buff ≠ [])
      (hopt : getCmdOpt buff = some opt) (hlen : opt.length < optLen)
      (hrest : OptsEnd atof (buff.drop (opt.length + 1)) (arg.set atof opt) r) : OptsEnd atof buff arg r

/-- The parser does its work on a line: its loop ends, it stays in its buffers and its arguments follow the words. -/
def G1Reads (atof : List UInt8 → ℚ) (line : List UInt8) : Prop :=
  OptsEnd atof (line.drop 3) .zero (parseOpts atof line.length (line.drop 3) .zero) ∧
    gcodeG1Parse atof line ≠ .error .overflow ∧ Follows atof (g1Words line) (argsOf (gcodeG1Parse atof line))

/-- What the loop reads of the text behind the name. -/
def optWords (s : List UInt8) : List (List UInt8) := codeWords (ascii ' ') (ascii ';') (chomp s)

/-- The number of words before the comment. -/
def plainCount (s : List UInt8) : ℕ := (plainWords (ascii ' ') (ascii ';') (chomp s)).length

/-- The words behind a comment sign inside a word, up to one that starts with the sign, change nothing for a letter:
it is given before the comment too, and has the value that the words there give it.  Without a value behind the
comment, the last word of the letter has one, or no word before it has one but zero. -/
def StrayOk (atof : List UInt8 → ℚ) (s : List UInt8) (c : UInt8) : Prop :=
  let read := valuesOf c ((optWords s).take (plainCount s))
  let stray := valuesOf c ((optWords s).drop (plainCount s))
  (stray ≠ [] → read ≠ []) ∧
    if stray.filter (· ≠ []) ≠ [] then atof (lastOf (stray.filter (· ≠ []))) = atof (lastOf read)
    else lastOf read ≠ [] ∨ atof (lastOf (read.filter (· ≠ []))) = 0

instance (atof : List UInt8 → ℚ) (s : List UInt8) (c : UInt8) : Decidable (StrayOk atof s c) :=
  inferInstanceAs (Decidable ((_ → _) ∧ ite _ _ _))

/-- The buffers have room, and no word goes astray. -/
def G1Fits (atof : List UInt8 → ℚ) (line : List UInt8) : Prop :=
  (1 < line.length → line.head? = some (ascii 'G') → (line.takeWhile (· ≠ ascii ' ')).length < cmdBuffLen) ∧
    ∀ s, line = text "G1 " ++ s → (∀ opt ∈ optWords s, opt.length < optLen) ∧ ∀ o, StrayOk atof s (letter o)

end Spec

/-! ## The loop -/

section Loop

variable {atof : List UInt8 → ℚ}

/-- One step of a recursion on its fuel. -/
theorem brecOn_succ {σ : Type*} (F : (n : ℕ) → Nat.below (motive := fun _ => σ) n → σ) (n : ℕ) :
    ∃ f : Nat.below (motive := fun _ => σ) (Nat.succ n),
      Nat.brecOn (motive := fun _ => σ) (Nat.succ n) F = F (Nat.succ n) f ∧
        f.1 = Nat.brecOn (motive := fun _ => σ) n F := ⟨_, rfl, rfl⟩

-- `unfold parseOpts` would compute an `S16` from a length that is not known, which never ends
set_option linter.auxLemma false in
theorem parseOpts_nil (fuel : ℕ) (arg : ArgG1AndG0) : parseOpts atof fuel [] arg = .ok arg := by
  cases fuel with
  | zero => rfl
  | succ fuel =>
    rw [← Nat.succ_eq_add_one]
    delta parseOpts
    obtain ⟨f, hf, -⟩ := brecOn_succ (parseOpts._f atof) fuel
    rw [hf]
    clear hf
    delta parseOpts._f
    dsimp only
    rw [if_pos rfl]

variable (atof) in
set_option linter.auxLemma false in
theorem parseOpts_pass (fuel : ℕ) {buff : List UInt8} (arg : ArgG1AndG0) (hbuff : buff ≠ []) :
    (getCmdOpt buff = none → parseOpts atof (fuel + 1) buff arg = .ok arg) ∧
      ∀ opt, getCmdOpt buff = some opt → parseOpts atof (fuel + 1) buff arg =
        if opt.length < optLen then parseOpts atof fuel (buff.drop (opt.length + 1)) (arg.set atof opt)
        else .error .overflow := by
  rw [← Nat.succ_eq_add_one]
  delta parseOpts
  obtain ⟨f, hf, hrec⟩ := brecOn_succ (parseOpts._f atof) fuel
  rw [hf, ← hrec]
  clear hf hrec
  delta parseOpts._f
  dsimp only
  refine ⟨fun hopt => ?_, fun opt hopt => ?_⟩
  · rw [if_neg hbuff, hopt]
  · rw [if_neg hbuff, hopt]
    dsimp only
    rw [copied]
    split_ifs
    · rfl
    · rfl

/-- The loop ends: every pass takes a byte. -/
theorem optsEnd_parseOpts (fuel : ℕ) :
    ∀ (buff : List UInt8) (arg : ArgG1AndG0), buff.length ≤ fuel →
      OptsEnd atof buff arg (parseOpts atof fuel buff arg) := by
  induction fuel with
  | zero =>
    intro buff arg hlen
    rw [List.eq_nil_of_length_eq_zero (Nat.le_zero.mp hlen), parseOpts_nil]
    exact .done arg
  | succ fuel ih =>
    intro buff arg hlen
    by_cases hbuff : buff = []
    · rw [hbuff, parseOpts_nil]
      exact .done arg
    cases hopt : getCmdOpt buff with
    | none =>
      rw [(parseOpts_pass atof fuel arg hbuff).1 hopt]
      exact .stop hbuff hopt
    | some opt =>
      rw [(parseOpts_pass atof fuel arg hbuff).2 opt hopt]
      split_ifs with hfit
      · refine .next hbuff hopt hfit (ih _ _ ?_)
        have hpos := List.length_pos_iff.mpr hbuff
        rw [List.length_drop]
        omega
      · exact .overflow hbuff hopt hfit

/-- The options one after another, up to one that starts a comment. -/
def foldOpts (atof : List UInt8 → ℚ) (arg : ArgG1AndG0) : List (List UInt8) → Except ParseError ArgG1AndG0
  | [] => .ok arg
  | opt :: opts =>
    if opt.head? = some (ascii ';') then .ok arg
    else if opt.length < optLen then foldOpts atof (arg.set atof opt) opts
    else .error .overflow

theorem s16_eq {n : ℕ} (h : n < 32768) : s16 n = n := by
  unfold s16
  rw [Int.bmod_eq_of_le] <;> omega

theorem chomp_append_cons (s t : List UInt8) {c : UInt8} (hc : c ≠ ascii '\n') :
    chomp (s ++ c :: t) = s ++ c :: chomp t := by
  unfold chomp
  cases t with
  | nil => simp [hc]
  | cons d t =>
    have hlast : (s ++ c :: d :: t).getLast? = (d :: t).getLast? := by
      rw [List.getLast?_append_of_ne_nil _ (List.cons_ne_nil _ _), List.getLast?_cons_cons]
    rw [hlast]
    split_ifs
    · rw [List.dropLast_append_of_ne_nil (List.cons_ne_nil _ _)]
      rfl
    · rfl

theorem chomp_cons_cons (c d : UInt8) (s : List UInt8) : chomp (c :: d :: s) = c :: chomp (d :: s) := by
  unfold chomp
  rw [List.getLast?_cons_cons]
  split_ifs <;> rfl

theorem head_chomp {s : List UInt8} {c : UInt8} (hc : c ≠ ascii '\n') :
    (chomp s).head? = some c ↔ s.head? = some c := by
  cases s with
  | nil => rfl
  | cons d s =>
    cases s with
    | nil =>
      unfold chomp
      split_ifs with hd
      · rw [List.getLast?_singleton, Option.some.injEq] at hd
        simp [hd, hc.symm]
      · rfl
    | cons e s => rw [chomp_cons_cons, List.head?_cons, List.head?_cons]

theorem chomp_isPrefix (s : List UInt8) : chomp s <+: s := by
  unfold chomp
  split_ifs
  · exact List.dropLast_prefix s
  · exact List.prefix_rfl

theorem length_le_chomp (s : List UInt8) : s.length ≤ (chomp s).length + 1 := by
  unfold chomp
  split_ifs
  · rw [List.length_dropLast]
    omega
  · omega

theorem strchr_sep {s : List UInt8} {c : UInt8} (hs : c ∉ s) (t : List UInt8) :
    strchr (s ++ c :: t) c = some s.length := by
  have hnone : s.findIdx? (· = c) = none := by
    refine List.findIdx?_eq_none_iff.mpr fun b hb => decide_eq_false ?_
    rintro rfl
    exact hs hb
  unfold strchr
  rw [List.findIdx?_append, hnone, List.findIdx?_cons, if_pos (decide_eq_true rfl)]
  simp

theorem getCmdOpt_sep {opt rest : List UInt8} (hopt : ascii ' ' ∉ opt)
    (hlen : (opt ++ ascii ' ' :: rest).length < 32768) :
    getCmdOpt (opt ++ ascii ' ' :: rest) = if opt.head? = some (ascii ';') then none else some opt := by
  have hpos : ¬s16 (opt ++ ascii ' ' :: rest).length ≤ 0 := by
    rw [s16_eq hlen, List.length_append, List.length_cons]
    omega
  have hhead : (opt ++ ascii ' ' :: rest).head? = some (ascii ';') ↔ opt.head? = some (ascii ';') := by
    cases opt with
    | nil =>
      rw [List.nil_append, List.head?_cons]
      exact iff_of_false (by decide) (by decide)
    | cons c opt => rfl
  unfold getCmdOpt
  simp only [hpos, hhead, strchr_sep hopt rest, false_or, List.take_left]

theorem getCmdOpt_end {buff : List UInt8} (hbuff : ascii ' ' ∉ buff) (hnil : buff ≠ [])
    (hlen : buff.length < 32768) :
    getCmdOpt buff = if (chomp buff).head? = some (ascii ';') then none else some (chomp buff) := by
  have hlength := List.length_pos_iff.mpr hnil
  have hpos : ¬s16 buff.length ≤ 0 := by
    rw [s16_eq hlen]
    omega
  have hstrchr : strchr buff (ascii ' ') = none := by
    refine Option.not_isSome_iff_eq_none.mp fun h => hbuff ?_
    exact strchr_isSome.mp h
  unfold getCmdOpt
  simp only [hpos, head_chomp (s := buff) (c := ascii ';') (by decide), hstrchr, false_or]

/-- **The loop** reads the words of the text at the separator. -/
theorem parseOpts_eq (fuel : ℕ) :
    ∀ (buff : List UInt8) (arg : ArgG1AndG0), buff.length ≤ fuel → buff.length < 32768 →
      parseOpts atof fuel buff arg = foldOpts atof arg ((chomp buff).splitOn (ascii ' ')) := by
  induction fuel with
  | zero =>
    intro buff arg hfuel _
    rw [List.eq_nil_of_length_eq_zero (Nat.le_zero.mp hfuel), parseOpts_nil]
    rfl
  | succ fuel ih =>
    intro buff arg hfuel hlen
    by_cases hnil : buff = []
    · rw [hnil, parseOpts_nil]
      rfl
    obtain ⟨hnone, hsome⟩ := parseOpts_pass atof fuel arg hnil
    by_cases hmem : ascii ' ' ∈ buff
    · obtain ⟨opt, rest, rfl, hopt⟩ := List.eq_append_cons_of_mem hmem
      have hrest : (opt ++ ascii ' ' :: rest).drop (opt.length + 1) = rest := by simp
      have hget := getCmdOpt_sep hopt hlen
      rw [List.length_append, List.length_cons] at hfuel hlen
      have hstep := ih rest (arg.set atof opt) (by omega) (by omega)
      rw [chomp_append_cons _ _ (by decide), List.splitOn_append_cons_self_of_not_mem hopt, foldOpts]
      split_ifs at hget ⊢ with hstop hfit
      · exact hnone hget
      · rw [hsome opt hget, if_pos hfit, hrest, hstep]
      · rw [hsome opt hget, if_neg hfit]
    · have hlength := length_le_chomp buff
      have hrest : buff.drop ((chomp buff).length + 1) = [] := List.drop_of_length_le (by omega)
      have hsplit : (chomp buff).splitOn (ascii ' ') = [chomp buff] :=
        List.splitOn_eq_singleton fun h => hmem ((chomp_isPrefix buff).subset h)
      have hget := getCmdOpt_end hmem hnil hlen
      rw [hsplit, foldOpts]
      split_ifs at hget ⊢ with hstop hfit
      · exact hnone hget
      · rw [hsome _ hget, if_pos hfit, hrest, parseOpts_nil]
        rfl
      · rw [hsome _ hget, if_neg hfit]

/-- The options in front of a comment are stored one after another, if they all fit. -/
theorem foldOpts_of_fit {opts : List (List UInt8)} (arg : ArgG1AndG0)
    (h : ∀ opt ∈ opts.takeWhile (·.head? ≠ some (ascii ';')), opt.length < optLen) :
    foldOpts atof arg opts =
      .ok ((opts.takeWhile (·.head? ≠ some (ascii ';'))).foldl (ArgG1AndG0.set atof) arg) := by
  induction opts generalizing arg with
  | nil => rfl
  | cons opt opts ih =>
    rw [foldOpts]
    split_ifs with hstop hfit
    · rw [takeWhile_stop hstop]
      rfl
    · rw [takeWhile_code hstop] at h ⊢
      exact ih _ fun opt hopt => h opt (List.mem_cons_of_mem _ hopt)
    · refine absurd (h opt ?_) hfit
      rw [takeWhile_code hstop]
      exact List.mem_cons_self

theorem foldOpts_overflow {opts : List (List UInt8)} (arg : ArgG1AndG0)
    (h : ¬∀ opt ∈ opts.takeWhile (·.head? ≠ some (ascii ';')), opt.length < optLen) :
    foldOpts atof arg opts = .error .overflow := by
  induction opts generalizing arg with
  | nil => exact absurd (fun opt hopt => absurd hopt List.not_mem_nil) h
  | cons opt opts ih =>
    rw [foldOpts]
    split_ifs with hstop hfit
    · rw [takeWhile_stop hstop] at h
      exact absurd (fun opt hopt => absurd hopt List.not_mem_nil) h
    · rw [takeWhile_code hstop, List.forall_mem_cons] at h
      exact ih _ fun hall => h ⟨hfit, hall⟩
    · rfl

end Loop

/-! ## The arguments -/

section Args

variable {atof : List UInt8 → ℚ}

theorem optAxis_eq_some {c : UInt8} {a : Axis} : optAxis c = some a ↔ c = letter (some a) := by
  constructor
  · intro h
    unfold optAxis at h
    split_ifs at h with hE hX hY hZ <;> cases h
    · exact hE
    · exact hX
    · exact hY
    · exact hZ
  · rintro rfl
    cases a <;> decide

theorem letter_injective : Function.Injective letter := by
  rintro (_ | _ | _) (_ | _ | _) h
  all_goals first
    | rfl
    | exact absurd h (by decide)

theorem given_set (arg : ArgG1AndG0) (opt : List UInt8) (o : Option Axis) :
    (arg.set atof opt).given o = true ↔ arg.given o = true ∨ opt.head? = some (letter o) := by
  cases opt with
  | nil => exact (or_iff_left nofun).symm
  | cons c value =>
    rw [List.head?_cons, Option.some.injEq, ArgG1AndG0.set]
    cases haxis : optAxis c with
    | some a =>
      rw [optAxis_eq_some.mp haxis, letter_injective.eq_iff]
      cases o with
      | none => simp [ArgG1AndG0.given]
      | some b =>
        by_cases hb : b = a
        · simp [ArgG1AndG0.given, hb]
        · simp [ArgG1AndG0.given, hb, Ne.symm hb]
    | none =>
      have hother (a : Axis) : c ≠ letter (some a) := by
        intro h
        rw [optAxis_eq_some.mpr h] at haxis
        cases haxis
      dsimp only
      cases o with
      | none => split_ifs with hF <;> simp [ArgG1AndG0.given, letter, hF]
      | some b => split_ifs with hF <;> simp [ArgG1AndG0.given, hother b]

/-- An option with a value stores it for its letter. -/
theorem value_set (arg : ArgG1AndG0) (opt : List UInt8) (o : Option Axis) :
    (arg.set atof opt).value o =
      if opt.head? = some (letter o) ∧ opt.tail ≠ [] then atof opt.tail else arg.value o := by
  cases opt with
  | nil => exact (if_neg fun h => nomatch h.1).symm
  | cons c value =>
    simp only [List.head?_cons, Option.some.injEq, List.tail_cons, ArgG1AndG0.set]
    cases haxis : optAxis c with
    | some a =>
      simp only [optAxis_eq_some.mp haxis, letter_injective.eq_iff]
      cases o with
      | none => simp [ArgG1AndG0.value]
      | some b =>
        by_cases hb : b = a
        · by_cases hvalue : value = [] <;> simp [ArgG1AndG0.value, hb, hvalue]
        · by_cases hvalue : value = [] <;> simp [ArgG1AndG0.value, hb, Ne.symm hb, hvalue]
    | none =>
      have hother (a : Axis) : c ≠ letter (some a) := by
        intro h
        rw [optAxis_eq_some.mpr h] at haxis
        cases haxis
      dsimp only
      cases o with
      | none => by_cases hF : c = ascii 'F' <;> by_cases hvalue : value = [] <;>
          simp [ArgG1AndG0.value, letter, hF, hvalue]
      | some b =>
        have hno : ¬(c = letter (some b) ∧ value ≠ []) := fun h => hother b h.1
        rw [if_neg hno]
        split_ifs <;> rfl

theorem given_foldl (opts : List (List UInt8)) (o : Option Axis) :
    (opts.foldl (ArgG1AndG0.set atof) .zero).given o = true ↔ ∃ word ∈ opts, word.head? = some (letter o) := by
  induction opts using List.reverseRecOn with
  | nil => cases o <;> simp [ArgG1AndG0.given, ArgG1AndG0.zero]
  | append_singleton opts opt ih =>
    rw [List.foldl_concat, given_set, ih]
    simp [or_and_right, exists_or]

/-- The value of a letter is that of the last option which has one. -/
theorem value_foldl (hnil : atof [] = 0) (opts : List (List UInt8)) (o : Option Axis) :
    (opts.foldl (ArgG1AndG0.set atof) .zero).value o =
      atof (lastOf ((valuesOf (letter o) opts).filter (· ≠ []))) := by
  induction opts using List.reverseRecOn with
  | nil =>
    have hzero : atof (lastOf ((valuesOf (letter o) []).filter (· ≠ []))) = 0 := hnil
    rw [hzero]
    cases o <;> rfl
  | append_singleton opts opt ih =>
    rw [List.foldl_concat, value_set, ih, valuesOf_append, valuesOf_singleton, List.filter_append]
    by_cases hhead : opt.head? = some (letter o)
    · by_cases hvalue : opt.tail = []
      · simp [hhead, hvalue]
      · simp [hhead, hvalue]
    · simp [hhead]

/-- The words of a letter, as the loop reads them up to the comment, have the values of those before it. -/
theorem valuesOf_read (hcomment : ∀ s t, atof (s ++ ascii ';' :: t) = atof s) (s : List UInt8) {c : UInt8}
    (hc : c ≠ ascii ';') :
    (valuesOf c ((optWords s).take (plainCount s)) ≠ [] ↔
        valuesOf c (plainWords (ascii ' ') (ascii ';') (chomp s)) ≠ []) ∧
      atof (lastOf (valuesOf c ((optWords s).take (plainCount s)))) =
        atof (lastOf (valuesOf c (plainWords (ascii ' ') (ascii ';') (chomp s)))) := by
  obtain ⟨words, last, tail, hplain, htail, hread⟩ :=
    take_codeWords (show ascii ' ' ≠ ascii ';' by decide) (chomp s)
  have hvalue (value : List UInt8) : atof (value ++ tail) = atof value := by
    rcases htail with rfl | htail
    · rw [List.append_nil]
    · obtain ⟨t, rfl⟩ := List.head?_eq_some_iff.mp htail
      exact hcomment value t
  unfold optWords plainCount
  rw [hplain] at hread ⊢
  rw [valuesOf_append]
  rcases hread with hread | ⟨hlast, hread⟩
  · rw [hread, valuesOf_append]
    rcases valuesOf_append_stop hc htail last with ⟨hglued, hplain⟩ | ⟨value, hglued, hplain⟩
    · rw [hglued, hplain]
      exact ⟨Iff.rfl, rfl⟩
    · rw [hglued, hplain, lastOf_concat, lastOf_concat]
      exact ⟨by simp, hvalue value⟩
  · have hnone : valuesOf c [last] = [] := by
      rw [valuesOf_singleton, hlast]
      rfl
    rw [hread, hnone, List.append_nil]
    exact ⟨Iff.rfl, rfl⟩

/-- The values of a letter in the words that are read up to the comment, and behind it. -/
theorem stray_iff (hnil : atof [] = 0) {read stray plain : List (List UInt8)} (hread : read ≠ [] ↔ plain ≠ [])
    (hlast : atof (lastOf read) = atof (lastOf plain)) :
    ((read ++ stray ≠ [] ↔ plain ≠ []) ∧ ∀ value, plain.getLast? = some value →
        atof (lastOf (read.filter (· ≠ []) ++ stray.filter (· ≠ []))) = atof value) ↔
      (stray ≠ [] → read ≠ []) ∧
        if stray.filter (· ≠ []) ≠ [] then atof (lastOf (stray.filter (· ≠ []))) = atof (lastOf read)
        else lastOf read ≠ [] ∨ atof (lastOf (read.filter (· ≠ []))) = 0 := by
  have hgiven : (read ++ stray ≠ [] ↔ plain ≠ []) ↔ (stray ≠ [] → read ≠ []) := by
    rw [← hread, ne_eq, List.append_eq_nil_iff]
    tauto
  rw [hgiven]
  refine and_congr_right fun hstray => ?_
  by_cases hplain : plain = []
  · -- the letter is not given
    have hnone : read = [] := not_not.mp fun h => hread.mp h hplain
    have hnostray : stray = [] := not_not.mp fun h => hstray h hnone
    subst hplain hnone hnostray
    refine iff_of_true (fun value h => nomatch h) ?_
    rw [List.filter_nil, if_neg (not_not.mpr rfl)]
    exact Or.inr hnil
  · simp only [getLast?_eq_lastOf hplain, Option.some.injEq, forall_eq', ← hlast]
    split_ifs with hbehind
    · rw [lastOf_append hbehind]
    · rw [not_not.mp hbehind, List.append_nil]
      by_cases hbare : lastOf read = []
      · rw [or_iff_right (not_not.mpr hbare), hbare, hnil]
      · rw [lastOf_filter hbare]
        exact iff_of_true rfl (Or.inl hbare)

/-- The options that are read follow the words exactly if none goes astray. -/
theorem follows_iff (hcomment : ∀ s t, atof (s ++ ascii ';' :: t) = atof s) (hnil : atof [] = 0) (s : List UInt8) :
    Follows atof (plainWords (ascii ' ') (ascii ';') (chomp s)) ((optWords s).foldl (ArgG1AndG0.set atof) .zero) ↔
      ∀ o, StrayOk atof s (letter o) := by
  refine forall_congr' fun o => ?_
  have hletter : letter o ≠ ascii ';' := by
    rcases o with _ | _ | _ <;> decide
  obtain ⟨hread, hlast⟩ := valuesOf_read hcomment s hletter
  have hparts : valuesOf (letter o) (optWords s) =
      valuesOf (letter o) ((optWords s).take (plainCount s)) ++
        valuesOf (letter o) ((optWords s).drop (plainCount s)) := by
    rw [← valuesOf_append, List.take_append_drop]
  rw [given_foldl, value_foldl hnil, ← valuesOf_ne_nil, ← valuesOf_ne_nil, hparts, List.filter_append]
  exact stray_iff hnil hread hlast

end Args

/-! ## The parser -/

section Parser

variable {atof : List UInt8 → ℚ}

/-- What stands before the first such byte. -/
theorem takeWhile_strchr (s : List UInt8) (c : UInt8) :
    s.takeWhile (· ≠ c) = match strchr s c with
      | none => s
      | some i => s.take i := by
  induction s with
  | nil => rfl
  | cons d s ih =>
    by_cases hd : d = c
    · have hfirst : strchr (d :: s) c = some 0 := by
        unfold strchr
        rw [List.findIdx?_cons, if_pos (decide_eq_true hd)]
      rw [hfirst]
      exact List.takeWhile_cons_of_neg fun h => (of_decide_eq_true h : _ ≠ _) hd
    · have hkept : (d :: s).takeWhile (· ≠ c) = d :: s.takeWhile (· ≠ c) :=
        List.takeWhile_cons_of_pos (decide_eq_true hd)
      rw [hkept, ih, strchr_cons_of_ne hd]
      cases strchr s c with
      | none => rfl
      | some i => rfl

theorem named_eq (s : List UInt8) : text "G1 " ++ s = [ascii 'G', ascii '1'] ++ ascii ' ' :: s := by
  have htext : text "G1 " = [ascii 'G', ascii '1', ascii ' '] := by decide
  rw [htext]
  rfl

theorem name_length (s : List UInt8) : ((text "G1 " ++ s).takeWhile (· ≠ ascii ' ')).length < cmdBuffLen := by
  have hpre : (text "G1 " ++ s).takeWhile (· ≠ ascii ' ') = [ascii 'G', ascii '1'] := by
    rw [named_eq]
    rfl
  rw [hpre]
  decide

theorem getGcodeCmd_pass {line : List UInt8} (hlong : 1 < line.length) (hlen : line.length < 32768)
    (hhead : line.head? = some (ascii 'G')) : ¬(s16 line.length ≤ 1 ∨ line.head? = some (ascii ';')) := by
  rw [s16_eq hlen, hhead]
  rintro (h | h)
  · omega
  · exact absurd h (by decide)

/-- The name of the command, when the copy of it has room. -/
theorem getGcodeCmd_eq {line : List UInt8} (hpass : ¬(s16 line.length ≤ 1 ∨ line.head? = some (ascii ';'))) :
    getGcodeCmd line =
      if (line.takeWhile (· ≠ ascii ' ')).length < cmdBuffLen then
        .ok (match strchr line (ascii ' ') with
          | none => chomp line
          | some count => m43 line (line.take count) count)
      else .error .overflow := by
  unfold getGcodeCmd
  rw [if_neg hpass, takeWhile_strchr]
  cases strchr line (ascii ' ') with
  | none =>
    dsimp only
    unfold copied
    split_ifs <;> rfl
  | some count =>
    dsimp only
    unfold copied
    split_ifs <;> rfl

theorem parse_named {s : List UInt8} (hlen : (text "G1 " ++ s).length < 32768) :
    gcodeG1Parse atof (text "G1 " ++ s) = foldOpts atof .zero ((chomp s).splitOn (ascii ' ')) := by
  have hhead : (text "G1 " ++ s).head? = some (ascii 'G') := by
    rw [named_eq]
    rfl
  have hlength : (text "G1 " ++ s).length = s.length + 3 := by
    rw [named_eq, List.length_append, List.length_cons]
    exact Nat.add_comm 2 _
  have hcmd : getGcodeCmd (text "G1 " ++ s) = .ok (text "G1") := by
    have hsep := strchr_sep (s := [ascii 'G', ascii '1']) (c := ascii ' ') (by decide) s
    rw [getGcodeCmd_eq (getGcodeCmd_pass (by omega) hlen hhead), if_pos (name_length s), named_eq, hsep]
    dsimp only
    rw [List.take_left, m43_named _ (by decide)]
    rfl
  have hdrop : (text "G1 " ++ s).drop 3 = s := by
    rw [named_eq]
    rfl
  unfold gcodeG1Parse moveParse
  rw [if_neg (not_or.mpr ⟨by omega, not_not.mpr hhead⟩), hcmd]
  dsimp only
  rw [if_pos rfl]
  have hname : (text "G1").length + 1 = 3 := by decide
  rw [hname, hdrop, parseOpts_eq _ _ _ (by omega) (by omega)]

theorem g1Words_named (s : List UInt8) :
    g1Words (text "G1 " ++ s) = plainWords (ascii ' ') (ascii ';') (chomp s) := by
  have hchomp := chomp_append_cons [ascii 'G', ascii '1'] s (c := ascii ' ') (by decide)
  have htake : ([ascii 'G', ascii '1'] ++ ascii ' ' :: chomp s).takeWhile (· ≠ ascii ';') =
      [ascii 'G', ascii '1'] ++ ascii ' ' :: (chomp s).takeWhile (· ≠ ascii ';') := rfl
  unfold g1Words
  rw [named_eq, hchomp, plainWords, htake, List.splitOn_append_cons_self_of_not_mem (by decide)]
  dsimp only
  rw [if_pos (by decide)]
  rfl

variable (atof) in
/-- A line that does not start with the name and a separator has no options, and gives none. -/
theorem parse_other {line : List UInt8} (hlen : line.length < 32768) (hline : ∀ s, line ≠ text "G1 " ++ s) :
    argsOf (gcodeG1Parse atof line) = .zero ∧ (gcodeG1Parse atof line = .error .overflow ↔
      1 < line.length ∧ line.head? = some (ascii 'G') ∧
        ¬(line.takeWhile (· ≠ ascii ' ')).length < cmdBuffLen) := by
  unfold gcodeG1Parse moveParse
  by_cases hpass : line.length ≤ 1 ∨ line.head? ≠ some (ascii 'G')
  · rw [if_pos hpass]
    refine ⟨rfl, iff_of_false nofun fun h => ?_⟩
    rcases hpass with hshort | hhead
    · exact absurd h.1 (Nat.not_lt.mpr hshort)
    · exact hhead h.2.1
  rw [if_neg hpass]
  obtain ⟨hshort, hhead⟩ := not_or.mp hpass
  have hlong := Nat.lt_of_not_le hshort
  have hG := not_not.mp hhead
  rw [getGcodeCmd_eq (getGcodeCmd_pass hlong hlen hG)]
  by_cases hname : (line.takeWhile (· ≠ ascii ' ')).length < cmdBuffLen
  · rw [if_pos hname]
    dsimp only
    have hover : ¬(1 < line.length ∧ line.head? = some (ascii 'G') ∧
        ¬(line.takeWhile (· ≠ ascii ' ')).length < cmdBuffLen) := fun h => h.2.2 hname
    split_ifs with hcmd
    · -- the whole line is the name: nothing is left for the loop
      have hrest : line.drop ((text "G1").length + 1) = [] := by
        by_cases hmem : ascii ' ' ∈ line
        · obtain ⟨name, rest, rfl, hno⟩ := List.eq_append_cons_of_mem hmem
          rw [strchr_sep hno] at hcmd
          dsimp only at hcmd
          rw [List.take_left] at hcmd
          unfold m43 at hcmd
          split_ifs at hcmd
          · exact absurd hcmd (by decide)
          · refine absurd ?_ (hline rest)
            rw [hcmd, named_eq]
            rfl
        · have hstrchr : strchr line (ascii ' ') = none :=
            Option.not_isSome_iff_eq_none.mp fun h => hmem (strchr_isSome.mp h)
          rw [hstrchr] at hcmd
          dsimp only at hcmd
          have hlength := length_le_chomp line
          rw [hcmd] at hlength
          exact List.drop_of_length_le hlength
      rw [hrest, parseOpts_nil]
      exact ⟨rfl, iff_of_false nofun hover⟩
    · exact ⟨rfl, iff_of_false nofun hover⟩
  · rw [if_neg hname]
    exact ⟨rfl, iff_of_true rfl ⟨hlong, hG, hname⟩⟩

theorem g1Words_other {line : List UInt8} (hline : ∀ s, line ≠ text "G1 " ++ s) : g1Words line = [] := by
  unfold g1Words
  by_cases hmem : ascii ' ' ∈ (chomp line).takeWhile (· ≠ ascii ';')
  · obtain ⟨name, rest, hname, hno⟩ := List.eq_append_cons_of_mem hmem
    rw [plainWords, hname, List.splitOn_append_cons_self_of_not_mem hno]
    dsimp only
    rw [if_neg]
    rintro rfl
    have hpre : text "G1" ++ ascii ' ' :: rest <+: line := by
      rw [← hname]
      exact (List.takeWhile_prefix _).trans (chomp_isPrefix line)
    obtain ⟨t, ht⟩ := hpre
    refine hline (rest ++ t) ?_
    rw [← ht, named_eq, List.append_assoc]
    rfl
  · rw [plainWords, List.splitOn_eq_singleton hmem]
    dsimp only
    split_ifs <;> rfl

/-- **The parser of `G1`** reads a line, in its buffers, exactly if it fits and no word behind a comment goes astray.
What follows a semicolon is no part of a number, and no text has the value zero. -/
theorem g1_parse_iff (atof : List UInt8 → ℚ) (hcomment : ∀ s t, atof (s ++ ascii ';' :: t) = atof s)
    (hnil : atof [] = 0) (line : CmdLine) : G1Reads atof line.bytes ↔ G1Fits atof line.bytes := by
  have hends : OptsEnd atof (line.bytes.drop 3) .zero (parseOpts atof line.bytes.length (line.bytes.drop 3) .zero) :=
    optsEnd_parseOpts _ _ _ (by rw [List.length_drop]; exact Nat.sub_le _ _)
  unfold G1Reads G1Fits
  rw [and_iff_right hends]
  by_cases hline : ∃ s, line.bytes = text "G1 " ++ s
  · obtain ⟨s, hs⟩ := hline
    have hlen := line.short
    rw [hs] at hlen
    have hname : 1 < (text "G1 " ++ s).length → (text "G1 " ++ s).head? = some (ascii 'G') →
        ((text "G1 " ++ s).takeWhile (· ≠ ascii ' ')).length < cmdBuffLen := fun _ _ => name_length s
    rw [hs, and_iff_right hname]
    simp only [List.append_cancel_left_eq, forall_eq']
    rw [parse_named hlen, g1Words_named]
    by_cases hfit : ∀ opt ∈ optWords s, opt.length < optLen
    · rw [foldOpts_of_fit _ hfit, and_iff_right hfit, ← follows_iff hcomment hnil]
      exact and_iff_right nofun
    · rw [foldOpts_overflow _ hfit]
      exact iff_of_false (fun h => h.1 rfl) fun h => hfit h.1
  · have hother : ∀ s, line.bytes ≠ text "G1 " ++ s := fun s hs => hline ⟨s, hs⟩
    obtain ⟨hargs, hover⟩ := parse_other atof line.short hother
    have hnothing : Follows atof [] .zero := by
      intro o
      refine ⟨iff_of_false ?_ (by simp), fun value h => nomatch h⟩
      cases o <;> simp [ArgG1AndG0.given, ArgG1AndG0.zero]
    rw [hargs, g1Words_other hother, and_iff_left hnothing, ne_eq, hover,
      and_iff_left fun s hs => absurd hs (hother s)]
    simp only [not_and, not_not]

/-- `G1 X10 Y-5` fits, and is read. -/
theorem g1_parse_plain : G1Reads (fun s => (atoi s : ℚ)) (text "G1 X10 Y-5") := by
  refine (g1_parse_iff (fun s => (atoi s : ℚ)) (fun s t => congrArg _ (atoi_append_stop (by decide) s t)) rfl
    ⟨text "G1 X10 Y-5", by decide, by decide⟩).mpr ⟨fun _ _ => by decide, fun s hs => ?_⟩
  have hrest : s = text "X10 Y-5" := by
    have hnamed : text "G1 X10 Y-5" = text "G1 " ++ text "X10 Y-5" := by decide
    exact List.append_cancel_left (hs.symm.trans hnamed)
  rw [hrest]
  refine ⟨by decide, fun o => ?_⟩
  cases o with
  | none => decide +kernel
  | some a => cases a <;> decide +kernel

/-- Behind a sign inside a word the line is read on: `G1 X10;home Z5` gives Z. -/
theorem not_g1_parse :
    ¬ ∀ atof : List UInt8 → ℚ, (∀ s t, atof (s ++ ascii ';' :: t) = atof s) → atof [] = 0 →
      ∀ line : CmdLine, G1Reads atof line.bytes := by
  intro h
  have hline := h (fun s => (atoi s : ℚ)) (fun s t => congrArg _ (atoi_append_stop (by decide) s t)) rfl
    ⟨text "G1 X10;home Z5", by decide, by decide⟩
  have hgiven := (hline.2.2 (some .Z)).1.mp (by decide +kernel)
  exact absurd hgiven (by decide +kernel)

end Parser

end Cxsw.Gcode
