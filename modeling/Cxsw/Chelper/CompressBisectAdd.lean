import Mathlib.Data.UInt
import Mathlib.Tactic.IntervalCases
import Mathlib.Tactic.Linarith
import Cxsw.Lib.Quadratic

/-!
# Cxsw.Chelper.CompressBisectAdd — a row of step times as one move (`klippy/chelper/stepcompress.c`)

A move is `interval`, `count` and `add`: so many steps, the first after `interval` ticks, every other one after `add`
more than the one before.  `compress_bisect_add` looks for the move that reaches furthest and hits every step within
its limits; `check_line` looks at each of its steps again, and stops the printer where one is outside.

The arithmetic of `int32_t` is checked: where it overflows, which is undefined in C, there is no result.

* `minmaxPoint`, `compressBisectAdd`, `checkLine`: the code.
* `Good`: a move within the limits.
* `extend_spec`, `Search.round_spec`: what the loops keep.
* `bisect_checked`: what the search finds passes the check.
-/

namespace Cxsw.StepCompress

open Quadratic (tri reach)

/-! ## The code -/

section Defs

/-- The same bits as an `int32_t`. -/
def int32 (v : UInt32) : ℤ := v.toBitVec.toInt

/-- The numbers of an `int32_t`. -/
def Int32s (xs : List ℤ) : Prop := ∀ x ∈ xs, -2 ^ 31 ≤ x ∧ x < 2 ^ 31

instance (xs : List ℤ) : Decidable (Int32s xs) := inferInstanceAs (Decidable (∀ x ∈ xs, _ ∧ _))

/-- A value that is computed by way of some others. -/
def checked {α : Type*} (xs : List ℤ) (r : α) : Option α := if Int32s xs then some r else none

/-- `idiv_up`. -/
def idivUp (n d : ℤ) : Option ℤ := if 0 ≤ n then checked [n + d, n + d - 1] ((n + d - 1).tdiv d) else some (n.tdiv d)

/-- `idiv_down`. -/
def idivDown (n d : ℤ) : Option ℤ := if 0 ≤ n then some (n.tdiv d) else checked [n - d, n - d + 1] ((n - d + 1).tdiv d)

structure Points where
  minp : UInt32
  maxp : UInt32
  deriving DecidableEq

/-- `minmax_point` for the step at place `i` of the queue. -/
def minmaxPoint (maxError lsc : UInt32) (queue : List UInt32) (i : ℕ) : Points :=
  let point := queue.getD i 0 - lsc
  let prevpoint := if 0 < i then queue.getD (i - 1) 0 - lsc else 0
  let half := (point - prevpoint) / 2
  let maxError := if half > maxError then maxError else half
  ⟨point - maxError, point⟩

structure StepMove where
  interval : UInt32
  count : UInt16
  add : Int16
  deriving DecidableEq

/-- `if (lo*k < bound - c) lo = idiv_up(bound - c, k)`. -/
def raiseMin (lo k bound c : ℤ) : Option ℤ :=
  if ¬ Int32s [lo * k, bound - c] then none
  else if lo * k < bound - c then idivUp (bound - c) k
  else some lo

/-- `if (hi*k > bound - c) hi = idiv_down(bound - c, k)`. -/
def lowerMax (hi k bound c : ℤ) : Option ℤ :=
  if ¬ Int32s [hi * k, bound - c] then none
  else if hi * k > bound - c then idivDown (bound - c) k
  else some hi

/-- Where the inner loop of `compress_bisect_add` ends: at the end of the queue, or at a point that is out of reach. -/
inductive Extended
  | covered (interval : ℤ) (count : ℕ)
  | stopped (interval : ℤ) (count : ℕ) (nextmininterval nextmaxinterval : ℤ)

/-- The inner loop of `compress_bisect_add` behind `count` steps; `num` is `qlast - queue_pos`. -/
def extend (points : ℕ → Points) (num : ℕ) (add : ℤ) : ℕ → ℕ → ℤ → ℤ → ℤ → Option Extended
  | 0, _, _, _, _ => none
  | fuel + 1, count, nextmininterval, nextmaxinterval, interval =>
    -- `nextcount` is `count + 1`
    if num ≤ count then some (.covered interval count)
    else if ¬ Int32s [(count + 1 : ℕ) * ((count + 1 : ℕ) - 1), add * tri (count + 1)] then none
    else
      match raiseMin nextmininterval (count + 1 : ℕ) (int32 (points count).minp) (add * tri (count + 1)),
        lowerMax nextmaxinterval (count + 1 : ℕ) (int32 (points count).maxp) (add * tri (count + 1)) with
      | some lo, some hi =>
        if lo > hi then some (.stopped interval count lo hi) else extend points num add fuel (count + 1) lo hi hi
      | _, _ => none

/-- The variables of `compress_bisect_add`. -/
structure Search where
  add : ℤ
  minadd : ℤ
  maxadd : ℤ
  outerMininterval : ℤ
  outerMaxinterval : ℤ
  bestinterval : ℤ
  bestcount : ℕ
  bestadd : ℤ
  bestreach : ℤ
  zerointerval : ℤ
  zerocount : ℕ

namespace Search

def start (point : Points) : Search where
  add := 0
  minadd := -0x8000
  maxadd := 0x7fff
  outerMininterval := int32 point.minp
  outerMaxinterval := int32 point.maxp
  bestinterval := 0
  bestcount := 1
  bestadd := 1
  bestreach := -2 ^ 31
  zerointerval := 0
  zerocount := 0

/-- Check if this is the best sequence found so far. -/
def better (s : Search) (interval reach : ℤ) : Prop :=
  reach > s.bestreach ∨ (reach = s.bestreach ∧ interval > s.bestinterval)

instance (s : Search) (interval reach : ℤ) : Decidable (s.better interval reach) := inferInstanceAs (Decidable (_ ∨ _))

def note (s : Search) (interval reach : ℤ) (count : ℕ) : Search :=
  let s := { s with bestinterval := interval, bestcount := count, bestadd := s.add, bestreach := reach }
  if s.add = 0 then { s with zerointerval := interval, zerocount := count } else s

/-- Check if a greater or lesser add could extend the sequence. -/
def turn (s : Search) (nextreach minp lo hi : ℤ) : Search :=
  if nextreach < minp then { s with minadd := s.add + 1, outerMaxinterval := hi }
  else { s with maxadd := s.add - 1, outerMininterval := lo }

/-- `errdelta`. -/
def errdelta (maxError : UInt32) (count : ℕ) : ℤ := int32 (maxError * 11 / UInt32.ofNat (count * count))

/-- The limits by the maximum valid deviation between two quadratic sequences. -/
def deviate (s : Search) (maxError : UInt32) (count : ℕ) : Option Search :=
  if 1 < count then
    checked [(count * count : ℕ), s.add - errdelta maxError count, s.add + errdelta maxError count]
      { s with
        minadd := max s.minadd (s.add - errdelta maxError count)
        maxadd := min s.maxadd (s.add + errdelta maxError count) }
  else some s

/-- See if next point would further limit the add range. -/
def limit (s : Search) (count : ℕ) (point : Points) : Option Search :=
  if ¬ Int32s [s.outerMaxinterval * (count + 1 : ℕ), s.outerMininterval * (count + 1 : ℕ)] then none
  else
    match raiseMin s.minadd (tri (count + 1)) (int32 point.minp) (s.outerMaxinterval * (count + 1 : ℕ)),
      lowerMax s.maxadd (tri (count + 1)) (int32 point.maxp) (s.outerMininterval * (count + 1 : ℕ)) with
    | some minadd, some maxadd => some { s with minadd := minadd, maxadd := maxadd }
    | _, _ => none

/-- What a round of the outer loop ends with: `return`, `break`, or the next `add`. -/
inductive Round
  | found (interval : ℤ) (count : ℕ) (add : ℤ)
  | stop (s : Search)
  | again (s : Search)

/-- The end of a round: the range of `add` gets smaller, or it is empty. -/
def narrow (s : Search) (maxError : UInt32) (interval : ℤ) (count : ℕ) (nextpoint : Points)
    (lo hi : ℤ) : Option Round :=
  match (s.turn (reach interval s.add (count + 1)) (int32 nextpoint.minp) lo hi).deviate maxError count with
  | none => none
  | some s =>
    match s.limit count nextpoint with
    | none => none
    | some s =>
      if s.minadd > s.maxadd then some (.stop s)
      else some (.again { s with add := s.maxadd - (s.maxadd - s.minadd).tdiv 4 })

/-- A round of the outer loop of `compress_bisect_add`. -/
def round (points : ℕ → Points) (num : ℕ) (maxError : UInt32) (s : Search) : Option Round :=
  match extend points num s.add (num + 1) 1 s.outerMininterval s.outerMaxinterval s.outerMaxinterval with
  | none => none
  | some (.covered interval count) => some (.found interval count s.add)
  | some (.stopped interval count lo hi) =>
    if ¬ Int32s [(count : ℤ) * (count - 1), s.add * tri count, interval * count, reach interval s.add count,
        interval * (count + 1 : ℕ), reach interval s.add (count + 1)] then none
    else
      let better := s.better interval (reach interval s.add count)
      let s := if better then s.note interval (reach interval s.add count) count else s
      if better ∧ 0x200 < count then some (.stop s) else s.narrow maxError interval count (points count) lo hi

/-- The end of `compress_bisect_add`: prefer `add=0` if it's similar to the best found sequence. -/
def result (s : Search) : ℤ × ℕ × ℤ :=
  if s.zerocount + s.zerocount / 16 ≥ s.bestcount then (s.zerointerval, s.zerocount, 0)
  else (s.bestinterval, s.bestcount, s.bestadd)

/-- The outer loop; every round takes something from the range of `add`. -/
def loop (points : ℕ → Points) (num : ℕ) (maxError : UInt32) : ℕ → Search → Option (ℤ × ℕ × ℤ)
  | 0, _ => none
  | fuel + 1, s =>
    match s.round points num maxError with
    | none => none
    | some (.found interval count add) => some (interval, count, add)
    | some (.stop s) => some s.result
    | some (.again s) => loop points num maxError fuel s

end Search

/-- `compress_bisect_add`. -/
def compressBisectAdd (maxError lsc : UInt32) (queue : List UInt32) : Option StepMove :=
  let points := minmaxPoint maxError lsc queue
  (Search.loop points (min queue.length 65535) maxError (2 ^ 16 + 1) (.start (points 0))).map fun r =>
    ⟨UInt32.ofInt r.1, UInt16.ofNat r.2.1, Int16.ofInt r.2.2⟩

/-- The loop of `check_line`. -/
def checkPoints (points : ℕ → Points) (add : Int16) : ℕ → ℕ → UInt32 → UInt32 → Bool
  | 0, _, _, _ => true
  | n + 1, i, interval, p =>
    let p := p + interval
    if p < (points i).minp ∨ p > (points i).maxp then false
    else if interval ≥ 0x80000000 then false
    else checkPoints points add n (i + 1) (interval + UInt32.ofInt add.toInt) p

/-- `check_line`: whether there is no error. -/
def checkLine (maxError lsc : UInt32) (queue : List UInt32) (move : StepMove) : Bool :=
  if move.count = 0 ∨ (move.interval = 0 ∧ move.add = 0 ∧ move.count > 1) ∨ move.interval ≥ 0x80000000 then false
  else checkPoints (minmaxPoint maxError lsc queue) move.add move.count.toNat 0 move.interval 0

end Defs

/-! ## Rounding -/

section Rounding

variable {n d r lo lo' hi hi' k bound c : ℤ}

theorem checked_eq_some {α : Type*} {xs : List ℤ} {x y : α} : checked xs x = some y ↔ Int32s xs ∧ x = y := by
  unfold checked
  split_ifs with h
  · simp [h]
  · simp [h]

theorem idivUp_spec (hd : 0 < d) (h : idivUp n d = some r) : n ≤ r * d ∧ (r - 1) * d < n := by
  unfold idivUp at h
  split_ifs at h with hn
  · obtain ⟨-, rfl⟩ := checked_eq_some.mp h
    rw [Int.tdiv_eq_ediv_of_nonneg (by omega)]
    have h1 := Int.mul_ediv_add_emod (n + d - 1) d
    have h2 := Int.emod_lt_of_pos (n + d - 1) hd
    have h3 := Int.emod_nonneg (n + d - 1) hd.ne'
    constructor <;> nlinarith
  · cases h
    -- a negative number is cut towards zero
    have hneg : n.tdiv d = -((-n) / d) := by
      rw [← Int.tdiv_eq_ediv_of_nonneg (by omega), Int.neg_tdiv, neg_neg]
    have h1 := Int.mul_ediv_add_emod (-n) d
    have h2 := Int.emod_lt_of_pos (-n) hd
    have h3 := Int.emod_nonneg (-n) hd.ne'
    rw [hneg]
    constructor <;> nlinarith

theorem idivDown_spec (hd : 0 < d) (h : idivDown n d = some r) : r * d ≤ n ∧ n < (r + 1) * d := by
  unfold idivDown at h
  split_ifs at h with hn
  · cases h
    rw [Int.tdiv_eq_ediv_of_nonneg hn]
    have h1 := Int.mul_ediv_add_emod n d
    have h2 := Int.emod_lt_of_pos n hd
    have h3 := Int.emod_nonneg n hd.ne'
    constructor <;> nlinarith
  · obtain ⟨-, rfl⟩ := checked_eq_some.mp h
    have hneg : (n - d + 1).tdiv d = -((-(n - d + 1)) / d) := by
      rw [← Int.tdiv_eq_ediv_of_nonneg (by omega), Int.neg_tdiv, neg_neg]
    have h1 := Int.mul_ediv_add_emod (-(n - d + 1)) d
    have h2 := Int.emod_lt_of_pos (-(n - d + 1)) hd
    have h3 := Int.emod_nonneg (-(n - d + 1)) hd.ne'
    rw [hneg]
    constructor <;> nlinarith

theorem raiseMin_spec (hk : 0 < k) (h : raiseMin lo k bound c = some lo') : lo ≤ lo' ∧ bound - c ≤ lo' * k := by
  unfold raiseMin at h
  split_ifs at h with hfit hlt
  · obtain ⟨h1, h2⟩ := idivUp_spec hk h
    exact ⟨by nlinarith, h1⟩
  · cases h
    exact ⟨le_rfl, not_lt.mp hlt⟩

theorem lowerMax_spec (hk : 0 < k) (h : lowerMax hi k bound c = some hi') : hi' ≤ hi ∧ hi' * k ≤ bound - c := by
  unfold lowerMax at h
  split_ifs at h with hfit hlt
  · obtain ⟨h1, h2⟩ := idivDown_spec hk h
    exact ⟨by nlinarith, h1⟩
  · cases h
    exact ⟨le_rfl, not_lt.mp hlt⟩

end Rounding

/-! ## Moves within the limits -/

section Search

/-- Every step of a move is within the limits of its point. -/
def Good (points : ℕ → Points) (interval add : ℤ) (count : ℕ) : Prop :=
  1 ≤ count ∧ ∀ k < count,
    int32 (points k).minp ≤ reach interval add (k + 1) ∧ reach interval add (k + 1) ≤ int32 (points k).maxp

/-- The limits of `num` points lie one behind the other. -/
structure Spaced (points : ℕ → Points) (num : ℕ) : Prop where
  nonempty : 1 ≤ num
  nonneg : 0 ≤ int32 (points 0).minp
  ordered : ∀ k < num, int32 (points k).minp ≤ int32 (points k).maxp
  apart : ∀ k, k + 1 < num → int32 (points k).maxp < int32 (points (k + 1)).minp

variable {points : ℕ → Points} {num : ℕ} {add lo hi interval : ℤ} {count fuel : ℕ} {maxError : UInt32}

/-- What the inner loop says of the move with which it ends, when it starts behind `start` steps. -/
def Extended.Fine (points : ℕ → Points) (num start : ℕ) (add lo hi : ℤ) : Extended → Prop
  | .covered interval count => count = num ∧ Good points interval add count
  | .stopped interval count lo' hi' =>
    start ≤ count ∧ count < num ∧ lo ≤ lo' ∧ hi' ≤ hi ∧ (count = start → interval = hi) ∧
      (lo ≤ hi → Good points interval add count) ∧ (hi < lo → count = start)

theorem good_one (hlo : int32 (points 0).minp ≤ interval) (hhi : interval ≤ int32 (points 0).maxp) :
    Good points interval add 1 := by
  refine ⟨le_rfl, fun k hk => ?_⟩
  rw [Nat.lt_one_iff.mp hk, Quadratic.reach_one]
  exact ⟨hlo, hhi⟩

theorem good_next (hgood : ∀ i, lo ≤ i → i ≤ hi → Good points i add count) {lo' hi' : ℤ} (hlo : lo ≤ lo')
    (hhi : hi' ≤ hi)
    (hminp : int32 (points count).minp - add * tri (count + 1) ≤ lo' * (count + 1 : ℕ))
    (hmaxp : hi' * (count + 1 : ℕ) ≤ int32 (points count).maxp - add * tri (count + 1)) :
    ∀ i, lo' ≤ i → i ≤ hi' → Good points i add (count + 1) := by
  intro i h1 h2
  obtain ⟨-, hall⟩ := hgood i (hlo.trans h1) (h2.trans hhi)
  refine ⟨Nat.succ_le_succ (Nat.zero_le _), fun k hk => ?_⟩
  rcases Nat.lt_succ_iff_lt_or_eq.mp hk with hk | rfl
  · exact hall k hk
  · have hpos : (0 : ℤ) ≤ (k + 1 : ℕ) := Int.natCast_nonneg _
    have h3 := mul_le_mul_of_nonneg_right h1 hpos
    have h4 := mul_le_mul_of_nonneg_right h2 hpos
    unfold reach
    constructor <;> linarith

/-- **The inner loop**: every interval of the range hits the points so far; it ends at a point that none hits. -/
theorem extend_spec (hcount : count < num ∨ (lo ≤ hi ∧ count ≤ num))
    (hgood : ∀ i, lo ≤ i → i ≤ hi → Good points i add count) {r : Extended}
    (h : extend points num add fuel count lo hi hi = some r) : r.Fine points num count add lo hi := by
  induction fuel generalizing count lo hi with
  | zero => cases h
  | succ fuel ih =>
    rw [extend] at h
    split_ifs at h with hend hfit
    · cases h
      have hle : lo ≤ hi ∧ count ≤ num := hcount.resolve_left (by omega)
      exact ⟨by omega, hgood hi hle.1 le_rfl⟩
    · have hlt : count < num := by omega
      split at h
      · next lo' hi' hmin hmax =>
        obtain ⟨hlo, hminp⟩ := raiseMin_spec (by omega) hmin
        obtain ⟨hhi, hmaxp⟩ := lowerMax_spec (by omega) hmax
        split_ifs at h with hcross
        · cases h
          exact ⟨le_rfl, hlt, hlo, hhi, fun _ => rfl, fun hle => hgood hi hle le_rfl, fun _ => rfl⟩
        · have hnext := good_next hgood hlo hhi hminp hmaxp
          have hfine := ih (Or.inr ⟨not_lt.mp hcross, hlt⟩) hnext h
          have hle : lo ≤ hi := hlo.trans ((not_lt.mp hcross).trans hhi)
          cases r with
          | covered interval n => exact hfine
          | stopped interval n lo'' hi'' =>
            obtain ⟨h1, h2, h3, h4, -, h5, -⟩ := hfine
            exact ⟨by omega, h2, hlo.trans h3, h4.trans hhi, fun heq => absurd heq (by omega),
              fun _ => h5 (not_lt.mp hcross), fun hgt => absurd hle (not_le.mpr hgt)⟩
      · cases h

theorem Spaced.maxp_lt (h : Spaced points num) {j k : ℕ} (hjk : j < k) (hk : k < num) :
    int32 (points j).maxp < int32 (points k).minp := by
  induction k with
  | zero => exact absurd hjk (Nat.not_lt_zero j)
  | succ k ih =>
    rcases Nat.lt_succ_iff_lt_or_eq.mp hjk with hlt | rfl
    · exact (ih hlt (by omega)).trans_le ((h.ordered k (by omega)).trans (h.apart k hk).le)
    · exact h.apart j hk

/-- A move that reaches further than the first step is behind its limits. -/
theorem Good.maxp_lt (h : Good points interval add count) (hs : Spaced points num) (h2 : 2 ≤ count) (hn : count ≤ num) :
    int32 (points 0).maxp < reach interval add count := by
  obtain ⟨k, rfl⟩ := Nat.exists_eq_add_of_le' (show 1 ≤ count by omega)
  exact (hs.maxp_lt (by omega) (by omega)).trans_le (h.2 k (Nat.lt_succ_self k)).1

/-- A move that was found: its steps are right, and its numbers fit. -/
def Found (points : ℕ → Points) (num : ℕ) (interval : ℤ) (count : ℕ) (add : ℤ) : Prop :=
  Good points interval add count ∧ count ≤ num ∧ -0x8000 ≤ add ∧ add ≤ 0x7fff

namespace Search

variable {s s' : Search}

/-- The best move so far, and the best one without a change of the interval. -/
structure Best (points : ℕ → Points) (num : ℕ) (s : Search) : Prop where
  best : Found points num s.bestinterval s.bestcount s.bestadd
  reach : int32 (points 0).maxp ≤ s.bestreach
  first : s.bestreach = int32 (points 0).maxp → s.bestinterval = int32 (points 0).maxp
  zero : Found points num s.zerointerval s.zerocount 0

/-- The ranges that are searched. -/
structure Ranges (points : ℕ → Points) (s : Search) : Prop where
  outerMin : int32 (points 0).minp ≤ s.outerMininterval
  outerMax : s.outerMaxinterval ≤ int32 (points 0).maxp
  minadd : -0x8000 ≤ s.minadd
  maxadd : s.maxadd ≤ 0x7fff
  add : s.minadd ≤ s.add ∧ s.add ≤ s.maxadd

/-- Before the first round there is no best move, but one to be found. -/
def Fresh (points : ℕ → Points) (s : Search) : Prop :=
  s.bestreach = -2 ^ 31 ∧ s.add = 0 ∧ s.outerMininterval ≤ s.outerMaxinterval ∧
    s.outerMaxinterval = int32 (points 0).maxp

theorem ranges_of_better (hranges : s.Ranges points) (hbest : s.Fresh points ∨ s.Best points num)
    (hfirst : count = 1 → interval = s.outerMaxinterval) (hempty : s.outerMaxinterval < s.outerMininterval → count = 1)
    (hb : s.better interval (reach interval s.add count)) : s.outerMininterval ≤ s.outerMaxinterval := by
  by_contra hgt
  have hone := hempty (not_le.mp hgt)
  have hint := hfirst hone
  have hr : reach interval s.add count = interval := by rw [hone, Quadratic.reach_one]
  have houter := hranges.outerMax
  rcases hbest with hfresh | hbest
  · exact hgt hfresh.2.2.1
  · have hmax := hbest.reach
    rcases hb with hb | ⟨heq, hb⟩
    · omega
    · have := hbest.first (by omega)
      omega

/-- **What is noted** is the best move. -/
theorem noted (hs : Spaced points num) (hranges : s.Ranges points) (hbest : s.Fresh points ∨ s.Best points num)
    {lo' hi' : ℤ} (hfine : (Extended.stopped interval count lo' hi').Fine points num 1 s.add s.outerMininterval
      s.outerMaxinterval) (s' : Search)
    (hs' : s' = if s.better interval (reach interval s.add count) then s.note interval (reach interval s.add count)
    count
      else s) : s'.Best points num := by
  obtain ⟨h1, hnum, -, -, hfirst, hgood, hempty⟩ := hfine
  have hreach1 : count = 1 → reach interval s.add count = interval := fun h => by rw [h, Quadratic.reach_one]
  have hadd : -0x8000 ≤ s.add ∧ s.add ≤ 0x7fff :=
    ⟨hranges.minadd.trans hranges.add.1, hranges.add.2.trans hranges.maxadd⟩
  have houter := hranges.outerMax
  have hfound (hb : s.better interval (reach interval s.add count)) : Found points num interval count s.add :=
    ⟨hgood (ranges_of_better hranges hbest hfirst hempty hb), hnum.le, hadd.1, hadd.2⟩
  have hnew (hb : s.better interval (reach interval s.add count)) :
      int32 (points 0).maxp ≤ reach interval s.add count ∧
        (reach interval s.add count = int32 (points 0).maxp → interval = int32 (points 0).maxp) := by
    rcases Nat.lt_or_ge count 2 with hlt | hge
    · have hone : count = 1 := by omega
      have hint := hfirst hone
      have hr := hreach1 hone
      rcases hbest with hfresh | hbest
      · have := hfresh.2.2.2
        omega
      · have hmax := hbest.reach
        have : s.bestreach ≤ reach interval s.add count := by
          rcases hb with hb | ⟨heq, -⟩
          · exact hb.le
          · exact heq.ge
        omega
    · have := (hfound hb).1.maxp_lt hs hge hnum.le
      omega
  by_cases hb : s.better interval (reach interval s.add count)
  · rw [if_pos hb] at hs'
    obtain ⟨hr1, hr2⟩ := hnew hb
    have hf := hfound hb
    unfold note at hs'
    simp only at hs'
    split_ifs at hs' with hzero
    · subst hs'
      exact ⟨hf, hr1, hr2, hzero ▸ hf⟩
    · subst hs'
      rcases hbest with hfresh | hbest
      · exact absurd hfresh.2.1 hzero
      · exact ⟨hf, hr1, hr2, hbest.zero⟩
  · rw [if_neg hb] at hs'
    subst hs'
    rcases hbest with hfresh | hbest
    · -- the first move is better than none
      refine absurd (Or.inl ?_) hb
      have hpos := (hgood hfresh.2.2.1).2 (count - 1) (by omega)
      rw [Nat.sub_add_cancel h1] at hpos
      have h0 : 0 ≤ int32 (points (count - 1)).minp := by
        rcases Nat.eq_zero_or_pos (count - 1) with hz | hz
        · rw [hz]
          exact hs.nonneg
        · exact (hs.nonneg.trans (hs.ordered 0 (by omega))).trans (hs.maxp_lt hz (by omega)).le
      have := hfresh.1
      omega
    · exact hbest

theorem tri_pos (h : 1 ≤ count) : 0 < tri (count + 1) := by
  have := Quadratic.tri_nonneg count
  rw [Quadratic.tri_succ]
  omega

/-- The same moves are the best. -/
structure SameMoves (s s' : Search) : Prop where
  bestinterval : s'.bestinterval = s.bestinterval
  bestcount : s'.bestcount = s.bestcount
  bestadd : s'.bestadd = s.bestadd
  bestreach : s'.bestreach = s.bestreach
  zerointerval : s'.zerointerval = s.zerointerval
  zerocount : s'.zerocount = s.zerocount

theorem Best.of_same (h : s.Best points num) (hs : SameMoves s s') : s'.Best points num := by
  obtain ⟨h1, h2, h3, h4, h5, h6⟩ := hs
  refine ⟨?_, ?_, ?_, ?_⟩
  · rw [h1, h2, h3]
    exact h.best
  · rw [h4]
    exact h.reach
  · rw [h1, h4]
    exact h.first
  · rw [h5, h6]
    exact h.zero

theorem SameMoves.trans {t : Search} (h : SameMoves s s') (h' : SameMoves s' t) : SameMoves s t :=
  ⟨h'.bestinterval.trans h.bestinterval, h'.bestcount.trans h.bestcount, h'.bestadd.trans h.bestadd,
    h'.bestreach.trans h.bestreach, h'.zerointerval.trans h.zerointerval, h'.zerocount.trans h.zerocount⟩

/-- **The end of a round**: the range of `add` loses the value that was tried. -/
theorem narrowed (hranges : s.Ranges points) {lo' hi' nextreach minp : ℤ} (hlo : s.outerMininterval ≤ lo')
    (hhi : hi' ≤ s.outerMaxinterval) (hcount : 1 ≤ count) {point : Points} {s₁ s₂ : Search}
    (hdev : (s.turn nextreach minp lo' hi').deviate maxError count = some s₁) (hlim : s₁.limit count point = some s₂) :
    SameMoves s s₂ ∧ int32 (points 0).minp ≤ s₂.outerMininterval ∧ s₂.outerMaxinterval ≤ int32 (points 0).maxp ∧
      -0x8000 ≤ s₂.minadd ∧ s₂.maxadd ≤ 0x7fff ∧ s₂.maxadd - s₂.minadd < s.maxadd - s.minadd := by
  obtain ⟨houter1, houter2, hmin, hmax, hadd⟩ := hranges
  -- each of the three parts only makes the ranges smaller
  have hturn : SameMoves s (s.turn nextreach minp lo' hi') ∧
      s.outerMininterval ≤ (s.turn nextreach minp lo' hi').outerMininterval ∧
      (s.turn nextreach minp lo' hi').outerMaxinterval ≤ s.outerMaxinterval ∧
      s.minadd ≤ (s.turn nextreach minp lo' hi').minadd ∧ (s.turn nextreach minp lo' hi').maxadd ≤ s.maxadd ∧
      (s.turn nextreach minp lo' hi').maxadd - (s.turn nextreach minp lo' hi').minadd < s.maxadd - s.minadd := by
    unfold turn
    split_ifs
    · exact ⟨⟨rfl, rfl, rfl, rfl, rfl, rfl⟩, le_rfl, hhi, by simp only; omega, le_rfl, by simp only; omega⟩
    · exact ⟨⟨rfl, rfl, rfl, rfl, rfl, rfl⟩, hlo, le_rfl, le_rfl, by simp only; omega, by simp only; omega⟩
  generalize s.turn nextreach minp lo' hi' = t at hdev hturn
  obtain ⟨hsame₁, t1, t2, t3, t4, t5⟩ := hturn
  have hdeviate : SameMoves t s₁ ∧ s₁.outerMininterval = t.outerMininterval ∧ s₁.outerMaxinterval = t.outerMaxinterval ∧
      t.minadd ≤ s₁.minadd ∧ s₁.maxadd ≤ t.maxadd := by
    unfold deviate at hdev
    split_ifs at hdev
    · obtain ⟨-, rfl⟩ := checked_eq_some.mp hdev
      exact ⟨⟨rfl, rfl, rfl, rfl, rfl, rfl⟩, rfl, rfl, le_max_left _ _, min_le_left _ _⟩
    · cases hdev
      exact ⟨⟨rfl, rfl, rfl, rfl, rfl, rfl⟩, rfl, rfl, le_rfl, le_rfl⟩
  obtain ⟨hsame₂, d1, d2, d3, d4⟩ := hdeviate
  unfold limit at hlim
  split_ifs at hlim with hfit
  split at hlim
  · next minadd maxadd hraise hlower =>
    cases hlim
    obtain ⟨e1, -⟩ := raiseMin_spec (tri_pos hcount) hraise
    obtain ⟨e2, -⟩ := lowerMax_spec (tri_pos hcount) hlower
    refine ⟨hsame₁.trans (hsame₂.trans ⟨rfl, rfl, rfl, rfl, rfl, rfl⟩), ?_, ?_, ?_, ?_, ?_⟩
    all_goals
      simp only
      omega
  · cases hlim

/-- What a round of the outer loop says of its end. -/
def Round.Fine (points : ℕ → Points) (num : ℕ) (s : Search) : Round → Prop
  | .found interval count add => Found points num interval count add
  | .stop s' => s'.Best points num
  | .again s' => s'.Ranges points ∧ (s'.Best points num ∧ 1 < num) ∧ s'.maxadd - s'.minadd < s.maxadd - s.minadd

theorem narrow_spec (hranges : s.Ranges points) (hbest : s.Best points num ∧ 1 < num) {lo' hi' : ℤ}
    (hlo : s.outerMininterval ≤ lo') (hhi : hi' ≤ s.outerMaxinterval) (hcount : 1 ≤ count) {point : Points} {r : Round}
    (h : s.narrow maxError interval count point lo' hi' = some r) : r.Fine points num s := by
  unfold narrow at h
  split at h
  · cases h
  · next s₁ hdev =>
    split at h
    · cases h
    · next s₂ hlim =>
      obtain ⟨hsame, h1, h2, h3, h4, h5⟩ := narrowed hranges hlo hhi hcount hdev hlim
      have hb := hbest.1.of_same hsame
      split_ifs at h with hempty
      · cases h
        exact hb
      · cases h
        rw [Int.tdiv_eq_ediv_of_nonneg (by omega)]
        exact ⟨⟨h1, h2, h3, h4, by simp only; omega⟩, ⟨hb.of_same ⟨rfl, rfl, rfl, rfl, rfl, rfl⟩, hbest.2⟩, h5⟩

theorem note_ranges (s : Search) (interval reach : ℤ) (count : ℕ) (b : Prop) [Decidable b] {t : Search}
    (ht : t = if b then s.note interval reach count else s) :
    t.add = s.add ∧ t.outerMininterval = s.outerMininterval ∧ t.outerMaxinterval = s.outerMaxinterval ∧
      t.minadd = s.minadd ∧ t.maxadd = s.maxadd := by
  unfold note at ht
  simp only at ht
  split_ifs at ht <;> subst ht <;> exact ⟨rfl, rfl, rfl, rfl, rfl⟩

/-- **A round of the search.** -/
theorem round_spec (hs : Spaced points num) (hranges : s.Ranges points)
    (hbest : s.Fresh points ∨ (s.Best points num ∧ 1 < num)) {r : Round}
    (h : s.round points num maxError = some r) : r.Fine points num s := by
  have hadd : -0x8000 ≤ s.add ∧ s.add ≤ 0x7fff :=
    ⟨hranges.minadd.trans hranges.add.1, hranges.add.2.trans hranges.maxadd⟩
  have hstart : ∀ i, s.outerMininterval ≤ i → i ≤ s.outerMaxinterval → Good points i s.add 1 :=
    fun i h1 h2 => good_one (hranges.outerMin.trans h1) (h2.trans hranges.outerMax)
  have hone : 1 < num ∨ (s.outerMininterval ≤ s.outerMaxinterval ∧ 1 ≤ num) :=
    hbest.symm.imp And.right fun hfresh => ⟨hfresh.2.2.1, hs.nonempty⟩
  unfold round at h
  split at h
  · cases h
  · next interval count hextend =>
    cases h
    obtain ⟨rfl, hgood⟩ := extend_spec hone hstart hextend
    exact ⟨hgood, le_rfl, hadd.1, hadd.2⟩
  · next interval count lo' hi' hextend =>
    have hfine := extend_spec hone hstart hextend
    have hnoted := noted hs hranges (hbest.imp id And.left) hfine _ rfl
    obtain ⟨hcount, hnum, hlo, hhi, -⟩ := hfine
    obtain ⟨htadd, hmin, hmax, hminadd, hmaxadd⟩ := note_ranges s interval (reach interval s.add count) count
      (s.better interval (reach interval s.add count)) rfl
    split_ifs at h with hfit
    by_cases hstop : s.better interval (reach interval s.add count) ∧ 0x200 < count
    · simp only [hstop, if_true] at h
      cases h
      simpa only [Round.Fine, if_pos hstop.1] using hnoted
    · simp only [hstop, if_false] at h
      have hr : Ranges points (if s.better interval (reach interval s.add count) then
          s.note interval (reach interval s.add count) count else s) := by
        obtain ⟨r1, r2, r3, r4, r5⟩ := hranges
        exact ⟨hmin ▸ r1, hmax ▸ r2, hminadd ▸ r3, hmaxadd ▸ r4, by rw [htadd, hminadd, hmaxadd]; exact r5⟩
      have hn := narrow_spec hr ⟨hnoted, by omega⟩ (hmin ▸ hlo) (hmax ▸ hhi) hcount h
      cases r with
      | found interval count add => exact hn
      | stop s' => exact hn
      | again s' =>
        obtain ⟨n1, n2, n3⟩ := hn
        rw [hmaxadd, hminadd] at n3
        exact ⟨n1, n2, n3⟩

/-- **The search** ends with a move that hits every step. -/
theorem loop_spec (hs : Spaced points num) {fuel : ℕ} (hranges : s.Ranges points)
    (hbest : s.Fresh points ∨ (s.Best points num ∧ 1 < num)) {r : ℤ × ℕ × ℤ}
    (h : loop points num maxError fuel s = some r) : Found points num r.1 r.2.1 r.2.2 := by
  have hresult {s : Search} (hb : s.Best points num) : Found points num s.result.1 s.result.2.1 s.result.2.2 := by
    unfold result
    split_ifs
    · exact hb.zero
    · exact hb.best
  induction fuel generalizing s with
  | zero => cases h
  | succ fuel ih =>
    rw [loop] at h
    split at h
    · cases h
    · next interval count add hround =>
      cases h
      exact round_spec hs hranges hbest hround
    · next s' hround =>
      cases h
      exact hresult (round_spec hs hranges hbest hround)
    · next s' hround =>
      obtain ⟨hr, hb, -⟩ := round_spec hs hranges hbest hround
      exact ih hr (Or.inr hb) h

end Search

end Search

/-! ## The check -/

section Check

variable {maxError lsc : UInt32} {queue : List UInt32} {points : ℕ → Points} {num : ℕ}

theorem int32_of_lt {v : UInt32} (h : v.toNat < 2 ^ 31) : int32 v = v.toNat := by
  unfold int32
  rw [BitVec.toInt_eq_toNat_cond]
  simp only [UInt32.toNat_toBitVec]
  split_ifs <;> omega

theorem toNat_ofInt {z : ℤ} (h0 : 0 ≤ z) (h1 : z < 2 ^ 32) : ((UInt32.ofInt z).toNat : ℤ) = z := by
  unfold UInt32.ofInt
  rw [UInt32.toNat_ofNat']
  omega

/-- A step time after the last step. -/
def ticks (lsc : UInt32) (queue : List UInt32) (i : ℕ) : ℕ := (queue.getD i 0 - lsc).toNat

/-- The queue holds times after the last step, one after the other, less than half of the clock's range away. -/
structure Rising (lsc : UInt32) (queue : List UInt32) : Prop where
  nonempty : queue ≠ []
  near : ∀ i < queue.length, ticks lsc queue i < 2 ^ 31
  rising : ∀ i, i + 1 < queue.length → ticks lsc queue i < ticks lsc queue (i + 1)

/-- The most that a step may be early. -/
def early (maxError lsc : UInt32) (queue : List UInt32) (i : ℕ) : ℕ :=
  min ((ticks lsc queue i - if 0 < i then ticks lsc queue (i - 1) else 0) / 2) maxError.toNat

/-- **The limits of a step** are its time, and some ticks before it, at most half of those since the step before. -/
theorem minmaxPoint_eq (maxError : UInt32) (h : Rising lsc queue) {i : ℕ} (hi : i < queue.length) :
    (minmaxPoint maxError lsc queue i).minp.toNat = ticks lsc queue i - early maxError lsc queue i ∧
      (minmaxPoint maxError lsc queue i).maxp.toNat = ticks lsc queue i := by
  refine ⟨?_, rfl⟩
  have hprev : (if 0 < i then queue.getD (i - 1) 0 - lsc else 0).toNat ≤ ticks lsc queue i ∧
      (if 0 < i then queue.getD (i - 1) 0 - lsc else 0).toNat = if 0 < i then ticks lsc queue (i - 1) else 0 := by
    by_cases h0 : 0 < i
    · rw [if_pos h0, if_pos h0]
      have hr := h.rising (i - 1) (by omega)
      rw [Nat.sub_add_cancel h0] at hr
      exact ⟨hr.le, rfl⟩
    · rw [if_neg h0, if_neg h0]
      exact ⟨Nat.zero_le _, rfl⟩
  have hpoint : (queue.getD i 0 - lsc).toNat = ticks lsc queue i := rfl
  unfold minmaxPoint early
  simp only
  generalize (if 0 < i then queue.getD (i - 1) 0 - lsc else 0) = prevpoint at hprev
  generalize queue.getD i 0 - lsc = point at hpoint
  obtain ⟨hle, hval⟩ := hprev
  rw [← hpoint] at hle
  rw [← hpoint, ← hval]
  have hhalf : ((point - prevpoint) / 2).toNat = (point.toNat - prevpoint.toNat) / 2 := by
    rw [UInt32.toNat_div, UInt32.toNat_sub_of_le _ _ (UInt32.le_iff_toNat_le.mpr hle)]
    rfl
  have hsub {e : UInt32} (he : e.toNat ≤ point.toNat) : (point - e).toNat = point.toNat - e.toNat :=
    UInt32.toNat_sub_of_le _ _ (UInt32.le_iff_toNat_le.mpr he)
  by_cases hlt : (point - prevpoint) / 2 > maxError
  · have hnat : maxError.toNat < ((point - prevpoint) / 2).toNat := UInt32.lt_iff_toNat_lt.mp hlt
    rw [hhalf] at hnat
    rw [if_pos hlt, hsub (by omega), Nat.min_eq_right hnat.le]
  · have hnat : ((point - prevpoint) / 2).toNat ≤ maxError.toNat := UInt32.le_iff_toNat_le.mp (UInt32.not_lt.mp hlt)
    rw [if_neg hlt, hsub (by omega), hhalf, Nat.min_eq_left (hhalf ▸ hnat)]

theorem early_le (maxError lsc : UInt32) (queue : List UInt32) (i : ℕ) :
    2 * early maxError lsc queue i ≤ ticks lsc queue i - (if 0 < i then ticks lsc queue (i - 1) else 0) ∧
      early maxError lsc queue i ≤ maxError.toNat := by
  unfold early
  omega

theorem limits_eq (maxError : UInt32) (h : Rising lsc queue) {i : ℕ} (hi : i < queue.length) :
    int32 (minmaxPoint maxError lsc queue i).minp = (ticks lsc queue i - early maxError lsc queue i : ℕ) ∧
      int32 (minmaxPoint maxError lsc queue i).maxp = ticks lsc queue i := by
  obtain ⟨hmin, hmax⟩ := minmaxPoint_eq maxError h hi
  have hnear := h.near i hi
  rw [int32_of_lt (by omega), int32_of_lt (by omega), hmin, hmax]
  exact ⟨rfl, rfl⟩

/-- **The limits lie one behind the other.** -/
theorem spaced_of_rising (h : Rising lsc queue) (hnum : 1 ≤ num) (hle : num ≤ queue.length) :
    Spaced (minmaxPoint maxError lsc queue) num := by
  have hlimits (i : ℕ) (hi : i < num) := limits_eq maxError h (hi.trans_le hle)
  refine ⟨hnum, ?_, fun k hk => ?_, fun k hk => ?_⟩
  · rw [(hlimits 0 hnum).1]
    exact Int.natCast_nonneg _
  · rw [(hlimits k hk).1, (hlimits k hk).2]
    omega
  · rw [(hlimits k (by omega)).2, (hlimits (k + 1) hk).1]
    have hrise := h.rising k (by omega)
    have hearly := (early_le maxError lsc queue (k + 1)).1
    rw [if_pos (Nat.succ_pos k), Nat.add_sub_cancel] at hearly
    omega

variable {interval add : ℤ} {count : ℕ}

/-- **The loop of the check** goes through the steps of a move. -/
theorem checkPoints_of_good (hs : Spaced points num) (hpos : ∀ k < num, int32 (points k).minp = (points k).minp.toNat ∧
      int32 (points k).maxp = (points k).maxp.toNat) (hgood : Good points interval add count) (hnum : count ≤ num)
    (hadd : (Int16.ofInt add).toInt = add) {n i : ℕ} (hi : i + n = count) :
    checkPoints points (Int16.ofInt add) n i (UInt32.ofInt (interval + add * i)) (UInt32.ofInt (reach interval add i)) =
      true := by
  induction n generalizing i with
  | zero => rfl
  | succ n ih =>
    have hlt : i < num := by omega
    obtain ⟨h1, h2⟩ := hgood.2 i (by omega)
    obtain ⟨hmin, hmax⟩ := hpos i hlt
    have hmaxlt := (points i).maxp.toNat_lt
    have hint31 : int32 (points i).maxp < 2 ^ 31 := by
      unfold int32
      have := BitVec.toInt_lt (x := (points i).maxp.toBitVec)
      omega
    have hp : UInt32.ofInt (reach interval add i) + UInt32.ofInt (interval + add * i) =
        UInt32.ofInt (reach interval add (i + 1)) := by
      rw [Quadratic.reach_succ, UInt32.ofInt_add (reach interval add i)]
    have hpnat : ((UInt32.ofInt (reach interval add (i + 1))).toNat : ℤ) = reach interval add (i + 1) :=
      toNat_ofInt (by omega) (by omega)
    -- the next difference is positive, since the limits lie one behind the other
    have hstep : 0 ≤ interval + add * i ∧ interval + add * i < 2 ^ 31 := by
      have hsucc := Quadratic.reach_succ interval add i
      rcases Nat.eq_zero_or_pos i with rfl | hi0
      · rw [Quadratic.reach_zero] at hsucc
        omega
      · obtain ⟨k, rfl⟩ := Nat.exists_eq_add_of_le' (show 1 ≤ i from hi0)
        obtain ⟨h3, h4⟩ := hgood.2 k (by omega)
        have hapart := hs.apart k hlt
        have := hpos k (by omega)
        omega
    have hinat : ((UInt32.ofInt (interval + add * i)).toNat : ℤ) = interval + add * i :=
      toNat_ofInt hstep.1 (by omega)
    have hnext : UInt32.ofInt (interval + add * i) + UInt32.ofInt (Int16.ofInt add).toInt =
        UInt32.ofInt (interval + add * (i + 1 : ℕ)) := by
      rw [hadd, ← UInt32.ofInt_add]
      congr 1
      push_cast
      ring
    rw [checkPoints]
    simp only [hp]
    rw [if_neg, if_neg, hnext]
    · exact ih (by omega)
    · rw [ge_iff_le, UInt32.le_iff_toNat_le, not_le]
      change _ < 2147483648
      omega
    · rw [not_or, UInt32.not_lt, gt_iff_lt, UInt32.not_lt, UInt32.le_iff_toNat_le, UInt32.le_iff_toNat_le]
      omega

/-- What `compress_bisect_add` finds is a good move, whose numbers fit into those of the command. -/
theorem compressBisectAdd_found (h : Rising lsc queue) {move : StepMove}
    (hmove : compressBisectAdd maxError lsc queue = some move) :
    ∃ interval count add, Found (minmaxPoint maxError lsc queue) (min queue.length 65535) interval count add ∧
      move = ⟨UInt32.ofInt interval, UInt16.ofNat count, Int16.ofInt add⟩ := by
  obtain ⟨⟨interval, count, add⟩, hloop, rfl⟩ := Option.map_eq_some_iff.mp hmove
  have hlen : 1 ≤ queue.length := List.length_pos_iff.mpr h.nonempty
  have hs : Spaced (minmaxPoint maxError lsc queue) (min queue.length 65535) :=
    spaced_of_rising h (by omega) (Nat.min_le_left _ _)
  have hord := hs.ordered 0 (by omega)
  exact ⟨interval, count, add, Search.loop_spec hs
    ⟨le_rfl, le_rfl, le_rfl, le_rfl, show (-0x8000 : ℤ) ≤ 0 by decide,
      show (0 : ℤ) ≤ 0x7fff by decide⟩ (Or.inl ⟨rfl, rfl, hord, rfl⟩) hloop, rfl⟩

/-- **A move that was found passes the check.** -/
theorem checkLine_of_found (h : Rising lsc queue)
    (hfound : Found (minmaxPoint maxError lsc queue) (min queue.length 65535) interval count add) :
    checkLine maxError lsc queue ⟨UInt32.ofInt interval, UInt16.ofNat count, Int16.ofInt add⟩ = true := by
  obtain ⟨hgood, hnum, hadd1, hadd2⟩ := hfound
  have hlen : 1 ≤ queue.length := List.length_pos_iff.mpr h.nonempty
  have hs : Spaced (minmaxPoint maxError lsc queue) (min queue.length 65535) :=
    spaced_of_rising h (by omega) (Nat.min_le_left _ _)
  have hpos : ∀ k < min queue.length 65535,
      int32 (minmaxPoint maxError lsc queue k).minp = (minmaxPoint maxError lsc queue k).minp.toNat ∧
      int32 (minmaxPoint maxError lsc queue k).maxp = (minmaxPoint maxError lsc queue k).maxp.toNat := by
    intro k hk
    obtain ⟨hmin, hmax⟩ := minmaxPoint_eq maxError h (show k < queue.length by omega)
    have hnear := h.near k (by omega)
    exact ⟨int32_of_lt (by omega), int32_of_lt (by omega)⟩
  have hadd : (Int16.ofInt add).toInt = add := Int16.toInt_ofInt_of_le (by omega) (by omega)
  have hcount : (UInt16.ofNat count).toNat = count := by
    rw [UInt16.toNat_ofNat']
    omega
  obtain ⟨h0, hall⟩ := hgood
  have hfirst := hall 0 h0
  rw [Quadratic.reach_one] at hfirst
  have hnear := h.near 0 (by omega)
  have hmax := (hpos 0 (by omega)).2
  have hticks := (minmaxPoint_eq maxError h (show 0 < queue.length by omega)).2
  have hint : ((UInt32.ofInt interval).toNat : ℤ) = interval := toNat_ofInt (hs.nonneg.trans hfirst.1) (by omega)
  have hcheck := checkPoints_of_good hs hpos ⟨h0, hall⟩ hnum hadd (n := count) (i := 0) (Nat.zero_add _)
  rw [Quadratic.reach_zero, Nat.cast_zero, mul_zero, add_zero] at hcheck
  unfold checkLine
  simp only
  rw [if_neg, hcount]
  · exact hcheck
  · rintro (hzero | ⟨hi, ha, hc⟩ | hbig)
    · rw [← UInt16.toNat_inj, hcount] at hzero
      exact absurd hzero (by simpa using Nat.one_le_iff_ne_zero.mp h0)
    · -- two steps at the same time are not rising
      have hi0 : interval = 0 := by
        rw [← hint, hi]
        rfl
      have ha0 : add = 0 := by
        rw [← hadd, ha]
        rfl
      have h2 : 1 < count := by
        have := UInt16.lt_iff_toNat_lt.mp hc
        rw [hcount] at this
        exact this
      have hsecond := (hall 1 h2).1
      have hapart := hs.maxp_lt Nat.one_pos (show 1 < min queue.length 65535 by omega)
      have hord := hs.ordered 0 (by omega)
      have hnonneg := hs.nonneg
      rw [hi0, ha0] at hsecond
      unfold reach at hsecond
      simp only [zero_mul, add_zero] at hsecond
      omega
    · have := UInt32.le_iff_toNat_le.mp hbig
      change 2147483648 ≤ _ at this
      omega

/-- **What the search finds passes the check**: for a queue of step times that rise, whatever `max_error` is, the
printer is never stopped by `check_line`. -/
theorem bisect_checked (h : Rising lsc queue) {move : StepMove}
    (hmove : compressBisectAdd maxError lsc queue = some move) : checkLine maxError lsc queue move = true := by
  obtain ⟨interval, count, add, hfound, rfl⟩ := compressBisectAdd_found h hmove
  exact checkLine_of_found h hfound

theorem rising_concreteCase : Rising 100 [1100, 2090, 3105] := by
  refine ⟨by decide, by decide, fun i hi => ?_⟩
  have hlt : i < 2 := Nat.lt_of_succ_lt_succ hi
  interval_cases i <;> decide

/-- The steps are 1000, 990 and 1015 ticks apart. -/
theorem bisect_checked_concreteCase : checkLine 20 100 [1100, 2090, 3105] ⟨995, 3, 0⟩ = true :=
  bisect_checked rising_concreteCase (by decide +kernel)

end Check

end Cxsw.StepCompress
