import Mathlib.Algebra.Order.Ring.Abs
import Mathlib.Tactic.Linarith

/-!
# Cxsw.Lib.LookAhead — two walks over a chain of speeds

A chain is a sequence of segments; `entry` and `exit` are squared speeds, `reach` is how much the squared speed can
change within the segment, `cap` bounds the entry.  A chain of `n` segments is `Feasible` when each exit is the next
entry, no segment changes its speed by more than its reach, and the last exit is `floor`.

* `Braking`: what the backward walk keeps; `Braking.back` is one of its steps.
* `JoinedUpTo`: what the forward walk has established; `JoinedUpTo.fwd` is one of its steps.
* `Feasible.push`, `Feasible.tail`: a chain grows at its end and is consumed from its start.
* `WalkBack`, `WalkForward`: the walks as a whole, and what they keep.  `Linked` is the part of `Feasible` that needs
  no bounds: each exit is the next entry.
* `Settled`: the segments that the backward walk leaves at their entry.
-/

namespace Cxsw.LookAhead

variable {K : Type*} [CommRing K] [LinearOrder K]

/-- A segment of a chain. -/
structure Seg (K : Type*) where
  entry : K
  exit : K
  reach : K
  cap : K

/-- One step of the backward walk: raise the entry as far as the next entry and the cap allow.  A segment that
enters at its cap is skipped. -/
def back (floor : K) (cur : Seg K) (next : Option (Seg K)) : Seg K :=
  let nextEntry := (next.map Seg.entry).getD floor
  if cur.entry = cur.cap then cur
  else { cur with entry := min (nextEntry + cur.reach) cur.cap, exit := nextEntry }

/-- The entry that the forward walk leaves. -/
def fwdEntry (prev cur : Seg K) : K :=
  if prev.entry < cur.entry ∧ prev.entry + prev.reach < cur.entry then prev.entry + prev.reach else cur.entry

variable {floor : K} {n : ℕ} {c d : ℕ → Seg K}

theorem back_entry (cur : Seg K) (next : Option (Seg K)) : (back floor cur next).entry =
    if cur.entry = cur.cap then cur.entry else min ((next.map Seg.entry).getD floor + cur.reach) cur.cap := by
  unfold back
  dsimp only
  split_ifs <;> rfl

theorem back_exit (cur : Seg K) (next : Option (Seg K)) : (back floor cur next).exit =
    if cur.entry = cur.cap then cur.exit else (next.map Seg.entry).getD floor := by
  unfold back
  dsimp only
  split_ifs <;> rfl

theorem back_reach (cur : Seg K) (next : Option (Seg K)) : (back floor cur next).reach = cur.reach := by
  unfold back
  dsimp only
  split_ifs <;> rfl

theorem back_cap (cur : Seg K) (next : Option (Seg K)) : (back floor cur next).cap = cur.cap := by
  unfold back
  dsimp only
  split_ifs <;> rfl

/-- A chain that can be executed. -/
structure Feasible (floor : K) (n : ℕ) (c : ℕ → Seg K) : Prop where
  join : ∀ j, j + 1 < n → (c j).exit = (c (j + 1)).entry
  last : ∀ j, j + 1 = n → (c j).exit = floor
  reach : ∀ j, j < n → |(c j).exit - (c j).entry| ≤ (c j).reach
  cap : ∀ j, j < n → (c j).entry ≤ (c j).cap
  low : ∀ j, j < n → floor ≤ (c j).entry

/-- Each exit is the next entry, and the last one is `floor`. -/
structure Linked (floor : K) (n : ℕ) (c : ℕ → Seg K) : Prop where
  join : ∀ j, j + 1 < n → (c j).exit = (c (j + 1)).entry
  last : ∀ j, j + 1 = n → (c j).exit = floor

/-- Every segment can brake to the entry of the next one. -/
structure Braking (floor : K) (n : ℕ) (c : ℕ → Seg K) : Prop where
  brake : ∀ j, j + 1 < n → (c j).entry ≤ (c (j + 1)).entry + (c j).reach
  brakeLast : ∀ j, j + 1 = n → (c j).entry ≤ floor + (c j).reach
  last : ∀ j, j + 1 = n → (c j).exit = floor
  cap : ∀ j, j < n → (c j).entry ≤ (c j).cap
  low : ∀ j, j < n → floor ≤ (c j).entry
  reach : ∀ j, j < n → 0 ≤ (c j).reach

/-- The first `p` segments end where the next ones start. -/
def JoinedUpTo (p : ℕ) (c : ℕ → Seg K) : Prop :=
  ∀ j, j < p → (c j).exit = (c (j + 1)).entry ∧ |(c j).exit - (c j).entry| ≤ (c j).reach

theorem Feasible.joined (h : Feasible floor n c) {p : ℕ} (hp : p < n) : JoinedUpTo p c :=
  fun j hj => ⟨h.join j (by omega), h.reach j (by omega)⟩

/-- Chains that agree on their first `n` segments brake alike. -/
theorem Braking.congr (h : Braking floor n c) (he : ∀ j, j < n → d j = c j) : Braking floor n d where
  brake j hj := by
    rw [he j (by omega), he (j + 1) hj]
    exact h.brake j hj
  brakeLast j hj := by
    rw [he j (by omega)]
    exact h.brakeLast j hj
  last j hj := by
    rw [he j (by omega)]
    exact h.last j hj
  cap j hj := by
    rw [he j hj]
    exact h.cap j hj
  low j hj := by
    rw [he j hj]
    exact h.low j hj
  reach j hj := by
    rw [he j hj]
    exact h.reach j hj

theorem JoinedUpTo.congr {p : ℕ} (h : JoinedUpTo p c) (he : ∀ j, j ≤ p → d j = c j) : JoinedUpTo p d := by
  intro j hj
  rw [he j (by omega), he (j + 1) (by omega)]
  exact h j hj

theorem Feasible.linked (h : Feasible floor n c) : Linked floor n c := ⟨h.join, h.last⟩

omit [CommRing K] [LinearOrder K] in
theorem linked_zero (floor : K) (c : ℕ → Seg K) : Linked floor 0 c := ⟨fun j h => by omega, fun j h => by omega⟩

omit [CommRing K] [LinearOrder K] in
/-- A segment that enters and leaves at the floor may be added at the end. -/
theorem Linked.push (h : Linked floor n c) (he : ∀ j, j < n → d j = c j) (hentry : (d n).entry = floor)
    (hexit : (d n).exit = floor) : Linked floor (n + 1) d where
  join j hj := by
    rw [he j (by omega)]
    rcases Nat.lt_or_ge (j + 1) n with h1 | h1
    · rw [he (j + 1) h1]
      exact h.join j h1
    · have hn : j + 1 = n := by omega
      rw [hn, hentry]
      exact h.last j hn
  last j hj := by
    have hn : j = n := by omega
    rw [hn, hexit]

omit [CommRing K] [LinearOrder K] in
/-- The first segment may be taken away. -/
theorem Linked.tail (h : Linked floor (n + 1) c) (he : ∀ j, j < n → d j = c (j + 1)) : Linked floor n d where
  join j hj := by
    rw [he j (by omega), he (j + 1) hj]
    exact h.join (j + 1) (by omega)
  last j hj := by
    rw [he j (by omega)]
    exact h.last (j + 1) (by omega)

/-- The first segment may be taken away. -/
theorem Feasible.tail (h : Feasible floor (n + 1) c) (he : ∀ j, j < n → d j = c (j + 1)) : Feasible floor n d where
  join := (h.linked.tail he).join
  last := (h.linked.tail he).last
  reach j hj := by
    rw [he j hj]
    exact h.reach (j + 1) (by omega)
  cap j hj := by
    rw [he j hj]
    exact h.cap (j + 1) (by omega)
  low j hj := by
    rw [he j hj]
    exact h.low (j + 1) (by omega)

theorem feasible_zero (floor : K) (c : ℕ → Seg K) : Feasible floor 0 c :=
  ⟨fun j h => by omega, fun j h => by omega, fun j h => by omega, fun j h => by omega, fun j h => by omega⟩

variable [IsStrictOrderedRing K]

theorem Feasible.braking (h : Feasible floor n c) (hr : ∀ j, j < n → 0 ≤ (c j).reach) : Braking floor n c where
  brake j hj := by
    have h1 := abs_le.mp (h.reach j (by omega))
    rw [h.join j hj] at h1
    linarith [h1.1]
  brakeLast j hj := by
    have h1 := abs_le.mp (h.reach j (by omega))
    rw [h.last j hj] at h1
    linarith [h1.1]
  last := h.last
  cap := h.cap
  low := h.low
  reach := hr

/-- The walks together: a chain that can brake and is joined up to its last segment can be executed. -/
theorem Braking.feasible (h : Braking floor n c) (hj : ∀ p, p + 1 = n → JoinedUpTo p c) : Feasible floor n c where
  join j hlt := (hj (n - 1) (by omega) j (by omega)).1
  last := h.last
  reach j hlt := by
    rcases Nat.lt_or_ge (j + 1) n with h1 | h1
    · exact (hj (n - 1) (by omega) j (by omega)).2
    · have hn : j + 1 = n := by omega
      have h2 := h.brakeLast j hn
      have h3 := h.low j hlt
      have h4 := h.reach j hlt
      rw [h.last j hn, abs_le]
      constructor <;> linarith
  cap := h.cap
  low := h.low

omit [IsStrictOrderedRing K] in
theorem le_back_entry {cur : Seg K} {next : Option (Seg K)} (hcap : cur.entry ≤ cur.cap)
    (hb : cur.entry ≤ (next.map Seg.entry).getD floor + cur.reach) :
    cur.entry ≤ (back floor cur next).entry ∧ (back floor cur next).entry ≤ cur.cap ∧
      (back floor cur next).entry ≤ (next.map Seg.entry).getD floor + cur.reach := by
  unfold back
  dsimp only
  split_ifs with h
  · exact ⟨le_rfl, hcap, hb⟩
  · exact ⟨le_min hb hcap, min_le_right _ _, min_le_left _ _⟩

/-- **A step of the backward walk** keeps the chain able to brake. -/
theorem Braking.back (h : Braking floor n c) {i : ℕ} (hi : i < n) :
    Braking floor n (Function.update c i
      (LookAhead.back floor (c i) (if i + 1 = n then none else some (c (i + 1))))) := by
  set next := if i + 1 = n then none else some (c (i + 1)) with hnext
  have hb : (c i).entry ≤ (next.map Seg.entry).getD floor + (c i).reach := by
    rw [hnext]
    split_ifs with hl
    · exact h.brakeLast i hl
    · exact h.brake i (by omega)
  obtain ⟨h1, h2, h3⟩ := le_back_entry (h.cap i hi) hb
  have hne : ∀ j, j ≠ i → Function.update c i (LookAhead.back floor (c i) next) j = c j :=
    fun j hj => Function.update_of_ne hj _ _
  refine ⟨fun j hj => ?_, fun j hj => ?_, fun j hj => ?_, fun j hj => ?_, fun j hj => ?_, fun j hj => ?_⟩
  · rcases eq_or_ne j i with rfl | hji
    · rw [Function.update_self, hne (j + 1) (by omega), back_reach]
      rw [hnext, if_neg (by omega)] at h3
      rw [hnext, if_neg (by omega)]
      exact h3
    · rw [hne j hji]
      have h4 := h.brake j hj
      rcases eq_or_ne (j + 1) i with rfl | hji'
      · rw [Function.update_self]
        linarith
      · rw [hne _ hji']
        exact h4
  · rcases eq_or_ne j i with rfl | hji
    · rw [Function.update_self, back_reach]
      rw [hnext, if_pos hj] at h3
      rw [hnext, if_pos hj]
      exact h3
    · rw [hne j hji]
      exact h.brakeLast j hj
  · rcases eq_or_ne j i with rfl | hji
    · rw [Function.update_self, hnext, if_pos hj, back_exit]
      split_ifs
      · exact h.last j hj
      · rfl
    · rw [hne j hji]
      exact h.last j hj
  · rcases eq_or_ne j i with rfl | hji
    · rw [Function.update_self, back_cap]
      exact h2
    · rw [hne j hji]
      exact h.cap j hj
  · rcases eq_or_ne j i with rfl | hji
    · rw [Function.update_self]
      exact (h.low j hj).trans h1
    · rw [hne j hji]
      exact h.low j hj
  · rcases eq_or_ne j i with rfl | hji
    · rw [Function.update_self, back_reach]
      exact h.reach j hj
    · rw [hne j hji]
      exact h.reach j hj

/-- The pair that a step of the forward walk leaves. -/
def fwd (c : ℕ → Seg K) (p : ℕ) : ℕ → Seg K :=
  Function.update (Function.update c p { c p with exit := fwdEntry (c p) (c (p + 1)) }) (p + 1)
    { c (p + 1) with entry := fwdEntry (c p) (c (p + 1)) }

section Fwd

omit [IsStrictOrderedRing K]

/-! The entries of the other segments, the exits of the other segments, and all reaches and caps are as before. -/

theorem fwd_entry_next (c : ℕ → Seg K) (p : ℕ) : (fwd c p (p + 1)).entry = fwdEntry (c p) (c (p + 1)) := by
  unfold fwd
  rw [Function.update_self]

theorem fwd_entry {p j : ℕ} (hj : j ≠ p + 1) : (fwd c p j).entry = (c j).entry := by
  unfold fwd
  rw [Function.update_of_ne hj]
  rcases eq_or_ne j p with rfl | hjp
  · rw [Function.update_self]
  · rw [Function.update_of_ne hjp]

theorem fwd_exit {p j : ℕ} (hj : j ≠ p) : (fwd c p j).exit = (c j).exit := by
  unfold fwd
  rcases eq_or_ne j (p + 1) with rfl | hjp
  · rw [Function.update_self]
  · rw [Function.update_of_ne hjp, Function.update_of_ne hj]

theorem fwd_join (c : ℕ → Seg K) (p : ℕ) : (fwd c p p).exit = (fwd c p (p + 1)).entry := by
  unfold fwd
  rw [Function.update_self, Function.update_of_ne (Nat.lt_succ_self p).ne, Function.update_self]

theorem fwd_reach (c : ℕ → Seg K) (p j : ℕ) : (fwd c p j).reach = (c j).reach := by
  unfold fwd
  rcases eq_or_ne j (p + 1) with rfl | hjp
  · rw [Function.update_self]
  rw [Function.update_of_ne hjp]
  rcases eq_or_ne j p with rfl | hj
  · rw [Function.update_self]
  · rw [Function.update_of_ne hj]

theorem fwd_cap (c : ℕ → Seg K) (p j : ℕ) : (fwd c p j).cap = (c j).cap := by
  unfold fwd
  rcases eq_or_ne j (p + 1) with rfl | hjp
  · rw [Function.update_self]
  rw [Function.update_of_ne hjp]
  rcases eq_or_ne j p with rfl | hj
  · rw [Function.update_self]
  · rw [Function.update_of_ne hj]

end Fwd

/-- The entry after a forward step: reachable by accelerating, by braking, and between the old bounds. -/
theorem fwdEntry_spec {prev cur : Seg K} (hr : 0 ≤ prev.reach) (hb : prev.entry ≤ cur.entry + prev.reach) :
    fwdEntry prev cur ≤ prev.entry + prev.reach ∧ prev.entry ≤ fwdEntry prev cur + prev.reach ∧
      fwdEntry prev cur ≤ cur.entry ∧ (∀ x, x ≤ prev.entry → x ≤ cur.entry → x ≤ fwdEntry prev cur) := by
  unfold fwdEntry
  split_ifs with h
  · refine ⟨le_rfl, by linarith, h.2.le, fun x hx _ => by linarith⟩
  · refine ⟨?_, hb, le_rfl, fun x _ hx => hx⟩
    rcases not_and_or.mp h with h | h
    · linarith [not_lt.mp h]
    · exact not_lt.mp h

/-- **A step of the forward walk** joins one more pair and keeps the chain able to brake. -/
theorem JoinedUpTo.fwd {p : ℕ} (hj : JoinedUpTo p c) (h : Braking floor n c) (hp : p + 1 < n) :
    JoinedUpTo (p + 1) (LookAhead.fwd c p) ∧ Braking floor n (LookAhead.fwd c p) := by
  obtain ⟨h1, h2, h3, h4⟩ := fwdEntry_spec (h.reach p (by omega)) (h.brake p hp)
  have hlow := h4 floor (h.low p (by omega)) (h.low (p + 1) hp)
  have hle : ∀ j, (LookAhead.fwd c p j).entry ≤ (c j).entry := by
    intro j
    rcases eq_or_ne j (p + 1) with rfl | hjp'
    · rw [fwd_entry_next]
      exact h3
    · rw [fwd_entry hjp']
  constructor
  · intro j hjlt
    rcases eq_or_ne j p with rfl | hjp
    · rw [fwd_join, fwd_entry_next, fwd_entry (Nat.lt_succ_self j).ne, fwd_reach, abs_le]
      refine ⟨rfl, ?_⟩
      constructor <;> linarith
    · obtain ⟨h5, h6⟩ := hj j (by omega)
      rw [fwd_exit hjp, fwd_entry (by omega), fwd_entry (by omega), fwd_reach]
      exact ⟨h5, h6⟩
  · refine ⟨fun j hjlt => ?_, fun j hjn => ?_, fun j hjn => ?_, fun j hjlt => ?_, fun j hjlt => ?_, fun j hjlt => ?_⟩
    · rw [fwd_reach]
      rcases eq_or_ne j p with rfl | hjp
      · rw [fwd_entry_next, fwd_entry (Nat.lt_succ_self j).ne]
        exact h2
      · rw [fwd_entry (j := j + 1) (by omega)]
        exact (hle j).trans (h.brake j hjlt)
    · rw [fwd_reach]
      exact (hle j).trans (h.brakeLast j hjn)
    · rw [fwd_exit (by omega)]
      exact h.last j hjn
    · rw [fwd_cap]
      exact (hle j).trans (h.cap j hjlt)
    · rcases eq_or_ne j (p + 1) with rfl | hjp'
      · rw [fwd_entry_next]
        exact hlow
      · rw [fwd_entry hjp']
        exact h.low j hjlt
    · rw [fwd_reach]
      exact h.reach j hjlt

/-- A segment that enters and leaves at the floor may be added at the end. -/
theorem Feasible.push (h : Feasible floor n c) (he : ∀ j, j < n → d j = c j) (hentry : (d n).entry = floor)
    (hexit : (d n).exit = floor) (hreach : 0 ≤ (d n).reach) (hcap : floor ≤ (d n).cap) :
    Feasible floor (n + 1) d where
  join := (h.linked.push he hentry hexit).join
  last := (h.linked.push he hentry hexit).last
  reach j hj := by
    rcases Nat.lt_or_ge j n with h1 | h1
    · rw [he j h1]
      exact h.reach j h1
    · have hn : j = n := by omega
      rw [hn, hexit, hentry, sub_self, abs_zero]
      exact hreach
  cap j hj := by
    rcases Nat.lt_or_ge j n with h1 | h1
    · rw [he j h1]
      exact h.cap j h1
    · have hn : j = n := by omega
      rw [hn, hentry]
      exact hcap
  low j hj := by
    rcases Nat.lt_or_ge j n with h1 | h1
    · rw [he j h1]
      exact h.low j h1
    · have hn : j = n := by omega
      rw [hn, hentry]

/-! ## The walks as a whole -/

section Walks

omit [IsStrictOrderedRing K]

/-- The segment after the place `j`. -/
def next (n : ℕ) (c : ℕ → Seg K) (j : ℕ) : Option (Seg K) := if j + 1 = n then none else some (c (j + 1))

/-- The entry after the place `j`. -/
def nextEntry (floor : K) (n : ℕ) (c : ℕ → Seg K) (j : ℕ) : K := ((next n c j).map Seg.entry).getD floor

/-- A step of the backward walk at the place `i`. -/
def backAt (floor : K) (n : ℕ) (c : ℕ → Seg K) (i : ℕ) : ℕ → Seg K :=
  Function.update c i (back floor (c i) (next n c i))

/-- The backward walk over `c`, from the end down to the place `i`, gives `d`. -/
inductive WalkBack (floor : K) (n : ℕ) (c : ℕ → Seg K) : ℕ → (ℕ → Seg K) → Prop
  | start {d : ℕ → Seg K} (he : ∀ j, j < n → d j = c j) : WalkBack floor n c n d
  | step {i : ℕ} {d e : ℕ → Seg K} (h : WalkBack floor n c (i + 1) d) (he : ∀ j, j < n → e j = backAt floor n d i j) :
    WalkBack floor n c i e

/-- The forward walk over `c`, from the place `p` up to the place `i`, gives `d`. -/
inductive WalkForward (n : ℕ) (c : ℕ → Seg K) (p : ℕ) : ℕ → (ℕ → Seg K) → Prop
  | start {d : ℕ → Seg K} (he : ∀ j, j < n → d j = c j) : WalkForward n c p p d
  | step {i : ℕ} {d e : ℕ → Seg K} (h : WalkForward n c p i d) (hi : i + 1 < n)
    (he : ∀ j, j < n → e j = fwd d i j) : WalkForward n c p (i + 1) e

/-- The `m` segments from the place `j` on are settled: up to one that enters at its cap, or up to the end, each enters
at what braking to the next entry allows. -/
def Settled (floor : K) (c : ℕ → Seg K) : ℕ → ℕ → Prop
  | 0, _ => True
  | m + 1, j =>
    (c j).entry = (c j).cap ∨
      (c j).entry = min (nextEntry floor (j + (m + 1)) c j + (c j).reach) (c j).cap ∧ Settled floor c m (j + 1)

instance decidableSettled (floor : K) (c : ℕ → Seg K) : (m j : ℕ) → Decidable (Settled floor c m j)
  | 0, _ => isTrue trivial
  | m + 1, j =>
    have := decidableSettled floor c m (j + 1)
    inferInstanceAs (Decidable ((c j).entry = (c j).cap ∨
      (c j).entry = min (nextEntry floor (j + (m + 1)) c j + (c j).reach) (c j).cap ∧ Settled floor c m (j + 1)))

omit [CommRing K] [LinearOrder K] in
theorem nextEntry_of_lt {j : ℕ} (h : j + 1 < n) : nextEntry floor n c j = (c (j + 1)).entry := by
  unfold nextEntry next
  rw [if_neg h.ne]
  rfl

omit [CommRing K] [LinearOrder K] in
theorem nextEntry_last {j : ℕ} (h : j + 1 = n) : nextEntry floor n c j = floor := by
  unfold nextEntry next
  rw [if_pos h]
  rfl

/-! ### The backward walk -/

theorem WalkBack.le {i : ℕ} (h : WalkBack floor n c i d) : i ≤ n := by
  induction h with
  | start _ => exact le_rfl
  | step _ _ ih => omega

/-- Below the place it has come to, the walk has changed nothing. -/
theorem WalkBack.rest {i j : ℕ} (h : WalkBack floor n c i d) (hj : j < i) : d j = c j := by
  induction h with
  | start he => exact he j hj
  | @step i d e h he ih =>
    have hle := h.le
    rw [he j (by omega), backAt, Function.update_of_ne hj.ne]
    exact ih (by omega)

/-- Above it, every segment has taken its step, with the next one as the walk has left it. -/
theorem WalkBack.eq_back {i j : ℕ} (h : WalkBack floor n c i d) (hi : i ≤ j) (hj : j < n) :
    d j = back floor (c j) (next n d j) := by
  induction h with
  | start _ => omega
  | @step i d e h he ih =>
    -- what lies above the place of the step is as it was
    have hkeep : ∀ k, i < k → k < n → e k = d k := by
      intro k hk hkn
      rw [he k hkn, backAt, Function.update_of_ne hk.ne']
    have hnext : next n e j = next n d j := by
      unfold next
      split_ifs with hlast
      · rfl
      · rw [hkeep (j + 1) (by omega) (by omega)]
    rw [hnext]
    rcases eq_or_lt_of_le hi with rfl | hlt
    · rw [he i hj, backAt, Function.update_self, h.rest (Nat.lt_succ_self i)]
    · rw [hkeep j hlt hj]
      exact ih hlt

theorem WalkBack.entry_eq {i j : ℕ} (h : WalkBack floor n c i d) (hi : i ≤ j) (hj : j < n) : (d j).entry =
    if (c j).entry = (c j).cap then (c j).entry else min (nextEntry floor n d j + (c j).reach) (c j).cap := by
  rw [h.eq_back hi hj, back_entry]
  rfl

theorem WalkBack.exit_eq {i j : ℕ} (h : WalkBack floor n c i d) (hi : i ≤ j) (hj : j < n) : (d j).exit =
    if (c j).entry = (c j).cap then (c j).exit else nextEntry floor n d j := by
  rw [h.eq_back hi hj, back_exit]
  rfl

theorem WalkBack.last {i j : ℕ} (h : WalkBack floor n c i d) (hj : j + 1 = n) (hc : (c j).exit = floor) :
    (d j).exit = floor := by
  rcases Nat.lt_or_ge j i with hlt | hge
  · rw [h.rest hlt]
    exact hc
  · rw [h.exit_eq hge (by omega), nextEntry_last hj, hc, ite_self]

/-- **Settled segments** keep their entry. -/
theorem WalkBack.entry_of_settled {i m j : ℕ} (h : WalkBack floor n c i d) (hi : i ≤ j) (hm : j + (m + 1) = n)
    (hs : Settled floor c (m + 1) j) : (d j).entry = (c j).entry := by
  induction m generalizing j with
  | zero =>
    rw [h.entry_eq hi (by omega), nextEntry_last hm]
    unfold Settled at hs
    rw [nextEntry_last rfl] at hs
    split_ifs with hcap
    · rfl
    · exact (hs.resolve_left hcap).1.symm
  | succ m ih =>
    rw [h.entry_eq hi (by omega), nextEntry_of_lt (by omega)]
    unfold Settled at hs
    rw [nextEntry_of_lt (by omega)] at hs
    split_ifs with hcap
    · rfl
    · obtain ⟨heq, hrest⟩ := hs.resolve_left hcap
      rw [ih (by omega) (by omega) hrest]
      exact heq.symm

/-- Without the forward walk the chain stays linked if each segment after one at its cap keeps its entry. -/
theorem Linked.walkBack (h : Linked floor n c) (hw : WalkBack floor n c 0 d)
    (hcap : ∀ j, j + 1 < n → (c j).entry = (c j).cap → (d (j + 1)).entry = (c (j + 1)).entry) :
    Linked floor n d where
  join j hj := by
    rw [hw.exit_eq (Nat.zero_le j) (by omega), nextEntry_of_lt hj]
    split_ifs with hc
    · rw [hcap j hj hc]
      exact h.join j hj
    · rfl
  last j hj := hw.last hj (h.last j hj)

/-! ### The forward walk -/

/-- The walk leaves the entries up to where it starts. -/
theorem WalkForward.entry_eq {p i j : ℕ} (h : WalkForward n c p i d) (hj : j ≤ p) (hn : j < n) :
    p ≤ i ∧ (d j).entry = (c j).entry := by
  induction h with
  | start he => exact ⟨le_rfl, by rw [he j hn]⟩
  | @step i d e _ hi he ih =>
    refine ⟨ih.1.trans (Nat.le_succ i), ?_⟩
    rw [he j hn, fwd_entry (by omega)]
    exact ih.2

theorem WalkForward.exit_eq {p i j : ℕ} (h : WalkForward n c p i d) (hj : i ≤ j) (hn : j < n) :
    (d j).exit = (c j).exit := by
  induction h with
  | start he => rw [he j hn]
  | @step i d e _ hi he ih =>
    rw [he j hn, fwd_exit (by omega)]
    exact ih (by omega)

/-- **In between it joins the segments.** -/
theorem WalkForward.join {p i : ℕ} (h : WalkForward n c p i d) (hi : i < n)
    (hc : ∀ j, j < p → (c j).exit = (c (j + 1)).entry) : ∀ j, j < i → (d j).exit = (d (j + 1)).entry := by
  induction h with
  | start he =>
    intro j hj
    rw [he j (by omega), he (j + 1) (by omega)]
    exact hc j hj
  | @step i d e _ _ he ih =>
    intro j hj
    rw [he j (by omega), he (j + 1) (by omega)]
    rcases eq_or_ne j i with rfl | hji
    · exact fwd_join d j
    · rw [fwd_exit hji, fwd_entry (by omega)]
      exact ih (by omega) j (by omega)

/-- **Both walks leave a linked chain linked.**  The backward one may go further than the forward one if that starts at
the beginning. -/
theorem Linked.walks {p i : ℕ} {e : ℕ → Seg K} (h : Linked floor n c) (hb : WalkBack floor n c i d)
    (hf : WalkForward n d p (n - 1) e) (hn : 0 < n) (hp : p < i ∨ p = 0) : Linked floor n e where
  join j hj := by
    refine hf.join (by omega) (fun k hk => ?_) j (by omega)
    rcases hp with hp | rfl
    · have hle := hb.le
      rw [hb.rest (by omega), hb.rest (by omega)]
      exact h.join k (by omega)
    · exact absurd hk (Nat.not_lt_zero k)
  last j hj := by
    rw [hf.exit_eq (by omega) (by omega)]
    exact hb.last hj (h.last j hj)

end Walks

/-! ### Chains that can brake -/

theorem WalkBack.braking {i : ℕ} (h : WalkBack floor n c i d) (hc : Braking floor n c) : Braking floor n d := by
  induction h with
  | start he => exact hc.congr he
  | step h he ih => exact (ih.back h.le).congr he

theorem WalkForward.joined {p i : ℕ} (h : WalkForward n c p i d) (hj : JoinedUpTo p c) (hc : Braking floor n c)
    (hp : p < n) : JoinedUpTo i d ∧ Braking floor n d := by
  induction h with
  | start he => exact ⟨hj.congr fun j hle => he j (by omega), hc.congr he⟩
  | step _ hi he ih =>
    obtain ⟨hj1, hb1⟩ := ih.1.fwd ih.2 hi
    exact ⟨hj1.congr fun j hle => he j (by omega), hb1.congr he⟩

/-- **Both walks leave a feasible chain feasible.** -/
theorem Feasible.walks {p i : ℕ} {e : ℕ → Seg K} (h : Feasible floor n c) (hr : ∀ j, j < n → 0 ≤ (c j).reach)
    (hb : WalkBack floor n c i d) (hf : WalkForward n d p (n - 1) e) (hn : 0 < n) (hp : p < i ∨ p = 0) :
    Feasible floor n e := by
  have hpn : p < n := by
    have hle := hb.le
    omega
  have hj : JoinedUpTo p d := by
    rcases hp with hp | rfl
    · exact (h.joined hpn).congr fun j hj => hb.rest (by omega)
    · exact fun j hj => absurd hj (Nat.not_lt_zero j)
  obtain ⟨hje, hbe⟩ := hf.joined hj (hb.braking (h.braking hr)) hpn
  refine hbe.feasible fun q hq => ?_
  rw [show q = n - 1 by omega]
  exact hje

theorem WalkBack.le_entry {j : ℕ} (h : WalkBack floor n c 0 d) (hc : Braking floor n c) (hj : j < n) :
    (c j).entry ≤ (d j).entry := by
  obtain ⟨m, hm⟩ : ∃ m, j + (m + 1) = n := ⟨n - j - 1, by omega⟩
  induction m generalizing j with
  | zero =>
    rw [h.entry_eq (Nat.zero_le j) (by omega), nextEntry_last hm]
    split_ifs
    · exact le_rfl
    · exact le_min (hc.brakeLast j hm) (hc.cap j (by omega))
  | succ m ih =>
    have hnext := ih (show j + 1 < n by omega) (by omega)
    have hbrake := hc.brake j (by omega)
    rw [h.entry_eq (Nat.zero_le j) (by omega), nextEntry_of_lt (by omega)]
    split_ifs
    · exact le_rfl
    · exact le_min (by linarith) (hc.cap j (by omega))

/-- **Exactly the settled segments** keep their entry. -/
theorem WalkBack.entry_eq_iff {m j : ℕ} (h : WalkBack floor n c 0 d) (hc : Braking floor n c) (hm : j + (m + 1) = n) :
    (d j).entry = (c j).entry ↔ Settled floor c (m + 1) j := by
  refine ⟨fun heq => ?_, h.entry_of_settled (Nat.zero_le j) hm⟩
  induction m generalizing j with
  | zero =>
    rw [h.entry_eq (Nat.zero_le j) (by omega), nextEntry_last hm] at heq
    unfold Settled
    rw [nextEntry_last rfl]
    split_ifs at heq with hcap
    · exact Or.inl hcap
    · exact Or.inr ⟨heq.symm, trivial⟩
  | succ m ih =>
    have hle := h.le_entry hc (show j + 1 < n by omega)
    have hbrake := hc.brake j (by omega)
    have hlim := hc.cap j (by omega)
    rw [h.entry_eq (Nat.zero_le j) (by omega), nextEntry_of_lt (by omega)] at heq
    unfold Settled
    rw [nextEntry_of_lt (by omega)]
    split_ifs at heq with hcap
    · exact Or.inl hcap
    · -- below its cap the segment brakes to an entry that has not been raised
      have hlt : (c j).entry < (c j).cap := lt_of_le_of_ne hlim hcap
      have hreach : (d (j + 1)).entry + (c j).reach = (c j).entry := by
        rcases min_choice ((d (j + 1)).entry + (c j).reach) (c j).cap with hmin | hmin
        · rw [← hmin, heq]
        · exact absurd (hmin.symm.trans heq).symm hcap
      have hsame : (d (j + 1)).entry = (c (j + 1)).entry := le_antisymm (by linarith) hle
      refine Or.inr ⟨?_, ih (by omega) hsame⟩
      rw [← hsame]
      exact heq.symm

end Cxsw.LookAhead
