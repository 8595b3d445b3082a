import Mathlib.Data.List.Sort
import Mathlib.Data.Nat.ModEq
import Mathlib.Data.List.Range
import Cxsw.Lib.Run

/-!
# Cxsw.Lib.GoBackN — a sender that goes back to what was not received

A sender numbers its frames, keeps those that are not acknowledged, at most `W` of them, and sends all of these again
when it likes.  The receiver takes the frame that it expects, drops the others, and answers with the number that it
expects.  Both lines keep the order and may lose anything at any time.  The receiver need not expect the sender's first
number: the first answer tells the sender where to go on.

* `State`, `Step`: the two sides and the two lines.  `Inv`: what every run keeps.
* `made_eq`: the receiver takes the frames from the first expected one on, in order, each once.
* `number_of_residue`, `recover_answer`: both sides need the numbers modulo `M` only, where `W < M`.
* `Complete.step`, `settled`: whatever was lost, once the frames are sent again and nothing is lost from then on,
  everything is received and acknowledged when the lines are empty.
-/

namespace Cxsw.GoBackN

/-! ## The two sides and the two lines -/

/-- Frames are pairs of a number and their contents. -/
structure State (α : Type*) where
  /-- All frames that were ever made. -/
  made : List (ℕ × α)
  /-- The number of the next frame. -/
  next : ℕ
  /-- The first number that is not acknowledged. -/
  base : ℕ
  /-- Frames on their way. -/
  line : List (ℕ × α)
  /-- The number that the receiver expects. -/
  expected : ℕ
  /-- What the receiver took. -/
  taken : List α
  /-- Answers on their way. -/
  answers : List ℕ

variable {α : Type*}

namespace State

/-- The frames that are kept to be sent again. -/
def unacked (s : State α) : List (ℕ × α) := s.made.filter fun p => s.base ≤ p.1

def send (s : State α) (a : α) : State α :=
  { s with made := s.made ++ [(s.next, a)], next := s.next + 1, line := s.line ++ [(s.next, a)] }

def resend (s : State α) : State α := { s with line := s.line ++ s.unacked }

/-- The receiver gets a frame. -/
def receive (s : State α) (p : ℕ × α) : State α :=
  if p.1 = s.expected then { s with expected := s.expected + 1, taken := s.taken ++ [p.2] } else s

def answer (s : State α) : State α := { s with answers := s.answers ++ [s.expected] }

/-- The sender gets an answer.  One from ahead of everything that was sent is where it goes on. -/
def hear (s : State α) (k : ℕ) : State α := { s with base := k, next := max s.next k }

/-- Where a run starts: the sender at `lo`, the receiver at `first`. -/
def start (lo first : ℕ) : State α := ⟨[], lo, lo, [], first, [], []⟩

end State

/-- What can happen. -/
inductive Label (α : Type*)
  | send (a : α)
  | resend
  | deliver
  | lose
  | answer
  | loseAnswer
  | hear

/-- The steps, with a window of `W` frames. -/
inductive Step (W : ℕ) : State α → Label α → State α → Prop
  | send {s : State α} (a : α) (h : s.next < s.base + W) : Step W s (.send a) (s.send a)
  | resend {s : State α} : Step W s .resend s.resend
  | deliver {s : State α} {p : ℕ × α} {rest : List (ℕ × α)} (h : s.line = p :: rest) :
      Step W s .deliver ({ s with line := rest }.receive p)
  | lose {s : State α} {line : List (ℕ × α)} (h : line.Sublist s.line) : Step W s .lose { s with line := line }
  | answer {s : State α} : Step W s .answer s.answer
  | loseAnswer {s : State α} {answers : List ℕ} (h : answers.Sublist s.answers) :
      Step W s .loseAnswer { s with answers := answers }
  | hear {s : State α} {k : ℕ} {rest : List ℕ} (h : s.answers = k :: rest) :
      Step W s .hear ({ s with answers := rest }.hear k)

/-- What the sender keeps, whatever it hears. -/
structure Sender (W : ℕ) (made : List (ℕ × α)) (base next : ℕ) : Prop where
  base_le_next : base ≤ next
  next_le : next ≤ base + W
  made_lt : ∀ p ∈ made, p.1 < next
  made_sorted : made.Pairwise fun p q => p.1 < q.1
  unacked_range : (made.filter fun p => base ≤ p.1).map Prod.fst = List.range' base (next - base)

/-- What every run keeps, for numbers modulo `M`. -/
structure Inv (W M lo first : ℕ) (s : State α) : Prop where
  sender : Sender W s.made s.base s.next
  base_le_expected : s.base ≤ s.expected
  first_le : first ≤ s.expected
  /-- The receiver is not ahead of the sender, once the sender heard of it. -/
  expected_le : s.expected ≤ s.next ∨ (s.base = lo ∧ s.expected = first)
  line_made : ∀ p ∈ s.line, p ∈ s.made
  /-- A frame on its way is not so old that its number comes again. -/
  line_near : ∀ p ∈ s.line, s.expected < p.1 + M
  line_order : s.line.Pairwise fun p q => p.1 + 1 < q.1 + M
  answers_mem : ∀ k ∈ s.answers, s.base ≤ k ∧ first ≤ k ∧ k ≤ s.expected
  answers_sorted : s.answers.Pairwise (· ≤ ·)
  taken_eq : s.taken = (s.made.filter fun p => first ≤ p.1 ∧ p.1 < s.expected).map Prod.snd

/-! ## Sorted frames -/

section Sorted

variable {made : List (ℕ × α)} {k m n : ℕ} {p : ℕ × α}

/-- The frames below a number are before those from there on. -/
theorem filter_split (h : made.Pairwise fun p q => p.1 < q.1) (n : ℕ) :
    (made.filter fun p => p.1 < n) ++ (made.filter fun p => n ≤ p.1) = made := by
  induction made with
  | nil => rfl
  | cons p made ih =>
    obtain ⟨hp, h⟩ := List.pairwise_cons.mp h
    by_cases hn : p.1 < n
    · rw [List.filter_cons_of_pos (by simpa using hn), List.filter_cons_of_neg (by simpa using hn),
        List.cons_append, ih h]
    · have hmade : (made.filter fun p => p.1 < n) = [] := by
        refine List.filter_eq_nil_iff.mpr fun q hq => ?_
        have := hp q hq
        rw [decide_eq_true_iff]
        omega
      have htail := ih h
      rw [hmade, List.nil_append] at htail
      rw [List.filter_cons_of_neg (by simpa using hn), List.filter_cons_of_pos (by simpa using hn), hmade, htail,
        List.nil_append]

theorem filter_lt_prefix (h : made.Pairwise fun p q => p.1 < q.1) (n : ℕ) :
    (made.filter fun p => p.1 < n) <+: made := ⟨_, filter_split h n⟩

theorem filter_le_suffix (h : made.Pairwise fun p q => p.1 < q.1) (n : ℕ) :
    (made.filter fun p => n ≤ p.1) <:+ made := ⟨_, filter_split h n⟩

theorem filter_and_eq (made : List (ℕ × α)) {n k : ℕ} (m : ℕ) (h : n ≤ k) :
    (made.filter fun p => m ≤ p.1 ∧ p.1 < n) = (made.filter fun p => m ≤ p.1 ∧ p.1 < k).filter fun p => p.1 < n := by
  rw [List.filter_filter]
  refine List.filter_congr fun p _ => ?_
  rw [Bool.eq_iff_iff, Bool.and_eq_true, decide_eq_true_iff, decide_eq_true_iff, decide_eq_true_iff]
  omega

/-- Between two numbers there is a front part of what is between the first one and a later one. -/
theorem filter_and_mono (h : made.Pairwise fun p q => p.1 < q.1) {n k : ℕ} (m : ℕ) (hnk : n ≤ k) :
    (made.filter fun p => m ≤ p.1 ∧ p.1 < n) <+: made.filter fun p => m ≤ p.1 ∧ p.1 < k := by
  rw [filter_and_eq made m hnk]
  exact filter_lt_prefix (h.filter _) n

/-- The frames below a number, from there to another one, and behind. -/
theorem filter_three (h : made.Pairwise fun p q => p.1 < q.1) {m n : ℕ} (hmn : m ≤ n) :
    (made.filter fun p => p.1 < m) ++ (made.filter fun p => m ≤ p.1 ∧ p.1 < n) ++ (made.filter fun p => n ≤ p.1) =
      made := by
  have hmid := filter_split (h.filter fun p => m ≤ p.1) n
  rw [List.filter_filter, List.filter_filter] at hmid
  have h1 : (made.filter fun p => decide (p.1 < n) && decide (m ≤ p.1)) = made.filter fun p => m ≤ p.1 ∧ p.1 < n :=
    List.filter_congr fun p _ => by rw [Bool.decide_and, Bool.and_comm]
  have h2 : (made.filter fun p => decide (n ≤ p.1) && decide (m ≤ p.1)) = made.filter fun p => n ≤ p.1 := by
    refine List.filter_congr fun p _ => ?_
    rw [Bool.eq_iff_iff, Bool.and_eq_true, decide_eq_true_iff, decide_eq_true_iff]
    omega
  rw [h1, h2] at hmid
  rw [List.append_assoc, hmid, filter_split h m]

theorem filter_succ (h : made.Pairwise fun p q => p.1 < q.1) (hp : p ∈ made) (hm : m ≤ p.1) :
    (made.filter fun q => m ≤ q.1 ∧ q.1 < p.1 + 1) = (made.filter fun q => m ≤ q.1 ∧ q.1 < p.1) ++ [p] := by
  induction made with
  | nil => simp at hp
  | cons q made ih =>
    obtain ⟨hq, h⟩ := List.pairwise_cons.mp h
    rcases List.mem_cons.mp hp with rfl | hp
    · have hnone : ∀ n ≤ p.1 + 1, (made.filter fun q => m ≤ q.1 ∧ q.1 < n) = [] := by
        intro n hn
        refine List.filter_eq_nil_iff.mpr fun q hmem => ?_
        have := hq q hmem
        simp only [decide_eq_true_eq]
        omega
      rw [List.filter_cons_of_pos (by simpa using hm), List.filter_cons_of_neg (by simp), hnone _ (le_refl _),
        hnone _ (Nat.le_succ _), List.nil_append]
    · have hlt := hq p hp
      by_cases hqm : m ≤ q.1
      · rw [List.filter_cons_of_pos (by simp only [decide_eq_true_eq]; omega),
          List.filter_cons_of_pos (by simp only [decide_eq_true_eq]; omega), ih h hp, List.cons_append]
      · rw [List.filter_cons_of_neg (by simp only [decide_eq_true_eq]; omega),
          List.filter_cons_of_neg (by simp only [decide_eq_true_eq]; omega), ih h hp]

/-- Of consecutive numbers, those from a later one on are the ones behind the first few. -/
theorem filter_eq_drop (h : made.map Prod.fst = List.range' m n) (hmk : m ≤ k) :
    (made.filter fun p => k ≤ p.1) = made.drop (k - m) := by
  induction made generalizing m n with
  | nil => rw [List.drop_nil, List.filter_nil]
  | cons p made ih =>
    cases n with
    | zero => simp at h
    | succ n =>
      rw [List.map_cons, List.range'_succ, List.cons.injEq] at h
      rcases Nat.eq_or_lt_of_le hmk with rfl | hlt
      · rw [Nat.sub_self, List.drop_zero]
        refine List.filter_eq_self.mpr fun q hq => ?_
        rcases List.mem_cons.mp hq with rfl | hq
        · simp [h.1]
        · have hmem : q.1 ∈ List.range' (m + 1) n := h.2 ▸ List.mem_map_of_mem hq
          rw [List.mem_range'_1] at hmem
          simp only [decide_eq_true_eq]
          omega
      · have hsub : k - m = (k - (m + 1)) + 1 := by omega
        rw [List.filter_cons_of_neg (by simp only [decide_eq_true_eq]; omega), ih h.2 hlt, hsub, List.drop_succ_cons]

end Sorted

/-! ## The sender -/

section Senders

variable {W base next : ℕ} {made : List (ℕ × α)}

theorem sender_start (lo : ℕ) : Sender W ([] : List (ℕ × α)) lo lo :=
  ⟨le_refl _, Nat.le_add_right _ _, fun _ hp => absurd hp List.not_mem_nil, List.Pairwise.nil, by simp⟩

theorem Sender.send (h : Sender W made base next) (hs : next < base + W) (a : α) :
    Sender W (made ++ [(next, a)]) base (next + 1) := by
  have hbase := h.base_le_next
  refine ⟨Nat.le_succ_of_le hbase, hs, fun p hp => ?_, ?_, ?_⟩
  · rcases List.mem_append.mp hp with hp | hp
    · exact Nat.lt_succ_of_lt (h.made_lt p hp)
    · rw [List.mem_singleton.mp hp]
      exact Nat.lt_succ_self _
  · refine List.pairwise_append.mpr ⟨h.made_sorted, List.pairwise_singleton _ _, fun p hp q hq => ?_⟩
    rw [List.mem_singleton.mp hq]
    exact h.made_lt p hp
  · have hlen : next + 1 - base = (next - base) + 1 := by omega
    rw [List.filter_append, List.map_append, h.unacked_range, hlen, List.range'_concat,
      List.filter_cons_of_pos (by simpa using hbase)]
    simp [Nat.add_sub_cancel' hbase]

/-- What stays unacknowledged is behind what is acknowledged. -/
theorem Sender.unacked_hear (h : Sender W made base next) {k : ℕ} (hk : base ≤ k) :
    (made.filter fun p => k ≤ p.1) = (made.filter fun p => base ≤ p.1).drop (k - base) := by
  rw [← filter_eq_drop h.unacked_range hk, List.filter_filter]
  refine List.filter_congr fun p _ => ?_
  rw [Bool.eq_iff_iff]
  simp only [Bool.and_eq_true, decide_eq_true_eq]
  omega

theorem Sender.hear (h : Sender W made base next) {k : ℕ} (hk : base ≤ k) : Sender W made k (max next k) := by
  have hnext := h.next_le
  refine ⟨le_max_right _ _, by omega, fun p hp => lt_of_lt_of_le (h.made_lt p hp) (le_max_left _ _), h.made_sorted, ?_⟩
  have hlen : max next k - k = next - base - (k - base) := by omega
  rw [h.unacked_hear hk, List.map_drop, h.unacked_range, List.drop_range', hlen]
  congr 1
  omega

end Senders

/-! ## The invariant -/

section Invariant

variable {W M lo first : ℕ} {s t : State α} {l : Label α}

theorem inv_start (h : lo ≤ first) : Inv W M lo first (State.start lo first : State α) := by
  refine ⟨sender_start lo, h, le_refl _, Or.inr ⟨rfl, rfl⟩, ?_, ?_, List.Pairwise.nil, ?_, List.Pairwise.nil, rfl⟩
  · exact fun p hp => absurd hp List.not_mem_nil
  · exact fun p hp => absurd hp List.not_mem_nil
  · exact fun k hk => absurd hk List.not_mem_nil

/-- The receiver is never so far ahead that the sender's numbers come again. -/
theorem Inv.expected_lt (h : Inv W M lo first s) (hW : W < M) (hfirst : first < lo + M) : s.expected < s.base + M := by
  have := h.sender.next_le
  rcases h.expected_le with h' | ⟨hb, he⟩ <;> omega

/-- New frames on the line are behind the others, and near. -/
theorem Inv.append_line (h : Inv W M lo first s) (hW : W < M) (hfirst : first < lo + M) (new : List (ℕ × α))
    (hnew : ∀ q ∈ new, s.base ≤ q.1 ∧ q.1 ≤ s.next) :
    (∀ p ∈ s.line ++ new, s.expected < p.1 + M) ∧
      ((new.Pairwise fun p q => p.1 < q.1) → (s.line ++ new).Pairwise fun p q => p.1 + 1 < q.1 + M) := by
  have hexp := h.expected_lt hW hfirst
  have hnext := h.sender.next_le
  constructor
  · intro p hp
    rcases List.mem_append.mp hp with hp | hp
    · exact h.line_near p hp
    · have := hnew p hp
      omega
  · intro hsorted
    refine List.pairwise_append.mpr ⟨h.line_order, hsorted.imp (by omega), fun p hp q hq => ?_⟩
    have hlt := h.sender.made_lt p (h.line_made p hp)
    have := hnew q hq
    omega

theorem Inv.send (h : Inv W M lo first s) (hW : W < M) (hfirst : first < lo + M) (a : α) (hs : s.next < s.base + W) :
    Inv W M lo first (s.send a) := by
  have hbase := h.sender.base_le_next
  obtain ⟨hnear, horder⟩ := h.append_line hW hfirst [(s.next, a)] (by simp [hbase])
  refine ⟨h.sender.send hs a, h.base_le_expected, h.first_le, h.expected_le.imp_left Nat.le_succ_of_le, ?_, hnear,
    horder (List.pairwise_singleton _ _), h.answers_mem, h.answers_sorted, ?_⟩
  · intro p hp
    rcases List.mem_append.mp hp with hp | hp
    · exact List.mem_append_left _ (h.line_made p hp)
    · exact List.mem_append_right _ hp
  · change s.taken = ((s.made ++ [(s.next, a)]).filter fun p => first ≤ p.1 ∧ p.1 < s.expected).map Prod.snd
    rw [List.filter_append, h.taken_eq]
    have hahead : ¬ (first ≤ s.next ∧ s.next < s.expected) := by
      -- a receiver that is ahead waits for its first number still
      rcases h.expected_le with hle | ⟨-, he⟩ <;> omega
    rw [List.filter_cons_of_neg (by rw [decide_eq_true_iff]; exact hahead), List.filter_nil, List.append_nil]

theorem Inv.resend (h : Inv W M lo first s) (hW : W < M) (hfirst : first < lo + M) : Inv W M lo first s.resend := by
  have hmem : ∀ q ∈ s.unacked, q ∈ s.made ∧ s.base ≤ q.1 := by
    intro q hq
    simpa [State.unacked] using hq
  obtain ⟨hnear, horder⟩ := h.append_line hW hfirst s.unacked
    fun q hq => ⟨(hmem q hq).2, (h.sender.made_lt q (hmem q hq).1).le⟩
  refine ⟨h.sender, h.base_le_expected, h.first_le, h.expected_le, ?_, hnear, horder (h.sender.made_sorted.filter _),
    h.answers_mem, h.answers_sorted, h.taken_eq⟩
  intro p hp
  rcases List.mem_append.mp hp with hp | hp
  · exact h.line_made p hp
  · exact (hmem p hp).1

theorem Inv.deliver (h : Inv W M lo first s) {p : ℕ × α} {rest : List (ℕ × α)} (hline : s.line = p :: rest) :
    Inv W M lo first ({ s with line := rest }.receive p) := by
  have hmade := hline ▸ h.line_made
  have hnear := hline ▸ h.line_near
  obtain ⟨hbehind, horder⟩ := List.pairwise_cons.mp (hline ▸ h.line_order)
  have hrest : ∀ q ∈ rest, q ∈ s.made := fun q hq => hmade q (List.mem_cons_of_mem _ hq)
  unfold State.receive
  split_ifs with hp
  · simp only at hp
    have hpmade := hmade p List.mem_cons_self
    have hlt := h.sender.made_lt p hpmade
    have hbe := h.base_le_expected
    have hfe := h.first_le
    refine ⟨h.sender, Nat.le_succ_of_le hbe, Nat.le_succ_of_le hfe, Or.inl (hp ▸ hlt), hrest, ?_, horder, ?_,
      h.answers_sorted, ?_⟩
    · intro q hq
      have := hbehind q hq
      simp only
      omega
    · intro k hk
      obtain ⟨h1, h2, h3⟩ := h.answers_mem k hk
      exact ⟨h1, h2, Nat.le_succ_of_le h3⟩
    · simp only
      rw [← hp, filter_succ h.sender.made_sorted hpmade (hp ▸ hfe), List.map_append, h.taken_eq, hp]
      rfl
  · exact ⟨h.sender, h.base_le_expected, h.first_le, h.expected_le, hrest,
      fun q hq => hnear q (List.mem_cons_of_mem _ hq), horder, h.answers_mem, h.answers_sorted, h.taken_eq⟩

theorem Inv.lose (h : Inv W M lo first s) {line : List (ℕ × α)} (hline : line.Sublist s.line) :
    Inv W M lo first { s with line := line } :=
  { h with
    line_made := fun p hp => h.line_made p (hline.subset hp)
    line_near := fun p hp => h.line_near p (hline.subset hp)
    line_order := h.line_order.sublist hline }

theorem Inv.answer (h : Inv W M lo first s) : Inv W M lo first s.answer :=
  { h with
    answers_mem := by
      intro k hk
      rcases List.mem_append.mp hk with hk | hk
      · exact h.answers_mem k hk
      · rw [List.mem_singleton.mp hk]
        exact ⟨h.base_le_expected, h.first_le, le_refl _⟩
    answers_sorted := by
      refine List.pairwise_append.mpr ⟨h.answers_sorted, List.pairwise_singleton _ _, fun k hk j hj => ?_⟩
      rw [List.mem_singleton.mp hj]
      exact (h.answers_mem k hk).2.2 }

theorem Inv.loseAnswer (h : Inv W M lo first s) {answers : List ℕ} (ha : answers.Sublist s.answers) :
    Inv W M lo first { s with answers := answers } :=
  { h with
    answers_mem := fun k hk => h.answers_mem k (ha.subset hk)
    answers_sorted := h.answers_sorted.sublist ha }

theorem Inv.hear (h : Inv W M lo first s) {k : ℕ} {rest : List ℕ} (ha : s.answers = k :: rest) :
    Inv W M lo first ({ s with answers := rest }.hear k) := by
  obtain ⟨hk, hsorted⟩ := List.pairwise_cons.mp (ha ▸ h.answers_sorted)
  have hmem := ha ▸ h.answers_mem
  obtain ⟨hbk, hfk, hke⟩ := hmem k List.mem_cons_self
  unfold State.hear
  refine ⟨h.sender.hear hbk, hke, h.first_le, ?_, h.line_made, h.line_near, h.line_order, ?_, hsorted, h.taken_eq⟩
  · rcases h.expected_le with he | ⟨-, he⟩ <;> exact Or.inl (by simp only; omega)
  · intro j hj
    obtain ⟨-, h2, h3⟩ := hmem j (List.mem_cons_of_mem _ hj)
    exact ⟨hk j hj, h2, h3⟩

/-- **One step keeps the invariant.** -/
theorem Inv.step (h : Inv W M lo first s) (hW : W < M) (hfirst : first < lo + M) (hs : Step W s l t) :
    Inv W M lo first t := by
  cases hs with
  | send a hroom => exact h.send hW hfirst a hroom
  | resend => exact h.resend hW hfirst
  | deliver hline => exact h.deliver hline
  | lose hline => exact h.lose hline
  | answer => exact h.answer
  | loseAnswer ha => exact h.loseAnswer ha
  | hear ha => exact h.hear ha

end Invariant

/-! ## What the invariant says -/

section Consequences

variable {W M lo first : ℕ} {s : State α}

/-- **In order, each once, without a gap**: the frames are those before the receiver's first number, those that it
took, and those that it did not take yet, which the sender keeps. -/
theorem made_eq (h : Inv W M lo first s) :
    ∃ before took after, s.made = before ++ took ++ after ∧ s.taken = took.map Prod.snd ∧
      (∀ p ∈ before, p.1 < first) ∧ ∀ p ∈ after, s.base ≤ p.1 := by
  refine ⟨_, _, _, (filter_three h.sender.made_sorted h.first_le).symm, h.taken_eq, fun p hp => ?_, fun p hp => ?_⟩
  · simpa using List.of_mem_filter hp
  · have := List.of_mem_filter hp
    rw [decide_eq_true_iff] at this
    exact le_trans h.base_le_expected this

/-- **The receiver knows a number by its residue.** -/
theorem number_of_residue (h : Inv W M lo first s) (hW : W < M) {p : ℕ × α} {rest : List (ℕ × α)}
    (hline : s.line = p :: rest) : p.1 % M = s.expected % M ↔ p.1 = s.expected := by
  have hp : p ∈ s.line := hline ▸ List.mem_cons_self
  have hnear := h.line_near p hp
  have hlt := h.sender.made_lt p (h.line_made p hp)
  have hnext := h.sender.next_le
  have hbe := h.base_le_expected
  constructor
  · intro hmod
    -- the two are less than `M` apart
    rcases le_total p.1 s.expected with hle | hle
    · have hdvd : M ∣ s.expected - p.1 := (Nat.modEq_iff_dvd' hle).mp hmod
      have hzero : s.expected - p.1 = 0 := Nat.eq_zero_of_dvd_of_lt hdvd (by omega)
      omega
    · have hdvd : M ∣ p.1 - s.expected := (Nat.modEq_iff_dvd' hle).mp hmod.symm
      have hzero : p.1 - s.expected = 0 := Nat.eq_zero_of_dvd_of_lt hdvd (by omega)
      omega
  · exact fun he => by rw [he]

/-- The first number from `base` on with a residue, as the sender finds it. -/
def recover (M base r : ℕ) : ℕ :=
  let k := base - base % M + r
  if k < base then k + M else k

theorem recover_eq {M base k : ℕ} (hb : base ≤ k) (hk : k < base + M) : recover M base (k % M) = k := by
  have hM : 0 < M := by omega
  have hbm := Nat.mod_lt base hM
  have hkm := Nat.mod_lt k hM
  have hbase := Nat.div_add_mod base M
  have hkdiv := Nat.div_add_mod k M
  have hsub : base - base % M = M * (base / M) := by omega
  unfold recover
  simp only [hsub]
  -- the quotients are equal, or one apart
  rcases Nat.lt_or_ge (k / M) (base / M + 1) with hq | hq
  · have heq : k / M = base / M := le_antisymm (Nat.lt_succ_iff.mp hq) (Nat.div_le_div_right hb)
    rw [heq] at hkdiv
    rw [if_neg (by omega), hkdiv]
  · have hle : k / M ≤ base / M + 1 := by
      rw [← Nat.add_div_right base hM]
      exact Nat.div_le_div_right hk.le
    have heq : k / M = base / M + 1 := le_antisymm hle hq
    rw [heq, Nat.mul_add, Nat.mul_one] at hkdiv
    rw [if_pos (by omega)]
    omega

/-- **The sender knows an answer by its residue.** -/
theorem recover_answer (h : Inv W M lo first s) (hW : W < M) (hfirst : first < lo + M) {k : ℕ} (hk : k ∈ s.answers) :
    recover M s.base (k % M) = k := by
  obtain ⟨h1, -, h3⟩ := h.answers_mem k hk
  exact recover_eq h1 (lt_of_le_of_lt h3 (h.expected_lt hW hfirst))

end Consequences

/-! ## The way on -/

section Progress

variable {W M lo first : ℕ} {s t : State α} {l : Label α}

/-- The end of the line takes the receiver to the number of the next frame. -/
def Complete (s : State α) : Prop :=
  ∃ (front back : List (ℕ × α)) (m : ℕ), s.line = front ++ back ∧ back.map Prod.fst = List.range' m (s.next - m) ∧
    m ≤ s.expected ∧ m ≤ s.next

/-- The last that the sender heard, or will hear, is what the receiver expects. -/
def Told (s : State α) : Prop := s.answers.getLast?.getD s.base = s.expected

theorem complete_resend (h : Inv W M lo first s) : Complete s.resend :=
  ⟨s.line, s.unacked, s.base, rfl, h.sender.unacked_range, h.base_le_expected, h.sender.base_le_next⟩

theorem Complete.deliver (h : Complete s) {p : ℕ × α} {rest : List (ℕ × α)} (hline : s.line = p :: rest) :
    Complete ({ s with line := rest }.receive p) := by
  obtain ⟨front, back, m, hsplit, hback, hm, hmn⟩ := h
  have hkeep : ∀ q : ℕ × α, ({ s with line := rest }.receive q : State α).line = rest ∧
      ({ s with line := rest }.receive q : State α).next = s.next ∧
      s.expected ≤ ({ s with line := rest }.receive q : State α).expected ∧
      (q.1 = s.expected → ({ s with line := rest }.receive q : State α).expected = s.expected + 1) := by
    intro q
    unfold State.receive
    split_ifs with hq
    · exact ⟨rfl, rfl, Nat.le_succ _, fun _ => rfl⟩
    · exact ⟨rfl, rfl, le_refl _, fun h => absurd h hq⟩
  obtain ⟨hl, hn, hle, htake⟩ := hkeep p
  rw [hline] at hsplit
  cases front with
  | cons q front =>
    obtain ⟨-, hrest⟩ := List.cons.inj hsplit
    exact ⟨front, back, m, hl.trans hrest, by rw [hn]; exact hback, le_trans hm hle, by rw [hn]; exact hmn⟩
  | nil =>
    -- the first of the frames that take the receiver along
    rw [List.nil_append] at hsplit
    rw [← hsplit] at hback
    obtain ⟨d, hd⟩ : ∃ d, s.next - m = d + 1 := by
      cases hd : s.next - m with
      | zero =>
        rw [hd] at hback
        simp at hback
      | succ d => exact ⟨d, rfl⟩
    rw [hd, List.map_cons, List.range'_succ, List.cons.injEq] at hback
    refine ⟨[], rest, m + 1, hl, ?_, ?_, by omega⟩
    · rw [hback.2, hn]
      congr 1
      omega
    · rcases Nat.eq_or_lt_of_le hm with he | hlt
      · rw [htake (hback.1.trans he)]
        omega
      · omega

/-- **Where nothing more is lost on the way to the receiver**, the line still takes it to the end, whatever else
happens. -/
theorem Complete.step (h : Complete s) (hi : Inv W M lo first s) (hs : Step W s l t) (hl : l ≠ .lose) : Complete t := by
  cases hs with
  | send a hroom =>
    obtain ⟨front, back, m, hsplit, hback, hm, hmn⟩ := h
    refine ⟨front, back ++ [(s.next, a)], m, ?_, ?_, hm, Nat.le_succ_of_le hmn⟩
    · simp only [State.send, hsplit, List.append_assoc]
    · have hlen : s.next + 1 - m = (s.next - m) + 1 := by omega
      simp only [State.send, List.map_append, hback, hlen, List.range'_concat, List.map_cons, List.map_nil]
      rw [Nat.one_mul, Nat.add_sub_cancel' hmn]
  | resend => exact complete_resend hi
  | deliver hline => exact h.deliver hline
  | lose => exact absurd rfl hl
  | answer => exact h
  | loseAnswer => exact h
  | @hear k rest ha =>
    obtain ⟨front, back, m, hsplit, hback, hm, hmn⟩ := h
    rcases le_total k s.next with hk | hk
    · have hnext : max s.next k = s.next := max_eq_left hk
      refine ⟨front, back, m, hsplit, ?_, hm, ?_⟩
      · simp only [State.hear, hnext]
        exact hback
      · simp only [State.hear, hnext]
        exact hmn
    · -- the sender goes on where the receiver is
      have hmem := (hi.answers_mem k (ha ▸ List.mem_cons_self)).2.2
      refine ⟨s.line, [], k, (List.append_nil _).symm, ?_, hmem, le_max_right _ _⟩
      simp [State.hear, max_eq_right hk]

/-- At the end of the line the receiver has everything. -/
theorem Complete.next_le (h : Complete s) (hline : s.line = []) : s.next ≤ s.expected := by
  obtain ⟨front, back, m, hsplit, hback, hm, -⟩ := h
  rw [hline, eq_comm, List.append_eq_nil_iff] at hsplit
  rw [hsplit.2] at hback
  have hlen := congrArg List.length hback
  simp only [List.map_nil, List.length_nil, List.length_range'] at hlen
  omega

theorem told_answer (s : State α) : Told s.answer := by
  unfold Told State.answer
  simp

theorem Told.hear (h : Told s) {k : ℕ} {rest : List ℕ} (ha : s.answers = k :: rest) :
    Told ({ s with answers := rest }.hear k) := by
  unfold Told at h ⊢
  rw [ha] at h
  cases rest with
  | nil => exact h
  | cons j rest =>
    rw [List.getLast?_cons_cons] at h
    rw [State.hear]
    rw [List.getLast?_eq_some_getLast (List.cons_ne_nil j rest)] at h ⊢
    exact h

/-- **Everything arrived and is acknowledged**, where the lines are empty. -/
theorem settled (h : Inv W M lo first s) (hc : Complete s) (ht : Told s) (hline : s.line = []) (hans : s.answers = []) :
    s.base = s.next ∧ s.taken = (s.made.filter fun p => first ≤ p.1).map Prod.snd := by
  have hexp := hc.next_le hline
  have hbase : s.base = s.expected := by
    unfold Told at ht
    rw [hans] at ht
    exact ht
  refine ⟨le_antisymm h.sender.base_le_next (by omega), ?_⟩
  rw [h.taken_eq]
  refine congrArg (List.map Prod.snd) (List.filter_congr fun p hp => ?_)
  have := h.sender.made_lt p hp
  simp only [decide_eq_decide]
  omega

end Progress

end Cxsw.GoBackN
