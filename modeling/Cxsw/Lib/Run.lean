import Mathlib.Data.List.Induction

/-!
# Cxsw.Lib.Run — runs of transition systems

`Run R s ls t`: from `s` the labels `ls` lead to `t`.  `Guarded step ok` keeps the steps taken in a state
where `ok` holds of the label, so a run of it is a run all of whose steps meet `ok`; `run_congr` turns an exact
condition of one step into one of the run.  `mealy f s is` runs a
deterministic machine with outputs; `mealy_simulation` is the forward simulation rule for two such machines.
`AllSteps` is the same for a deterministic machine, where it can be decided; `AllCalls` and `foldlM_result` are for one
whose steps may have no result.  `forall_prefix_iff` gives the exact
condition of a property of every part of a run.  `outputsAt` are the outputs of a shared machine to the inputs of one
component; `outputsAt_eq` compares them with a run of the component alone.
-/

namespace Cxsw

variable {σ τ ι κ ο : Type*}

/-- Runs of a labelled transition system, extended at the end. -/
inductive Run (R : σ → ι → σ → Prop) : σ → List ι → σ → Prop
  | nil (s : σ) : Run R s [] s
  | snoc {s t u : σ} {ls : List ι} {l : ι} : Run R s ls t → R t l u → Run R s (ls ++ [l]) u

/-- The steps of `step` taken where `ok` holds. -/
def Guarded (step : σ → ι → σ → Prop) (ok : σ → ι → Prop) : σ → ι → σ → Prop :=
  fun s l t => step s l t ∧ ok s l

/-- **Invariant rule**: what holds at the start and is kept by every step holds at the end of a run. -/
theorem Run.invariant {step : σ → ι → σ → Prop} {I : σ → Prop} {s t : σ} {ls : List ι}
    (h : Run step s ls t) (h0 : I s) (hstep : ∀ t l u, I t → step t l u → I u) : I t := by
  induction h with
  | nil => exact h0
  | snoc _ hl ih => exact hstep _ _ _ ih hl

/-- The same for what is said of a state and of the labels that lead to it. -/
theorem Run.history {step : σ → ι → σ → Prop} {I : List ι → σ → Prop} {s t : σ} {ls : List ι} (h : Run step s ls t)
    (h0 : I [] s) (hstep : ∀ ls t l u, I ls t → step t l u → I (ls ++ [l]) u) : I ls t := by
  induction h with
  | nil => exact h0
  | snoc _ hl ih => exact hstep _ _ _ _ ih hl

theorem Run.append {R : σ → ι → σ → Prop} {s t u : σ} {ls ks : List ι} (h : Run R s ls t) (h' : Run R t ks u) :
    Run R s (ls ++ ks) u := by
  induction h' with
  | nil => simpa using h
  | snoc _ hl ih =>
    rw [← List.append_assoc]
    exact ih.snoc hl

theorem Run.last {R : σ → ι → σ → Prop} {s u : σ} {ls : List ι} {l : ι} (h : Run R s (ls ++ [l]) u) :
    ∃ t, Run R s ls t ∧ R t l u := by
  generalize hks : ls ++ [l] = ks at h
  cases h with
  | nil => simp at hks
  | snoc hr hl =>
    obtain ⟨h1, h2⟩ := List.append_inj' hks rfl
    cases h1
    cases h2
    exact ⟨_, hr, hl⟩

theorem Run.split {R : σ → ι → σ → Prop} {s u : σ} {ls ks : List ι} (h : Run R s (ls ++ ks) u) :
    ∃ t, Run R s ls t ∧ Run R t ks u := by
  induction ks using List.reverseRecOn generalizing u with
  | nil => exact ⟨u, by simpa using h, Run.nil u⟩
  | append_singleton ks k ih =>
    rw [← List.append_assoc] at h
    obtain ⟨t, hr, hl⟩ := h.last
    obtain ⟨m, h1, h2⟩ := ih hr
    exact ⟨m, h1, h2.snoc hl⟩

theorem Run.guarded {step : σ → ι → σ → Prop} {P : ι → Prop} {s t : σ} {ls : List ι} (h : Run step s ls t)
    (hls : ∀ l ∈ ls, P l) : Run (Guarded step fun _ l => P l) s ls t := by
  induction h with
  | nil => exact Run.nil _
  | snoc _ hl ih =>
    exact (ih fun l hm => hls l (List.mem_append_left _ hm)).snoc
      ⟨hl, hls _ (List.mem_append_right _ (List.mem_singleton_self _))⟩

/-- Steps that keep an invariant, and under it are steps of another relation. -/
theorem Run.mono_of_invariant {R S : σ → ι → σ → Prop} {I : σ → Prop} {s t : σ} {ls : List ι} (h : Run R s ls t)
    (h0 : I s) (hstep : ∀ s l t, I s → R s l t → I t ∧ S s l t) : Run S s ls t ∧ I t := by
  induction h with
  | nil => exact ⟨Run.nil _, h0⟩
  | snoc _ hl ih =>
    obtain ⟨hI, hS⟩ := hstep _ _ _ ih.2 hl
    exact ⟨ih.1.snoc hS, hI⟩

/-- Two relations with the same steps have the same runs. -/
theorem run_congr {R S : σ → ι → σ → Prop} (h : ∀ s l t, R s l t ↔ S s l t) (s : σ) (ls : List ι) (t : σ) :
    Run R s ls t ↔ Run S s ls t := by
  have heq : R = S := by
    ext s l t
    exact h s l t
  rw [heq]

/-- The same where the steps are compared under an invariant of the one relation. -/
theorem run_congr_of_invariant {R S : σ → ι → σ → Prop} {I : σ → Prop} {s : σ} (h0 : I s)
    (hiff : ∀ s l t, I s → (R s l t ↔ S s l t)) (hstep : ∀ s l t, I s → R s l t → I t) (ls : List ι) (t : σ) :
    Run R s ls t ↔ Run S s ls t := by
  constructor
  · intro h
    exact (h.mono_of_invariant h0 fun s l t hs hl => ⟨hstep s l t hs hl, (hiff s l t hs).mp hl⟩).1
  · intro h
    refine (h.mono_of_invariant h0 fun s l t hs hl => ?_).1
    have hr := (hiff s l t hs).mpr hl
    exact ⟨hstep s l t hs hr, hr⟩

/-- All steps of a deterministic machine meet `ok`. -/
def AllSteps (f : σ → ι → σ) (ok : σ → ι → Prop) : σ → List ι → Prop
  | _, [] => True
  | s, i :: is => ok s i ∧ AllSteps f ok (f s i) is

theorem allSteps_true (f : σ → ι → σ) (s : σ) (is : List ι) : AllSteps f (fun _ _ => True) s is := by
  induction is generalizing s with
  | nil => trivial
  | cons i is ih => exact ⟨trivial, ih (f s i)⟩

theorem allSteps_of_forall (f : σ → ι → σ) {P : ι → Prop} (s : σ) {is : List ι} (h : ∀ i ∈ is, P i) :
    AllSteps f (fun _ i => P i) s is := by
  induction is generalizing s with
  | nil => trivial
  | cons i is ih => exact ⟨h i List.mem_cons_self, ih (f s i) fun j hj => h j (List.mem_cons_of_mem i hj)⟩

theorem allSteps_append (f : σ → ι → σ) (ok : σ → ι → Prop) (s : σ) (is js : List ι) :
    AllSteps f ok s (is ++ js) ↔ AllSteps f ok s is ∧ AllSteps f ok (is.foldl f s) js := by
  induction is generalizing s with
  | nil => simp [AllSteps]
  | cons i is ih => simp [AllSteps, ih, and_assoc]

theorem allSteps_concat (f : σ → ι → σ) (ok : σ → ι → Prop) (s : σ) (is : List ι) (i : ι) :
    AllSteps f ok s (is ++ [i]) ↔ AllSteps f ok s is ∧ ok (is.foldl f s) i := by
  rw [allSteps_append]
  simp [AllSteps]

theorem allSteps_congr {f : σ → ι → σ} {ok ok' : σ → ι → Prop} (h : ∀ s i, ok s i ↔ ok' s i) (s : σ) (is : List ι) :
    AllSteps f ok s is ↔ AllSteps f ok' s is := by
  induction is generalizing s with
  | nil => exact Iff.rfl
  | cons i is ih => simp [AllSteps, h, ih]

theorem AllSteps.of_prefix {f : σ → ι → σ} {ok : σ → ι → Prop} {s : σ} {is pre : List ι} {i : ι}
    (h : AllSteps f ok s is) (hp : pre ++ [i] <+: is) : ok (pre.foldl f s) i := by
  obtain ⟨rest, rfl⟩ := hp
  exact ((allSteps_concat f ok s pre i).mp ((allSteps_append f ok s _ rest).mp h).1).2

/-- **Invariant rule** for such runs: under an invariant that every step keeps, the steps meet `kept` as well. -/
theorem AllSteps.of_invariant {f : σ → ι → σ} {ok kept : σ → ι → Prop} {I : σ → Prop}
    (hstep : ∀ s i, I s → ok s i → I (f s i) ∧ kept s i) {s : σ} {is : List ι} (h0 : I s)
    (h : AllSteps f ok s is) : AllSteps f kept s is := by
  induction is generalizing s with
  | nil => trivial
  | cons i is ih =>
    obtain ⟨hI, hkept⟩ := hstep s i h0 h.1
    exact ⟨hkept, ih hI h.2⟩

/-- Two conditions of a step that agree under an invariant, which the second keeps, agree on the runs whose steps are as
assumed. -/
theorem allSteps_iff_of_assumed {f : σ → ι → σ} {assumed kept ok : σ → ι → Prop} {I : σ → Prop}
    (hstep : ∀ s i, I s → assumed s i → (kept s i ↔ ok s i) ∧ (ok s i → I (f s i))) {s : σ} (h0 : I s) {is : List ι}
    (h : AllSteps f assumed s is) : AllSteps f kept s is ↔ AllSteps f ok s is := by
  induction is generalizing s with
  | nil => exact Iff.rfl
  | cons i is ih =>
    obtain ⟨hiff, hinv⟩ := hstep s i h0 h.1
    simp only [AllSteps, hiff]
    exact and_congr_right fun hok => ih (hinv hok) h.2

theorem allSteps_iff_of_invariant {f : σ → ι → σ} {kept ok : σ → ι → Prop} {I : σ → Prop}
    (hstep : ∀ s i, I s → (kept s i ↔ ok s i) ∧ (ok s i → I (f s i))) {s : σ} (h0 : I s) (is : List ι) :
    AllSteps f kept s is ↔ AllSteps f ok s is :=
  allSteps_iff_of_assumed (fun s i hI _ => hstep s i hI) h0 (allSteps_true f s is)

theorem Run.of_foldl (f : σ → ι → σ) (s : σ) (is : List ι) : Run (fun s i t => t = f s i) s is (is.foldl f s) := by
  induction is using List.reverseRecOn with
  | nil => exact Run.nil s
  | append_singleton is i ih =>
    rw [List.foldl_append]
    exact ih.snoc rfl

theorem Run.of_allSteps {f : σ → ι → σ} {ok : σ → ι → Prop} {s : σ} {is : List ι} (h : AllSteps f ok s is) :
    Run (Guarded (fun s i t => t = f s i) ok) s is (is.foldl f s) := by
  induction is using List.reverseRecOn with
  | nil => exact Run.nil s
  | append_singleton is i ih =>
    rw [allSteps_concat] at h
    rw [List.foldl_append]
    exact (ih h.1).snoc ⟨rfl, h.2⟩

instance decidableAllSteps (f : σ → ι → σ) (ok : σ → ι → Prop) [∀ s i, Decidable (ok s i)] :
    (s : σ) → (is : List ι) → Decidable (AllSteps f ok s is)
  | _, [] => isTrue trivial
  | s, i :: is =>
    have := decidableAllSteps f ok (f s i) is
    inferInstanceAs (Decidable (ok s i ∧ AllSteps f ok (f s i) is))

/-- All steps of a machine whose steps may have no result meet `ok`, as far as it runs. -/
def AllCalls (f : σ → ι → Option σ) (ok : σ → ι → Prop) : σ → List ι → Prop
  | _, [] => True
  | s, i :: is => ok s i ∧ ∀ t, f s i = some t → AllCalls f ok t is

/-- A call that may have no result: where `ok` holds it has one that meets `I`, and elsewhere it has none. -/
inductive CallResult (ok : Prop) (I : σ → Prop) : Option σ → Prop
  | done {t : σ} (hok : ok) (h : I t) : CallResult ok I (some t)
  | stuck (hok : ¬ ok) : CallResult ok I none

theorem CallResult.of_eq_some {ok : Prop} {I : σ → Prop} {r : Option σ} {t : σ} (h : CallResult ok I r)
    (hr : r = some t) : ok ∧ I t := by
  cases h with
  | done hok h =>
    cases hr
    exact ⟨hok, h⟩
  | stuck => cases hr

theorem CallResult.exists_iff {ok : Prop} {I J : σ → Prop} {r : Option σ} (h : CallResult ok I r)
    (hJ : ∀ t, I t → J t) : (∃ t, r = some t ∧ J t) ↔ ok := by
  constructor
  · rintro ⟨t, ht, -⟩
    exact (h.of_eq_some ht).1
  · intro hok
    cases h with
    | done _ h => exact ⟨_, rfl, hJ _ h⟩
    | stuck hno => exact absurd hok hno

/-- **Invariant rule** for such a machine: it runs to the end exactly where all its steps meet `ok`, and then the
invariant holds. -/
theorem foldlM_result {f : σ → ι → Option σ} {ok : σ → ι → Prop} {I : σ → Prop} {P : ι → Prop}
    (hstep : ∀ s i, I s → P i → CallResult (ok s i) I (f s i)) {s : σ} {is : List ι} (h0 : I s) (h : ∀ i ∈ is, P i) :
    CallResult (AllCalls f ok s is) I (is.foldlM f s) := by
  induction is generalizing s with
  | nil => exact .done trivial h0
  | cons i is ih =>
    rw [List.foldlM_cons]
    rcases hu : f s i with _ | u
    · have hcall := hstep s i h0 (h i List.mem_cons_self)
      rw [hu] at hcall
      cases hcall with
      | stuck hok => exact .stuck fun hall => hok hall.1
    · have hcall := hstep s i h0 (h i List.mem_cons_self)
      rw [hu] at hcall
      cases hcall with
      | done hok hI =>
        have hrest := ih hI fun j hj => h j (List.mem_cons_of_mem i hj)
        change CallResult _ I (is.foldlM f u)
        rcases ht : is.foldlM f u with _ | t
        · rw [ht] at hrest
          cases hrest with
          | stuck hno => exact .stuck fun hall => hno (hall.2 u hu)
        · rw [ht] at hrest
          cases hrest with
          | done hyes hIt => exact .done ⟨hok, fun v hv => Option.some.inj (hu.symm.trans hv) ▸ hyes⟩ hIt

theorem Run.of_foldlM {f : σ → ι → Option σ} {s t : σ} {is : List ι} (h : is.foldlM f s = some t) :
    Run (fun s i t => f s i = some t) s is t := by
  induction is using List.reverseRecOn generalizing t with
  | nil =>
    cases h
    exact Run.nil s
  | append_singleton is i ih =>
    rw [List.foldlM_append] at h
    obtain ⟨u, hu, hi⟩ := Option.bind_eq_some_iff.mp h
    rw [List.foldlM_cons] at hi
    obtain ⟨v, hv, hnil⟩ := Option.bind_eq_some_iff.mp hi
    cases hnil
    exact (ih hu).snoc hv

/-- Run of a deterministic machine: the last state and the outputs in order. -/
def mealy (f : σ → ι → σ × ο) : σ → List ι → σ × List ο
  | s, [] => (s, [])
  | s, i :: is => ((mealy f (f s i).1 is).1, (f s i).2 :: (mealy f (f s i).1 is).2)

/-- **Exact conditions of a run**: if one step keeps `Q` exactly when its condition holds, then `Q` holds after every
part of a run exactly when every step meets its condition. -/
theorem forall_prefix_iff {Q : List ι → Prop} {C : List ι → ι → Prop} (h0 : Q [])
    (hstep : ∀ pre i, Q pre → (Q (pre ++ [i]) ↔ C pre i)) (is : List ι) :
    (∀ pre, pre <+: is → Q pre) ↔ ∀ pre i, pre ++ [i] <+: is → C pre i := by
  constructor
  · intro h pre i hp
    have hpre := h pre ((List.prefix_append pre [i]).trans hp)
    exact (hstep pre i hpre).mp (h (pre ++ [i]) hp)
  · intro h pre
    induction pre using List.reverseRecOn with
    | nil =>
      intro _
      exact h0
    | append_singleton pre i ih =>
      intro hp
      exact (hstep pre i (ih ((List.prefix_append pre [i]).trans hp))).mpr (h pre i hp)

theorem mealy_append (f : σ → ι → σ × ο) (s : σ) (is js : List ι) :
    mealy f s (is ++ js) =
      ((mealy f (mealy f s is).1 js).1, (mealy f s is).2 ++ (mealy f (mealy f s is).1 js).2) := by
  induction is generalizing s with
  | nil => rfl
  | cons i is ih => simp [mealy, ih]

/-- **Forward simulation**: a relation kept by every pair of steps with equal outputs gives equal outputs. -/
theorem mealy_simulation {f : σ → ι → σ × ο} {g : τ → ι → τ × ο} {R : σ → τ → Prop}
    (hstep : ∀ s a i, R s a → R (f s i).1 (g a i).1 ∧ (f s i).2 = (g a i).2) :
    ∀ (is : List ι) (s : σ) (a : τ), R s a →
      R (mealy f s is).1 (mealy g a is).1 ∧ (mealy f s is).2 = (mealy g a is).2
  | [], _, _, h => ⟨h, rfl⟩
  | i :: is, s, a, h => by
    obtain ⟨h1, h2⟩ := hstep s a i h
    obtain ⟨h3, h4⟩ := mealy_simulation hstep is _ _ h1
    exact ⟨h3, by simp only [mealy, h2, h4]⟩

/-- The outputs of a machine to the inputs that `proj` gives to one component. -/
def outputsAt (proj : ι → Option κ) (f : σ → ι → σ × ο) : σ → List ι → List ο
  | _, [] => []
  | s, i :: is =>
    if (proj i).isSome then (f s i).2 :: outputsAt proj f (f s i).1 is else outputsAt proj f (f s i).1 is

/-- **The component alone**: a relation between the whole and the component that is kept by the component's own inputs,
with equal outputs, and by all other inputs. -/
theorem outputsAt_eq {proj : ι → Option κ} {f : σ → ι → σ × ο} {g : τ → κ → τ × ο} {R : σ → τ → Prop}
    {ok : σ → ι → Prop}
    (hown : ∀ s t i k, R s t → ok s i → proj i = some k → R (f s i).1 (g t k).1 ∧ (f s i).2 = (g t k).2)
    (hother : ∀ s t i, R s t → ok s i → proj i = none → R (f s i).1 t) :
    ∀ (is : List ι) (s : σ) (t : τ), R s t → AllSteps (fun s i => (f s i).1) ok s is →
      outputsAt proj f s is = (mealy g t (is.filterMap proj)).2
  | [], _, _, _, _ => rfl
  | i :: is, s, t, hR, hok => by
    obtain ⟨hi, his⟩ := hok
    cases hp : proj i with
    | none =>
      have hrest := outputsAt_eq hown hother is _ _ (hother s t i hR hi hp) his
      simpa [outputsAt, hp] using hrest
    | some k =>
      obtain ⟨hR', hout⟩ := hown s t i k hR hi hp
      have hrest := outputsAt_eq hown hother is _ _ hR' his
      simpa [outputsAt, hp, mealy, hout] using hrest

end Cxsw
